import AntRuntime.Pkg.Registry
import Mathlib.Logic.Function.Basic

/-!
# The second pass of the resolver

The work list holds dependencies with the install path of the package that has them. A
dependency takes the package at the root if its version satisfies the constraint. If there
is none at the root one is put there; if the one at the root does not satisfy the
constraint, a package is nested under the dependent one.
-/

namespace AntRuntime.Pkg

open List
open Tar (Bytes ascii)

section Model

/-- An install path, as the names between the `node_modules` directories. -/
abbrev Path := List Name

/-- The path as `installPath` prints it. -/
def Path.text : Path → Bytes
  | [] => []
  | [name] => name.text
  | name :: rest => name.text ++ ascii "/node_modules/" ++ Path.text rest

/-- `ResolvedPackage.Dep`. -/
structure Dep where
  name : Name
  constraint : Bytes
  peer : Bool
  optional : Bool
deriving DecidableEq

/-- The install name and the text of a dependency. -/
def Dep.entry (dep : Dep) : Entry :=
  (dep.name, dep.constraint)

/-- `ResolvedPackage`. -/
structure ResolvedPackage where
  name : Name
  version : Version
  tarballUrl : Bytes
  dependencies : List Dep
  depth : Nat
  direct : Bool
  parentPath : Option Path
  disabledDependencies : List Entry
deriving DecidableEq

/-- `installPath`. -/
def ResolvedPackage.installPath (pkg : ResolvedPackage) : Path :=
  pkg.parentPath.getD [] ++ [pkg.name]

/-- What the resolver works with: the platform, the metadata it can fetch from the registry
and from the hosts of tarballs, and the versions the first pass found. -/
structure Setting where
  platform : Platform
  registry : List (Bytes × PackageMetadata)
  hosted : List ((Bytes × Bytes) × PackageMetadata)
  optimal : Name → Option VersionInfo
  /-- The first pass takes its versions from the registry. -/
  optimalKnown : ∀ name info, optimal name = some info →
    ∃ package ∈ registry, info ∈ package.2.versions

/-- The fields of `Resolver` that change: the packages by install path, the names in
`metadata_cache` and the root's disabled dependencies. -/
structure Resolver where
  resolved : Path → Option ResolvedPackage
  cached : List Bytes
  disabledRootDependencies : List Entry

/-- The errors of a dependency. -/
inductive ResolveError where
  | noMatchingVersion
  | platformMismatch
  | invalidVersion
  | fetchFailed
deriving DecidableEq

variable (setting : Setting)

/-- `optionalDependencyShouldSkip`. -/
def optionalDependencyShouldSkip (cached : List Bytes) (entry : Entry) : Bool :=
  setting.platform.optionalDependencyNamePlatformMismatch entry.1.text ||
    match Constraint.parse (dependencySpec entry).constraint with
    | none => false
    | some constraint =>
      cached.contains (dependencySpec entry).packageName &&
        match setting.registry.lookup (dependencySpec entry).packageName with
        | none => false
        | some metadata => (selectBestVersion setting.platform metadata constraint).isNone

/-- The dependency list of a package: the optional ones that are not skipped, and those of
the peers that are not optional. -/
def dependencyList (cached : List Bytes) (info : VersionInfo) (peers : Bool) : List Dep :=
  info.dependencies.map (fun entry => ⟨entry.1, entry.2, false, false⟩) ++
  (info.optionalDependencies.filter fun entry =>
    !optionalDependencyShouldSkip setting cached entry).map
      (fun entry => ⟨entry.1, entry.2, false, true⟩) ++
  if peers then
    (info.peerDependencies.filter fun entry => !info.peerDependenciesMeta.contains entry.1).map
      fun entry => ⟨entry.1, entry.2, true, false⟩
  else []

/-- The package for a version, as `createPackageFromVersion`, `createNestedPackage` and
`resolveSingleWithOptimal` build it. Only a nested package has no peers. -/
def createPackage (cached : List Bytes) (name : Name) (info : VersionInfo) (depth : Nat)
    (direct : Bool) (parentPath : Option Path) (peers : Bool) : ResolvedPackage where
  name := name
  version := info.version
  tarballUrl := info.tarballUrl
  dependencies := dependencyList setting cached info peers
  depth := depth
  direct := direct
  parentPath := parentPath
  disabledDependencies := info.optionalDependencies.filter
    (optionalDependencyShouldSkip setting cached)

/-- `self.resolved.put`. -/
def Resolver.put (resolver : Resolver) (path : Path) (pkg : ResolvedPackage) : Resolver :=
  { resolver with resolved := Function.update resolver.resolved path (some pkg) }

/-- A package that is used again becomes direct and moves up. -/
def ResolvedPackage.touch (pkg : ResolvedPackage) (depth : Nat) (direct : Bool) : ResolvedPackage :=
  { pkg with
    direct := pkg.direct || direct
    depth := if depth < pkg.depth then depth else pkg.depth }

/-- What `fetchMetadata` leaves in the cache. -/
def Resolver.fetched (resolver : Resolver) (packageName : Bytes) : Resolver :=
  { resolver with cached := packageName :: resolver.cached }

/-- `fetchMetadataForTarballUrl`. -/
def fetchMetadataForTarballUrl (name : Name) (tarballUrl : Bytes) :
    Except ResolveError PackageMetadata :=
  match httpUrlHost tarballUrl with
  | none => .error .noMatchingVersion
  | some host =>
    match setting.hosted.lookup (host, name.text) with
    | none => .error .fetchFailed
    | some metadata => .ok metadata

/-- The version a tarball URL stands for. -/
def tarballVersion (name : Name) (tarballUrl : Bytes) : Except ResolveError VersionInfo :=
  match fetchMetadataForTarballUrl setting name tarballUrl with
  | .error error => .error error
  | .ok metadata =>
    match selectVersionByTarballUrl metadata tarballUrl with
    | none => .error .noMatchingVersion
    | some info =>
      if info.matchesPlatform setting.platform then .ok info else .error .platformMismatch

/-- `resolveTarballUrl`. -/
def resolveTarballUrl (name : Name) (tarballUrl : Bytes) (depth : Nat) (direct : Bool)
    (parentPath : Option Path) (resolver : Resolver) :
    Except ResolveError ResolvedPackage × Resolver :=
  match (resolver.resolved [name]).filter fun pkg => pkg.tarballUrl == tarballUrl with
  | some existing =>
    (.ok (existing.touch depth direct), resolver.put [name] (existing.touch depth direct))
  | none =>
    match tarballVersion setting name tarballUrl with
    | .error error => (.error error, resolver)
    | .ok info =>
      let pkg := createPackage setting resolver.cached name info depth direct parentPath true
      (.ok pkg, resolver.put pkg.installPath pkg)

/-- `createNestedPackage`. -/
def createNestedPackage (name : Name) (info : VersionInfo) (depth : Nat) (parentPath : Path)
    (resolver : Resolver) : ResolvedPackage × Resolver :=
  match resolver.resolved (parentPath ++ [name]) with
  | some existing => (existing, resolver)
  | none =>
    let pkg := createPackage setting resolver.cached name info depth false (some parentPath) false
    (pkg, resolver.put (parentPath ++ [name]) pkg)

/-- The version for the root: the one of the first pass if it matches, else the best. -/
def hoistedVersion (name : Name) (metadata : PackageMetadata) (constraint : Constraint) :
    Option VersionInfo :=
  ((setting.optimal name).filter fun info =>
    metadata.constraintMatches constraint info.version && info.matchesPlatform setting.platform).or
      (selectBestVersion setting.platform metadata constraint)

/-- The branch of `resolveSingleWithOptimal` for a name that is at the root. -/
def resolveAgainst (existing : ResolvedPackage) (entry : Entry) (constraint : Constraint)
    (depth : Nat) (direct : Bool) (parentPath : Option Path) (resolver : Resolver) :
    Except ResolveError ResolvedPackage × Resolver :=
  if constraint.satisfies existing.version then
    (.ok (existing.touch depth direct), resolver.put [entry.1] (existing.touch depth direct))
  else
    match parentPath with
    | none => (.ok existing, resolver)
    | some parent =>
      match setting.registry.lookup (dependencySpec entry).packageName with
      | none => (.error .fetchFailed, resolver)
      | some metadata =>
        let resolver := resolver.fetched (dependencySpec entry).packageName
        match selectBestVersion setting.platform metadata constraint with
        | none => (.ok existing, resolver)
        | some info =>
          if info.matchesPlatform setting.platform then
            let nested := createNestedPackage setting entry.1 info depth parent resolver
            (.ok nested.1, nested.2)
          else (.ok existing, resolver)

/-- The branch of `resolveSingleWithOptimal` for a name that is not at the root. -/
def resolveAtRoot (entry : Entry) (constraint : Constraint) (depth : Nat) (direct : Bool)
    (resolver : Resolver) : Except ResolveError ResolvedPackage × Resolver :=
  match setting.registry.lookup (dependencySpec entry).packageName with
  | none => (.error .fetchFailed, resolver)
  | some metadata =>
    let resolver := resolver.fetched (dependencySpec entry).packageName
    match hoistedVersion setting entry.1 metadata constraint with
    | none => (.error .noMatchingVersion, resolver)
    | some info =>
      if info.matchesPlatform setting.platform then
        let pkg := createPackage setting resolver.cached entry.1 info depth direct none true
        (.ok pkg, resolver.put [entry.1] pkg)
      else (.error .platformMismatch, resolver)

/-- `resolveSingleWithOptimal`. -/
def resolveSingleWithOptimal (entry : Entry) (depth : Nat) (direct : Bool)
    (parentPath : Option Path) (resolver : Resolver) :
    Except ResolveError ResolvedPackage × Resolver :=
  if isTarballUrl (dependencySpec entry).constraint then
    resolveTarballUrl setting entry.1 (dependencySpec entry).constraint depth direct parentPath
      resolver
  else
    match Constraint.parse (dependencySpec entry).constraint with
    | none => (.error .invalidVersion, resolver)
    | some constraint =>
      match resolver.resolved [entry.1] with
      | some existing =>
        resolveAgainst setting existing entry constraint depth direct parentPath resolver
      | none => resolveAtRoot setting entry constraint depth direct resolver

/-- `WorkItem`. -/
structure WorkItem where
  entry : Entry
  depth : Nat
  direct : Bool
  optional : Bool
  parentName : Option Path
deriving DecidableEq

/-- The parts of the key of an item in `processed`. -/
def WorkItem.key (item : WorkItem) : Option Path × Entry :=
  (item.parentName, item.entry)

/-- The key as the source prints it. -/
def keyText (key : Option Path × Entry) : Bytes :=
  Path.text (key.1.getD []) ++ 124 :: (key.2.1.text ++ 64 :: key.2.2)

/-- The variables of the loop. The keys of the items that were resolved without an error are
kept too, to speak about them. -/
structure Worklist where
  resolver : Resolver
  processed : List (Option Path × Entry)
  settled : List (Option Path × Entry)
  queue : List WorkItem

/-- `isOptionalResolutionSkipError`. -/
def isOptionalResolutionSkipError : ResolveError → Bool
  | .platformMismatch => true
  | .noMatchingVersion => true
  | _ => false

/-- `addDisabledOptionalDependency`. -/
def Resolver.addDisabledOptionalDependency (resolver : Resolver) (parentName : Option Path)
    (entry : Entry) : Resolver :=
  match parentName with
  | none =>
    { resolver with disabledRootDependencies := resolver.disabledRootDependencies ++ [entry] }
  | some parent =>
    match resolver.resolved parent with
    | none => resolver
    | some pkg =>
      resolver.put parent
        { pkg with disabledDependencies := pkg.disabledDependencies ++ [entry] }

/-- The items for the dependencies of a package that are not processed yet. -/
def followUps (processed : List (Option Path × Entry)) (pkg : ResolvedPackage) (depth : Nat) :
    List WorkItem :=
  (pkg.dependencies.filter fun dep =>
    !processed.contains (some pkg.installPath, dep.entry)).map fun dep =>
      ⟨dep.entry, depth + 1, false, dep.optional, some pkg.installPath⟩

/-- One item of a level. The queue is the next one, which is being built. -/
def processItem (item : WorkItem) (list : Worklist) : Except ResolveError Worklist :=
  if item.optional && optionalDependencyShouldSkip setting list.resolver.cached item.entry then
    .ok { list with
      resolver := list.resolver.addDisabledOptionalDependency item.parentName item.entry }
  else if list.processed.contains item.key then .ok list
  else
    let processed := item.key :: list.processed
    match resolveSingleWithOptimal setting item.entry item.depth item.direct item.parentName
      list.resolver with
    | (.error error, resolver) =>
      if item.optional && isOptionalResolutionSkipError error then
        .ok { list with
          resolver := resolver.addDisabledOptionalDependency item.parentName item.entry
          processed := processed }
      else if item.direct then .error error
      else .ok { list with resolver := resolver, processed := processed }
    | (.ok pkg, resolver) =>
      .ok {
        resolver := resolver
        processed := processed
        settled := item.key :: list.settled
        queue := list.queue ++ followUps processed pkg item.depth }

/-- The items of a level one after the other. -/
def processItems : List WorkItem → Worklist → Except ResolveError Worklist
  | [], list => .ok list
  | item :: items, list =>
    match processItem setting item list with
    | .error error => .error error
    | .ok list => processItems items list

/-- `prefetchMetadataConcurrent` for the names of a level. -/
def prefetch (queue : List WorkItem) (resolver : Resolver) : Resolver :=
  { resolver with
    cached := (queue.map fun item => (dependencySpec item.entry).packageName).filter
      (fun packageName => (setting.registry.lookup packageName).isSome) ++ resolver.cached }

/-- One level of the second pass. -/
def level (list : Worklist) : Except ResolveError Worklist :=
  processItems setting list.queue
    { list with resolver := prefetch setting list.queue list.resolver, queue := [] }

/-- The second pass, for at most so many levels. -/
def levels : Nat → Worklist → Except ResolveError Worklist
  | 0, list => .ok list
  | count + 1, list =>
    if list.queue = [] then .ok list
    else
      match level setting list with
      | .error error => .error error
      | .ok list => levels count list

/-- The dependencies of a `package.json`. -/
structure Manifest where
  dependencies : List Entry
  devDependencies : List Entry
  optionalDependencies : List Entry

/-- The start of the second pass, with the names that the first pass has fetched. -/
def Manifest.start (manifest : Manifest) (cached : List Bytes) : Worklist where
  resolver := ⟨fun _ => none, cached, []⟩
  processed := []
  settled := []
  queue :=
    (manifest.dependencies ++ manifest.devDependencies).map
      (fun entry => ⟨entry, 0, true, false, none⟩) ++
    manifest.optionalDependencies.map fun entry => ⟨entry, 0, true, true, none⟩

end Model

section Keys

/-- One of two texts that start the same text goes on with the other. -/
theorem eq_of_append_eq {first second s t : Bytes} (same : first ++ s = second ++ t)
    (sStarts : ∀ b ∈ s.head?, b = c) (tStarts : ∀ b ∈ t.head?, b = c)
    (firstEnds : ∀ rest, first ≠ second ++ c :: rest)
    (secondEnds : ∀ rest, second ≠ first ++ c :: rest) :
    first = second ∧ s = t := by
  rcases append_eq_append_iff.mp same with ⟨more, secondEq, sEq⟩ | ⟨more, firstEq, tEq⟩
  · cases more with
    | nil => exact ⟨by rw [secondEq, append_nil], sEq⟩
    | cons b more =>
      obtain rfl := sStarts b (by rw [sEq]; rfl)
      exact absurd secondEq (secondEnds more)
  · cases more with
    | nil => exact ⟨by rw [firstEq, append_nil], tEq.symm⟩
    | cons b more =>
      obtain rfl := tStarts b (by rw [tEq]; rfl)
      exact absurd firstEq (firstEnds more)

variable {name other : Name}

theorem Name.spec (name : Name) :
    name.text ≠ [] ∧ 124 ∉ name.text ∧ 64 ∉ name.text.drop 1 ∧
      name.text.count 47 = if name.text.head? = some 64 then 1 else 0 := by
  have isName := name.isName
  simp only [isPackageName, Bool.and_eq_true, bne_iff_ne, Bool.not_eq_true', beq_iff_eq,
    ← Bool.not_eq_true, contains_iff_mem] at isName
  refine ⟨isName.1.1.1, isName.1.1.2, isName.1.2, ?_⟩
  have slashes := isName.2
  split_ifs at slashes ⊢ <;> exact beq_iff_eq.mp slashes

/-- A name does not go on as another. -/
theorem Name.not_append_slash (name other : Name) (rest : Bytes) :
    name.text ≠ other.text ++ 47 :: rest := by
  intro same
  obtain ⟨-, -, -, slashes⟩ := name.spec
  obtain ⟨nonempty, -, -, otherSlashes⟩ := other.spec
  have sameHead : name.text.head? = other.text.head? := by
    rw [same, head?_append_of_ne_nil _ nonempty]
  rw [sameHead, same, count_append, count_cons_self] at slashes
  omega

theorem Name.not_append_at (name other : Name) (rest : Bytes) :
    name.text ≠ other.text ++ 64 :: rest := by
  intro same
  obtain ⟨-, -, noAt, -⟩ := name.spec
  obtain ⟨nonempty, -⟩ := other.spec
  apply noAt
  rw [same, drop_append_of_le_length (length_pos_of_ne_nil nonempty)]
  exact mem_append_right _ mem_cons_self

theorem Name.ext_text (same : name.text = other.text) : name = other := by
  cases name
  cases other
  cases same
  rfl

/-- The text of a path behind its first name. -/
def Path.moreText (path : Path) : Bytes :=
  if path = [] then [] else ascii "/node_modules/" ++ Path.text path

theorem Path.text_cons (name : Name) (path : Path) :
    Path.text (name :: path) = name.text ++ Path.moreText path := by
  cases path with
  | nil => exact (append_nil _).symm
  | cons next path => exact append_assoc _ _ _

theorem Path.head_moreText (path : Path) : ∀ b ∈ path.moreText.head?, b = 47 := by
  intro b isHead
  unfold Path.moreText at isHead
  split_ifs at isHead
  · cases isHead
  · exact (Option.mem_some_iff.mp isHead).symm

/-- Different install paths are printed differently. -/
theorem Path.text_injective : Function.Injective Path.text := by
  intro path
  induction path with
  | nil =>
    intro other same
    cases other with
    | nil => rfl
    | cons name other =>
      rw [Path.text_cons] at same
      exact absurd (append_eq_nil_iff.mp same.symm).1 name.spec.1
  | cons name path ih =>
    intro other same
    cases other with
    | nil =>
      rw [Path.text_cons] at same
      exact absurd (append_eq_nil_iff.mp same).1 name.spec.1
    | cons first other =>
      rw [Path.text_cons, Path.text_cons] at same
      obtain ⟨sameName, sameRest⟩ := eq_of_append_eq same (Path.head_moreText path)
        (Path.head_moreText other) (name.not_append_slash first) (first.not_append_slash name)
      rw [Name.ext_text sameName]
      congr 1
      unfold Path.moreText at sameRest
      split_ifs at sameRest with isEmpty otherEmpty otherEmpty
      · rw [isEmpty, otherEmpty]
      · cases sameRest
      · cases sameRest
      · exact ih (append_cancel_left sameRest)

theorem Path.no_bar (path : Path) : 124 ∉ Path.text path := by
  induction path with
  | nil => exact not_mem_nil
  | cons name path ih =>
    rw [Path.text_cons, mem_append, not_or]
    refine ⟨name.spec.2.1, ?_⟩
    unfold Path.moreText
    split_ifs
    · exact not_mem_nil
    · rw [mem_append, not_or]
      exact ⟨by decide, ih⟩

/-- Different keys are printed differently: comparing their parts is comparing the texts. -/
theorem keyText_injective
    {key other : Option Path × Entry} (keyPath : key.1 ≠ some []) (otherPath : other.1 ≠ some [])
    (same : keyText key = keyText other) :
    key = other := by
  obtain ⟨parent, name, text⟩ := key
  obtain ⟨otherParent, otherName, otherText⟩ := other
  simp only [keyText] at same
  have noBar (path : Path) (rest tail : Bytes) : Path.text path ≠ tail ++ 124 :: rest := by
    intro isText
    apply Path.no_bar path
    rw [isText]
    exact mem_append_right _ mem_cons_self
  have starts (c : UInt8) (rest : Bytes) : ∀ b ∈ (c :: rest).head?, b = c :=
    fun b isHead => (Option.mem_some_iff.mp isHead).symm
  obtain ⟨samePath, sameRest⟩ := eq_of_append_eq same (starts 124 _) (starts 124 _)
    (fun rest => noBar _ rest _) (fun rest => noBar _ rest _)
  obtain ⟨sameName, sameText⟩ := eq_of_append_eq (cons.inj sameRest).2 (starts 64 _)
    (starts 64 _) (name.not_append_at otherName) (otherName.not_append_at name)
  have sameParent : parent = otherParent := by
    have equal := Path.text_injective samePath
    cases parent with
    | none =>
      cases otherParent with
      | none => rfl
      | some path => exact absurd (congrArg some equal.symm) otherPath
    | some path =>
      cases otherParent with
      | none => exact absurd (congrArg some equal) keyPath
      | some other => exact congrArg some equal
  rw [sameParent, Name.ext_text sameName, (cons.inj sameText).2]

/-- A dependency of a nested package: its key, and that of the same dependency one level up. -/
theorem keyText_injective_nested :
    let outer : Name := ⟨ascii "@s/p", by decide⟩
    let inner : Name := ⟨ascii "a", by decide⟩
    let item : WorkItem := ⟨(inner, ascii "npm:b@1 | 2"), 2, false, true, some [outer, inner]⟩
    item.key = (some [outer, inner], (inner, ascii "npm:b@1 | 2")) ∧
      keyText item.key ≠ keyText (some [outer], item.entry) := by
  intro outer inner item
  refine ⟨keyText_injective (by decide) (by decide) rfl, fun same => ?_⟩
  have samePath := congrArg Prod.fst (keyText_injective (by decide) (by decide) same)
  exact absurd samePath (by decide)

end Keys

section Maps

variable {resolver : Resolver} {path other : Path} {pkg : ResolvedPackage}

@[simp] theorem Resolver.put_self : (resolver.put path pkg).resolved path = some pkg :=
  Function.update_self _ _ _

theorem Resolver.put_of_ne (different : other ≠ path) :
    (resolver.put path pkg).resolved other = resolver.resolved other :=
  Function.update_of_ne different _ _

end Maps

section Steps

variable {setting : Setting} {item : WorkItem} {list after : Worklist} {metadata : PackageMetadata}
variable {constraint : Constraint} {info : VersionInfo}

/-- An item that is not processed again leaves the list, or only notes that it is disabled. -/
inductive Passed (item : WorkItem) (list : Worklist) : Worklist → Prop
  | skipped : Passed item list { list with
      resolver := list.resolver.addDisabledOptionalDependency item.parentName item.entry }
  | known : Passed item list list

/-- What an item with an error leaves. -/
inductive Failed (item : WorkItem) (list : Worklist) (resolver : Resolver) : Worklist → Prop
  | disabled : Failed item list resolver { list with
      resolver := resolver.addDisabledOptionalDependency item.parentName item.entry
      processed := item.key :: list.processed }
  | dropped (notDirect : item.direct = false) : Failed item list resolver { list with
      resolver := resolver
      processed := item.key :: list.processed }

/-- What an item that is resolved leaves. -/
def Worklist.settle (list : Worklist) (item : WorkItem) (pkg : ResolvedPackage)
    (resolver : Resolver) :
    Worklist where
  resolver := resolver
  processed := item.key :: list.processed
  settled := item.key :: list.settled
  queue := list.queue ++ followUps (item.key :: list.processed) pkg item.depth

/-- Everything an item can do. -/
theorem processItem_cases (runs : processItem setting item list = .ok after) :
    Passed item list after ∨
    item.key ∉ list.processed ∧
      ((∃ error resolver, resolveSingleWithOptimal setting item.entry item.depth item.direct
          item.parentName list.resolver = (.error error, resolver) ∧
          Failed item list resolver after) ∨
        ∃ pkg resolver, resolveSingleWithOptimal setting item.entry item.depth item.direct
          item.parentName list.resolver = (.ok pkg, resolver) ∧
          after = list.settle item pkg resolver) := by
  rw [processItem] at runs
  by_cases skipped : (item.optional &&
      optionalDependencyShouldSkip setting list.resolver.cached item.entry) = true
  · rw [if_pos skipped] at runs
    cases runs
    exact Or.inl .skipped
  · rw [if_neg skipped] at runs
    by_cases known : list.processed.contains item.key = true
    · rw [if_pos known] at runs
      cases runs
      exact Or.inl .known
    · rw [if_neg known] at runs
      refine Or.inr ⟨fun isIn => known (contains_iff_mem.mpr isIn), ?_⟩
      cases result : resolveSingleWithOptimal setting item.entry item.depth item.direct
          item.parentName list.resolver with
      | mk outcome resolver =>
        rw [result] at runs
        cases outcome with
        | ok pkg =>
          cases runs
          exact Or.inr ⟨pkg, resolver, rfl, rfl⟩
        | error error =>
          refine Or.inl ⟨error, resolver, rfl, ?_⟩
          simp only at runs
          split_ifs at runs with mayFail direct
          · cases runs
            exact .disabled
          · cases runs
            exact .dropped (Bool.eq_false_iff.mpr direct)

section Resolved

variable (required : item.optional = false) (isNew : item.key ∉ list.processed)
  (notTarball : isTarballUrl (dependencySpec item.entry).constraint = false)
  (parsed : Constraint.parse (dependencySpec item.entry).constraint = some constraint)
  (found : setting.registry.lookup (dependencySpec item.entry).packageName = some metadata)
include required isNew notTarball parsed found

/-- An item whose name is at the root with a version that does not satisfy it. -/
theorem processItem_nests {existing : ResolvedPackage} {parent : Path}
    (known : list.resolver.resolved [item.entry.1] = some existing)
    (conflict : constraint.satisfies existing.version = false)
    (isParent : item.parentName = some parent)
    (selected : selectBestVersion setting.platform metadata constraint = some info)
    (absent : list.resolver.resolved (parent ++ [item.entry.1]) = none) :
    ∃ (pkg : ResolvedPackage) (resolver : Resolver),
      processItem setting item list =
        .ok (list.settle item pkg (resolver.put (parent ++ [item.entry.1]) pkg)) ∧
      resolver.resolved = list.resolver.resolved ∧
      pkg = createPackage setting resolver.cached item.entry.1 info item.depth false (some parent)
        false := by
  refine ⟨_, list.resolver.fetched (dependencySpec item.entry).packageName, ?_, rfl, rfl⟩
  have notKnown : ¬ list.processed.contains item.key = true :=
    fun isKnown => isNew (contains_iff_mem.mp isKnown)
  rw [processItem, required, Bool.false_and, if_neg notKnown,
    resolveSingleWithOptimal, notTarball, parsed]
  simp only [known]
  rw [resolveAgainst.eq_def, conflict, isParent]
  simp only [found, selected]
  rw [if_pos (selectBestVersion_spec selected).2.2, createNestedPackage]
  simp only [Resolver.fetched, absent]
  rfl

end Resolved

end Steps

end AntRuntime.Pkg
