import AntRuntime.Pkg.Resolver
import Mathlib.Data.Set.Finite.List
import Mathlib.Logic.Relation

/-!
# When the second pass ends

A package is nested under a dependent one if it conflicts with a version at the root. The pass
ends exactly if install paths stay short: then only finitely many keys can be processed, and
every level with successors processes a new one. Install paths follow the chains of what may be
nested, from what the root reaches, so they stay short if there is no cycle among those.
-/

namespace AntRuntime.Pkg

open List Or
open Tar (Bytes ascii)

section Graph

/-- All versions that can be fetched. -/
def Setting.versions (setting : Setting) : List VersionInfo :=
  setting.registry.flatMap (fun package => package.2.versions) ++
    setting.hosted.flatMap fun package => package.2.versions

/-- All dependencies of a `package.json`. -/
def Manifest.entries (manifest : Manifest) : List Entry :=
  manifest.dependencies ++ manifest.devDependencies ++ manifest.optionalDependencies

/-- A version as a package is made of it, with or without its peers. -/
abbrev Build := VersionInfo × Bool

variable (setting : Setting) (manifest : Manifest)

/-- The dependencies that a package can have. Which optional ones it does have depends on what
is fetched by then. -/
def entriesOf (build : Build) : List Entry :=
  (dependencyList setting [] build.1 build.2).map Dep.entry

/-- The version for a dependency on a tarball. -/
def versionOfTarball (entry : Entry) : Option VersionInfo :=
  if isTarballUrl (dependencySpec entry).constraint then
    (tarballVersion setting entry.1 (dependencySpec entry).constraint).toOption
  else none

/-- The version that a dependency puts at the root if there is none. -/
def versionAtRoot (entry : Entry) : Option VersionInfo :=
  if isTarballUrl (dependencySpec entry).constraint then none
  else do
    let constraint ← Constraint.parse (dependencySpec entry).constraint
    let metadata ← setting.registry.lookup (dependencySpec entry).packageName
    hoistedVersion setting entry.1 metadata constraint

/-- The version that a dependency puts below its package if the one at the root does not satisfy
its constraint. -/
def versionBelow (entry : Entry) (root : Version) : Option VersionInfo :=
  if isTarballUrl (dependencySpec entry).constraint then none
  else do
    let constraint ← Constraint.parse (dependencySpec entry).constraint
    let metadata ← setting.registry.lookup (dependencySpec entry).packageName
    if constraint.satisfies root then none
    else selectBestVersion setting.platform metadata constraint

/-- What may come to stand at an install path, starting from the dependencies of the root. -/
inductive Reached : Path → Build → Prop
  | direct {entry : Entry} {info : VersionInfo} (isEntry : entry ∈ manifest.entries)
      (takes : versionOfTarball setting entry = some info ∨ versionAtRoot setting entry =
        some info) :
      Reached [entry.1] (info, true)
  | hoisted {path : Path} {above : Build} {entry : Entry} {info : VersionInfo}
      (reached : Reached path above) (isEntry : entry ∈ entriesOf setting above)
      (takes : versionAtRoot setting entry = some info) :
      Reached [entry.1] (info, true)
  | tarball {path : Path} {above : Build} {entry : Entry} {info : VersionInfo}
      (reached : Reached path above) (isEntry : entry ∈ entriesOf setting above)
      (takes : versionOfTarball setting entry = some info) :
      Reached (path ++ [entry.1]) (info, true)
  | nested {path : Path} {above root : Build} {entry : Entry} {info : VersionInfo}
      (reached : Reached path above) (isEntry : entry ∈ entriesOf setting above)
      (atRoot : Reached [entry.1] root)
      (takes : versionBelow setting entry root.1.version = some info) :
      Reached (path ++ [entry.1]) (info, false)

/-- What may come to stand somewhere can have something else nested below it: for a tarball, or
for a conflict with what may come to stand at the root. -/
def Nests (above below : Build) : Prop :=
  (∃ path, Reached setting manifest path above) ∧ ∃ entry ∈ entriesOf setting above,
    versionOfTarball setting entry = some below.1 ∧ below.2 = true ∨
      ∃ root, Reached setting manifest [entry.1] root ∧
        versionBelow setting entry root.1.version = some below.1 ∧ below.2 = false

/-- Everything that can be built. -/
def Setting.builds (setting : Setting) : List Build :=
  setting.versions.flatMap fun info => [(info, true), (info, false)]

/-- All dependencies there are. -/
def allEntries : List Entry :=
  manifest.entries ++ setting.builds.flatMap (entriesOf setting)

end Graph

section Paths

variable {setting : Setting} {manifest : Manifest} {path : Path} {info : VersionInfo}
variable {entry : Entry} {name : Name} {build : Build}

theorem mem_flatMap_versions
    {κ : Type} [BEq κ] [LawfulBEq κ] {packages : List (κ × PackageMetadata)} {key : κ}
    {metadata : PackageMetadata} (found : packages.lookup key = some metadata)
    (isVersion : info ∈ metadata.versions) :
    info ∈ packages.flatMap fun package => package.2.versions := by
  obtain ⟨before, after, rfl, -⟩ := lookup_eq_some_iff.mp found
  exact mem_flatMap.mpr ⟨(key, metadata), by simp, isVersion⟩

/-- The version of a tarball is one of the setting. -/
theorem mem_versions_of_tarballVersion
    {tarballUrl : Bytes} (found : tarballVersion setting name tarballUrl = .ok info) :
    info ∈ setting.versions := by
  unfold tarballVersion fetchMetadataForTarballUrl at found
  cases host : httpUrlHost tarballUrl with
  | none => simp [host] at found
  | some host' =>
    cases fetched : setting.hosted.lookup (host', name.text) with
    | none => simp [host, fetched] at found
    | some metadata =>
      cases selected : selectVersionByTarballUrl metadata tarballUrl with
      | none => simp [host, fetched, selected] at found
      | some version =>
        simp only [host, fetched, selected] at found
        split_ifs at found
        cases found
        exact mem_append_right _ (mem_flatMap_versions fetched (mem_of_find?_eq_some selected))

/-- The version that a tarball dependency takes is one of the setting. -/
theorem mem_versions_of_versionOfTarball (takes : versionOfTarball setting entry = some info) :
    info ∈ setting.versions := by
  unfold versionOfTarball at takes
  split_ifs at takes
  cases found : tarballVersion setting entry.1 (dependencySpec entry).constraint with
  | error error =>
    rw [found] at takes
    cases takes
  | ok known =>
    rw [found] at takes
    obtain rfl := Option.some.inj takes
    exact mem_versions_of_tarballVersion found

/-- The version that is put at the root is one of the setting. -/
theorem mem_versions_of_versionAtRoot (takes : versionAtRoot setting entry = some info) :
    info ∈ setting.versions := by
  unfold versionAtRoot at takes
  split_ifs at takes
  obtain ⟨constraint, -, takes⟩ := Option.bind_eq_some_iff.mp takes
  obtain ⟨metadata, found, takes⟩ := Option.bind_eq_some_iff.mp takes
  rw [hoistedVersion, Option.or_eq_some_iff] at takes
  rcases takes with isOptimal | ⟨-, isBest⟩
  · obtain ⟨package, isPackage, isVersion⟩ :=
      setting.optimalKnown entry.1 info (Option.eq_some_of_filter_eq_some isOptimal)
    exact mem_append_left _ (mem_flatMap.mpr ⟨package, isPackage, isVersion⟩)
  · exact mem_append_left _ (mem_flatMap_versions found (selectBestVersion_spec isBest).1)

/-- The version that is nested is one of the setting. -/
theorem mem_versions_of_versionBelow {root : Version}
    (takes : versionBelow setting entry root = some info) : info ∈ setting.versions := by
  unfold versionBelow at takes
  split_ifs at takes
  obtain ⟨constraint, -, takes⟩ := Option.bind_eq_some_iff.mp takes
  obtain ⟨metadata, found, takes⟩ := Option.bind_eq_some_iff.mp takes
  split_ifs at takes
  exact mem_append_left _ (mem_flatMap_versions found (selectBestVersion_spec takes).1)

/-- A version can be built with and without its peers. -/
theorem mem_builds (isVersion : info ∈ setting.versions) (peers : Bool) :
    (info, peers) ∈ setting.builds := by
  refine mem_flatMap.mpr ⟨info, isVersion, ?_⟩
  cases peers
  · exact mem_cons_of_mem _ mem_cons_self
  · exact mem_cons_self

/-- What may come to stand somewhere is one of the builds. -/
theorem Reached.mem_builds (reached : Reached setting manifest path build) :
    build ∈ setting.builds := by
  cases reached with
  | direct _ takes =>
    rcases takes with takes | takes
    · exact Pkg.mem_builds (mem_versions_of_versionOfTarball takes) true
    · exact Pkg.mem_builds (mem_versions_of_versionAtRoot takes) true
  | hoisted _ _ takes => exact Pkg.mem_builds (mem_versions_of_versionAtRoot takes) true
  | tarball _ _ takes => exact Pkg.mem_builds (mem_versions_of_versionOfTarball takes) true
  | nested _ _ _ takes => exact Pkg.mem_builds (mem_versions_of_versionBelow takes) false

/-- The dependencies of what may come to stand somewhere are among all dependencies. -/
theorem Reached.mem_allEntries (reached : Reached setting manifest path build)
    (isEntry : entry ∈ entriesOf setting build) : entry ∈ allEntries setting manifest :=
  mem_append_right _ (mem_flatMap.mpr ⟨build, reached.mem_builds, isEntry⟩)

/-- The path is a chain of nestings that ends in a build. -/
def ChainTo (setting : Setting) (manifest : Manifest) (path : Path) (build : Build) : Prop :=
  ∃ builds : List Build, (builds ++ [build]).length = path.length ∧
    (builds ++ [build]).IsChain (Nests setting manifest) ∧
    ∀ known ∈ builds ++ [build], known ∈ setting.builds

/-- What stands at the root is a chain of its own. -/
theorem chainTo_singleton (known : build ∈ setting.builds) (name : Name) :
    ChainTo setting manifest [name] build :=
  ⟨[], rfl, isChain_singleton _, forall_mem_singleton.mpr known⟩

/-- A nesting makes the chain longer by one. -/
theorem ChainTo.append {below : Build} (chain : ChainTo setting manifest path build)
    (nests : Nests setting manifest build below) (known : below ∈ setting.builds) (name : Name) :
    ChainTo setting manifest (path ++ [name]) below := by
  obtain ⟨builds, lengthEq, isChain, allKnown⟩ := chain
  refine ⟨builds ++ [build], ?_, ?_, ?_⟩
  · rw [length_append, lengthEq, length_append]
    rfl
  · refine isChain.append (isChain_singleton below) ?_
    intro last isLast first isFirst
    rw [getLast?_concat, Option.mem_some_iff] at isLast
    rw [head?_cons, Option.mem_some_iff] at isFirst
    rw [← isLast, ← isFirst]
    exact nests
  · rw [forall_mem_append, forall_mem_singleton]
    exact ⟨allKnown, known⟩

/-- Along an install path each build nests the next. -/
theorem Reached.chainTo (reached : Reached setting manifest path build) :
    ChainTo setting manifest path build := by
  induction reached with
  | direct isEntry takes => exact chainTo_singleton (Reached.direct isEntry takes).mem_builds _
  | hoisted above isEntry takes _ =>
    exact chainTo_singleton (Reached.hoisted above isEntry takes).mem_builds _
  | @tarball _ _ entry _ above isEntry takes ih =>
    exact ih.append ⟨⟨_, above⟩, entry, isEntry, inl ⟨takes, rfl⟩⟩
      (Reached.tarball above isEntry takes).mem_builds _
  | @nested _ _ root entry _ above isEntry atRoot takes ih _ =>
    exact ih.append ⟨⟨_, above⟩, entry, isEntry, inr ⟨root, atRoot, takes, rfl⟩⟩
      (Reached.nested above isEntry atRoot takes).mem_builds _

/-- The names on an install path are names of dependencies. -/
theorem Reached.names (reached : Reached setting manifest path build) :
    ∀ name ∈ path, name ∈ (allEntries setting manifest).map Prod.fst := by
  induction reached with
  | direct isEntry _ => exact forall_mem_singleton.mpr (mem_map_of_mem (mem_append_left _ isEntry))
  | hoisted above isEntry _ _ =>
    exact forall_mem_singleton.mpr (mem_map_of_mem (above.mem_allEntries isEntry))
  | tarball above isEntry _ ih =>
    rw [forall_mem_append, forall_mem_singleton]
    exact ⟨ih, mem_map_of_mem (above.mem_allEntries isEntry)⟩
  | nested above isEntry _ _ ih _ =>
    rw [forall_mem_append, forall_mem_singleton]
    exact ⟨ih, mem_map_of_mem (above.mem_allEntries isEntry)⟩

/-- Without a cycle of nestings nothing comes twice on an install path. -/
theorem Reached.length_le (reached : Reached setting manifest path build)
    (acyclic : ∀ build, ¬ Relation.TransGen (Nests setting manifest) build build) :
    path.length ≤ setting.builds.length := by
  obtain ⟨builds, lengthEq, isChain, known⟩ := reached.chainTo
  have below : (builds ++ [build]).Pairwise (Relation.TransGen (Nests setting manifest)) :=
    (isChain.imp fun _ _ nests => Relation.TransGen.single nests).pairwise
  have distinct : (builds ++ [build]).Nodup := by
    refine below.imp fun nests same => ?_
    subst same
    exact acyclic _ nests
  rw [← lengthEq]
  exact (subperm_of_subset distinct known).length_le

end Paths

section Trees

variable (setting : Setting) (manifest : Manifest) {constraint : Constraint}

/-- A package stands at its install path, and its dependencies are among those of a build that
may come to stand there. -/
structure Placed (path : Path) (pkg : ResolvedPackage) : Prop where
  installed : pkg.installPath = path
  build : ∃ build, Reached setting manifest path build ∧ pkg.version = build.1.version ∧
    ∀ dep ∈ pkg.dependencies, dep.entry ∈ entriesOf setting build

/-- Every package is placed. -/
def Tree (resolver : Resolver) : Prop :=
  ∀ path pkg, resolver.resolved path = some pkg → Placed setting manifest path pkg

/-- Where the dependency of an item comes from. -/
def Origin : Option Path × Entry → Prop
  | (none, entry) => entry ∈ manifest.entries
  | (some path, entry) => ∃ build, Reached setting manifest path build ∧
      entry ∈ entriesOf setting build

variable {setting manifest} {resolver : Resolver} {path : Path} {pkg : ResolvedPackage}
  {info : VersionInfo} {entry : Entry} {parentPath : Option Path}

/-- Every dependency that is processed is among all dependencies. -/
theorem Origin.mem_allEntries (origin : Origin setting manifest (parentPath, entry)) :
    entry ∈ allEntries setting manifest := by
  cases parentPath with
  | none => exact mem_append_left _ origin
  | some path =>
    obtain ⟨build, reached, isEntry⟩ := origin
    exact reached.mem_allEntries isEntry

/-- What is skipped before anything is fetched is skipped later too. -/
theorem optionalDependencyShouldSkip_of_nil (cached : List Bytes)
    (skipped : optionalDependencyShouldSkip setting [] entry = true) :
    optionalDependencyShouldSkip setting cached entry = true := by
  rw [optionalDependencyShouldSkip, Bool.or_eq_true] at skipped ⊢
  refine inl (skipped.resolve_right fun fetched => ?_)
  split at fetched
  · cases fetched
  · rw [contains_nil, Bool.false_and] at fetched
    cases fetched

/-- What is fetched by then only takes dependencies away. -/
theorem dependencyList_subset (cached : List Bytes) (info : VersionInfo) (peers : Bool) :
    ∀ dep ∈ dependencyList setting cached info peers,
      dep.entry ∈ entriesOf setting (info, peers) := by
  intro dep isIn
  refine mem_map_of_mem ?_
  rw [dependencyList, mem_append, mem_append] at isIn ⊢
  refine isIn.imp_left (Or.imp_right fun isOptional => ?_)
  obtain ⟨entry, isEntry, rfl⟩ := mem_map.mp isOptional
  rw [mem_filter, Bool.not_eq_true', ← Bool.not_eq_true] at isEntry
  refine mem_map_of_mem (mem_filter.mpr ⟨isEntry.1, ?_⟩)
  rw [Bool.not_eq_true', ← Bool.not_eq_true]
  exact fun skipped => isEntry.2 (optionalDependencyShouldSkip_of_nil cached skipped)

/-- A package that is created for a build is placed. -/
theorem placed_createPackage {cached : List Bytes} {name : Name} {depth : Nat} {direct peers : Bool}
    (reached : Reached setting manifest (parentPath.getD [] ++ [name]) (info, peers)) :
    Placed setting manifest (parentPath.getD [] ++ [name])
      (createPackage setting cached name info depth direct parentPath peers) :=
  ⟨rfl, (info, peers), reached, rfl, dependencyList_subset cached info peers⟩

/-- A package that is met again stays where it is. -/
theorem Placed.touch (placed : Placed setting manifest path pkg) (depth : Nat) (direct : Bool) :
    Placed setting manifest path (pkg.touch depth direct) :=
  ⟨placed.installed, placed.build⟩

/-- A placed package may be added. -/
theorem Tree.put (tree : Tree setting manifest resolver)
    (placed : Placed setting manifest path pkg) :
    Tree setting manifest (resolver.put path pkg) := by
  intro other found isFound
  by_cases same : other = path
  · subst same
    rw [Resolver.put_self, Option.some.injEq] at isFound
    rw [← isFound]
    exact placed
  · rw [Resolver.put_of_ne same] at isFound
    exact tree other found isFound

/-- Noting a dependency as disabled moves nothing. -/
theorem Tree.addDisabledOptionalDependency (tree : Tree setting manifest resolver) :
    Tree setting manifest (resolver.addDisabledOptionalDependency parentPath entry) := by
  unfold Resolver.addDisabledOptionalDependency
  cases parentPath with
  | none => exact tree
  | some parent =>
    simp only
    cases found : resolver.resolved parent with
    | none => exact tree
    | some pkg =>
      have placed := tree parent pkg found
      exact tree.put ⟨placed.installed, placed.build⟩

/-- A call leaves a tree, and the package it returns is placed. -/
def Extends (result : Except ResolveError ResolvedPackage × Resolver) : Prop :=
  Tree setting manifest result.2 ∧
    ∀ pkg, result.1 = .ok pkg → Placed setting manifest pkg.installPath pkg

section

variable (tree : Tree setting manifest resolver)
include tree

/-- A call that fails adds nothing. -/
theorem Tree.failed (error : ResolveError) : @Extends setting manifest (.error error, resolver) :=
  ⟨tree, fun _ => nofun⟩

/-- A package that is returned as it stands is placed. -/
theorem Tree.returned (placed : Placed setting manifest path pkg) :
    @Extends setting manifest (.ok pkg, resolver) := by
  refine ⟨tree, fun returned isReturned => ?_⟩
  cases isReturned
  rw [placed.installed]
  exact placed

/-- A package that is added and returned is placed. -/
theorem Tree.returned_put (placed : Placed setting manifest path pkg) :
    @Extends setting manifest (.ok pkg, resolver.put path pkg) :=
  (tree.put placed).returned placed

/-- A dependency on a tarball leaves a tree. -/
theorem Tree.resolveTarballUrl (origin : Origin setting manifest (parentPath, entry))
    (isTarball : isTarballUrl (dependencySpec entry).constraint = true) (depth : Nat)
    (direct : Bool) :
    @Extends setting manifest (resolveTarballUrl setting entry.1 (dependencySpec entry).constraint
      depth direct parentPath resolver) := by
  unfold Pkg.resolveTarballUrl
  cases known : (resolver.resolved [entry.1]).filter
      fun pkg => pkg.tarballUrl == (dependencySpec entry).constraint with
  | some existing =>
    have placed := tree [entry.1] existing (Option.eq_some_of_filter_eq_some known)
    exact tree.returned_put (placed.touch depth direct)
  | none =>
    simp only
    cases found : tarballVersion setting entry.1 (dependencySpec entry).constraint with
    | error error => exact tree.failed error
    | ok info =>
      have takes : versionOfTarball setting entry = some info := by
        rw [versionOfTarball, if_pos isTarball, found]
        rfl
      refine tree.returned_put (placed_createPackage ?_)
      cases parentPath with
      | none => exact .direct origin (inl takes)
      | some path =>
        obtain ⟨above, reached, isEntry⟩ := origin
        exact .tarball reached isEntry takes

/-- A dependency that finds its name at the root leaves a tree, whether it takes that
package or nests its own. -/
theorem Tree.resolveAgainst (origin : Origin setting manifest (parentPath, entry))
    (notTarball : ¬ isTarballUrl (dependencySpec entry).constraint = true)
    (parsed : Constraint.parse (dependencySpec entry).constraint = some constraint)
    {existing : ResolvedPackage} (placed : Placed setting manifest [entry.1] existing) (depth : Nat)
    (direct : Bool) :
    @Extends setting manifest
      (resolveAgainst setting existing entry constraint depth direct parentPath resolver) := by
  unfold Pkg.resolveAgainst
  by_cases satisfied : constraint.satisfies existing.version = true
  · rw [if_pos satisfied]
    exact tree.returned_put (placed.touch depth direct)
  · rw [if_neg satisfied]
    cases parentPath with
    | none => exact tree.returned placed
    | some parent =>
      simp only
      cases found : setting.registry.lookup (dependencySpec entry).packageName with
      | none => exact tree.failed _
      | some metadata =>
        simp only
        cases selected : selectBestVersion setting.platform metadata constraint with
        | none => exact Tree.returned tree placed
        | some info =>
          simp only
          split_ifs
          · obtain ⟨above, reached, isEntry⟩ := origin
            obtain ⟨root, atRoot, sameVersion, -⟩ := placed.build
            have takes : versionBelow setting entry root.1.version = some info := by
              rw [versionBelow, if_neg notTarball, parsed, found, ← sameVersion]
              exact (if_neg satisfied).trans selected
            unfold createNestedPackage
            simp only
            cases known : (resolver.fetched (dependencySpec entry).packageName).resolved
                (parent ++ [entry.1]) with
            | some nested => exact Tree.returned tree (tree _ nested known)
            | none =>
              exact Tree.returned_put tree (@placed_createPackage setting manifest info
                (some parent) _ _ _ _ _ (.nested reached isEntry atRoot takes))
          · exact Tree.returned tree placed

end

/-- A dependency that does not find its name at the root leaves a tree. -/
theorem Tree.resolveAtRoot
    (tree : Tree setting manifest resolver) (origin : Origin setting manifest (parentPath, entry))
    (notTarball : ¬ isTarballUrl (dependencySpec entry).constraint = true)
    (parsed : Constraint.parse (dependencySpec entry).constraint = some constraint) (depth : Nat)
    (direct : Bool) :
    @Extends setting manifest (resolveAtRoot setting entry constraint depth direct resolver) := by
  unfold Pkg.resolveAtRoot
  cases found : setting.registry.lookup (dependencySpec entry).packageName with
  | none => exact tree.failed _
  | some metadata =>
    simp only
    cases selected : hoistedVersion setting entry.1 metadata constraint with
    | none => exact Tree.failed tree _
    | some info =>
      simp only
      split_ifs
      · have takes : versionAtRoot setting entry = some info := by
          rw [versionAtRoot, if_neg notTarball, parsed, found]
          exact selected
        refine Tree.returned_put tree (@placed_createPackage setting manifest info none _ _
          _ _ _ ?_)
        cases parentPath with
        | none => exact .direct origin (inr takes)
        | some path =>
          obtain ⟨above, reached, isEntry⟩ := origin
          exact .hoisted reached isEntry takes
      · exact Tree.failed tree _

/-- Resolving a dependency leaves a tree, and the package that comes out is placed. -/
theorem Tree.resolveSingleWithOptimal
    (tree : Tree setting manifest resolver) (origin : Origin setting manifest (parentPath, entry))
    (depth : Nat) (direct : Bool) :
    @Extends setting manifest
      (resolveSingleWithOptimal setting entry depth direct parentPath resolver) := by
  unfold Pkg.resolveSingleWithOptimal
  by_cases isTarball : isTarballUrl (dependencySpec entry).constraint = true
  · rw [if_pos isTarball]
    exact tree.resolveTarballUrl origin isTarball depth direct
  · rw [if_neg isTarball]
    cases parsed : Constraint.parse (dependencySpec entry).constraint with
    | none => exact tree.failed _
    | some constraint =>
      simp only
      cases known : resolver.resolved [entry.1] with
      | some existing =>
        exact tree.resolveAgainst origin isTarball parsed (tree _ existing known) depth direct
      | none => exact tree.resolveAtRoot origin isTarball parsed depth direct

end Trees

section Levels

variable (setting : Setting) (manifest : Manifest)

/-- What holds between two items: the packages are placed, and every key that was processed
or is to be processed has an origin. -/
structure Sound (list : Worklist) : Prop where
  tree : Tree setting manifest list.resolver
  processed : ∀ key ∈ list.processed, Origin setting manifest key
  distinct : list.processed.Nodup
  queue : ∀ item ∈ list.queue, Origin setting manifest item.key

variable {setting manifest} {list after : Worklist} {item : WorkItem}

/-- The items that a placed package queues come from its build. -/
theorem origin_followUps
    {pkg : ResolvedPackage} (placed : Placed setting manifest pkg.installPath pkg)
    (processed : List (Option Path × Entry)) (depth : Nat) :
    ∀ item ∈ followUps processed pkg depth, Origin setting manifest item.key := by
  intro item isIn
  obtain ⟨dep, isDep, rfl⟩ := mem_map.mp isIn
  obtain ⟨build, reached, -, entries⟩ := placed.build
  exact ⟨build, reached, entries dep (mem_of_mem_filter isDep)⟩

section

variable (sound : Sound setting manifest list)
include sound

/-- An item keeps the list sound; and the next queue grows only with the processed keys. -/
theorem Sound.processItem
    (origin : Origin setting manifest item.key) (runs : processItem setting item list = .ok after) :
    Sound setting manifest after ∧
      (after.processed = list.processed ∧ after.queue = list.queue ∨
        after.processed = item.key :: list.processed) := by
  rcases processItem_cases runs with passed | ⟨isNew, outcome⟩
  · cases passed with
    | skipped =>
      exact ⟨{ sound with tree := sound.tree.addDisabledOptionalDependency }, inl ⟨rfl, rfl⟩⟩
    | known => exact ⟨sound, inl ⟨rfl, rfl⟩⟩
  · obtain ⟨tree, placed⟩ := sound.tree.resolveSingleWithOptimal origin item.depth item.direct
    have processed : ∀ key ∈ item.key :: list.processed, Origin setting manifest key :=
      forall_mem_cons.mpr ⟨origin, sound.processed⟩
    have distinct : (item.key :: list.processed).Nodup := nodup_cons.mpr ⟨isNew, sound.distinct⟩
    rcases outcome with ⟨error, resolver, result, failed⟩ | ⟨pkg, resolver, result, rfl⟩
    · rw [result] at tree
      cases failed with
      | disabled =>
        exact ⟨⟨tree.addDisabledOptionalDependency, processed, distinct, sound.queue⟩, inr rfl⟩
      | dropped _ => exact ⟨⟨tree, processed, distinct, sound.queue⟩, inr rfl⟩
    · rw [result] at tree placed
      refine ⟨⟨tree, processed, distinct, ?_⟩, inr rfl⟩
      intro next isIn
      rcases mem_append.mp isIn with isOld | isFollowUp
      · exact sound.queue next isOld
      · exact origin_followUps (placed pkg rfl) _ _ next isFollowUp

/-- The items of a level leave the list sound, and either something new is processed or
nothing is queued. -/
theorem Sound.processItems
    {items : List WorkItem} (origins : ∀ item ∈ items, Origin setting manifest item.key)
    (runs : processItems setting items list = .ok after) :
    Sound setting manifest after ∧ list.processed.length ≤ after.processed.length ∧
      (after.processed.length = list.processed.length → after.queue = list.queue) := by
  induction items generalizing list with
  | nil =>
    cases runs
    exact ⟨sound, Nat.le_refl _, fun _ => rfl⟩
  | cons item items ih =>
    obtain ⟨origin, origins⟩ := forall_mem_cons.mp origins
    rw [Pkg.processItems] at runs
    cases first : Pkg.processItem setting item list with
    | error error =>
      rw [first] at runs
      cases runs
    | ok next =>
      rw [first] at runs
      obtain ⟨nextSound, step⟩ := sound.processItem origin first
      obtain ⟨afterSound, grows, kept⟩ := ih nextSound origins runs
      refine ⟨afterSound, ?_⟩
      rcases step with ⟨sameProcessed, sameQueue⟩ | added
      · rw [sameProcessed] at grows kept
        rw [sameQueue] at kept
        exact ⟨grows, kept⟩
      · rw [added, length_cons] at grows
        exact ⟨by omega, fun same => (by omega)⟩

/-- A level keeps the list sound, and processes a new key unless it is the last. -/
theorem Sound.level (runs : level setting list = .ok after) :
    Sound setting manifest after ∧
      (after.queue = [] ∨ list.processed.length < after.processed.length) := by
  have start : Sound setting manifest
      { list with resolver := prefetch setting list.queue list.resolver, queue := [] } :=
    { sound with queue := fun _ => nofun }
  obtain ⟨afterSound, grows, kept⟩ := start.processItems sound.queue runs
  refine ⟨afterSound, ?_⟩
  by_cases same : after.processed.length = list.processed.length
  · exact inl (kept same)
  · exact inr (Nat.lt_of_le_of_ne grows (Ne.symm same))

end

/-- The short lists over finitely many names. -/
theorem finite_paths (names : List Name) (bound : Nat) :
    {path : Path | path.length ≤ bound ∧ ∀ name ∈ path, name ∈ names}.Finite := by
  refine ((finite_length_le {name // name ∈ names} bound).image (map Subtype.val)).subset ?_
  rintro path ⟨short, known⟩
  refine ⟨path.attach.map fun name => ⟨name.1, known name.1 name.2⟩, ?_, ?_⟩
  · change (path.attach.map _).length ≤ bound
    rw [length_map, length_attach]
    exact short
  · rw [map_map]
    exact attach_map_subtype_val path

/-- The keys with an origin and a short path. -/
theorem finite_origins (depth : Nat) :
    {key | Origin setting manifest key ∧ (key.1.getD []).length ≤ depth}.Finite := by
  have paths := finite_paths ((allEntries setting manifest).map Prod.fst) depth
  refine (((paths.image some).insert none).prod
    (allEntries setting manifest).finite_toSet).subset ?_
  rintro ⟨parent, entry⟩ ⟨origin, short⟩
  refine ⟨?_, Origin.mem_allEntries origin⟩
  cases parent with
  | none => exact Set.mem_insert none _
  | some path =>
    obtain ⟨build, reached, -⟩ := origin
    exact Set.mem_insert_of_mem _ ⟨path, ⟨short, reached.names⟩, rfl⟩

/-- The pass has stopped: with an error or with nothing left to do. -/
def Stopped : Except ResolveError Worklist → Prop
  | .error _ => True
  | .ok list => list.queue = []

/-- The install paths of all dependencies that are processed stay short. -/
def Shallow (setting : Setting) (start : Worklist) : Prop :=
  ∃ depth, ∀ count list, levels setting count start = .ok list →
    ∀ key ∈ list.processed, (key.1.getD []).length ≤ depth

/-- With nothing queued there are no more levels. -/
theorem levels_of_empty (empty : list.queue = []) (count : Nat) :
    levels setting count list = .ok list := by
  cases count with
  | zero => rfl
  | succ count => rw [levels, if_pos empty]

/-- A pass that has stopped stays as it is. -/
theorem levels_of_stopped {count more : Nat} (stopped : Stopped (levels setting count list))
    (atLeast : count ≤ more) : levels setting more list = levels setting count list := by
  induction count generalizing more list with
  | zero => exact levels_of_empty stopped more
  | succ count ih =>
    obtain ⟨more, rfl⟩ : ∃ less, more = less + 1 := ⟨more - 1, by omega⟩
    rw [levels] at stopped
    rw [levels, levels]
    split_ifs at stopped ⊢ with empty
    · rfl
    · cases runs : Pkg.level setting list with
      | error error => rfl
      | ok after =>
        rw [runs] at stopped
        exact ih stopped (Nat.le_of_succ_le_succ atLeast)

/-- Every level leaves the list sound. -/
theorem Sound.levels {count : Nat} (sound : Sound setting manifest list)
    (runs : levels setting count list = .ok after) : Sound setting manifest after := by
  induction count generalizing list with
  | zero =>
    cases runs
    exact sound
  | succ count ih =>
    rw [Pkg.levels] at runs
    split_ifs at runs
    · cases runs
      exact sound
    · cases first : Pkg.level setting list with
      | error error =>
        rw [first] at runs
        cases runs
      | ok next =>
        rw [first] at runs
        exact ih (sound.level first).1 runs

/-- If the processed keys cannot be more than some number, so cannot the levels. -/
theorem Sound.stops (sound : Sound setting manifest list) (missing : Nat)
    (bounded : ∀ count after, Pkg.levels setting count list = .ok after →
      after.processed.length ≤ bound)
    (few : bound < list.processed.length + missing) :
    Stopped (Pkg.levels setting missing list) := by
  induction missing generalizing list with
  | zero => exact absurd (bounded 0 list rfl) (by omega)
  | succ missing ih =>
    rw [Pkg.levels]
    split_ifs with empty
    · exact empty
    · cases runs : Pkg.level setting list with
      | error error => trivial
      | ok after =>
        obtain ⟨afterSound, done | grows⟩ := sound.level runs
        · change Stopped (Pkg.levels setting missing after)
          rw [levels_of_empty done]
          exact done
        · refine ih afterSound (fun count final more => bounded (count + 1) final ?_) (by omega)
          rw [Pkg.levels, if_neg empty, runs]
          exact more

/-- A pass that stops has processed finitely many keys. -/
theorem shallow_of_stopped {count : Nat} (stopped : Stopped (levels setting count list)) :
    Shallow setting list := by
  have finite (count : Nat) :
      {key | ∃ after, levels setting count list = .ok after ∧ key ∈ after.processed}.Finite := by
    cases runs : levels setting count list with
    | error error => simp
    | ok after => simp
  have all := (Set.finite_le_nat count).biUnion fun count _ => finite count
  obtain ⟨depth, isBound⟩ := (all.image fun key => (key.1.getD []).length).bddAbove
  refine ⟨depth, fun more after runs key isIn => isBound ⟨key, ?_, rfl⟩⟩
  rcases Nat.le_total more count with early | late
  · exact Set.mem_biUnion early ⟨after, runs, isIn⟩
  · rw [levels_of_stopped stopped late] at runs
    exact Set.mem_biUnion (Nat.le_refl count) ⟨after, runs, isIn⟩

/-- There are only finitely many short install paths, so that a shallow pass stops. -/
theorem Sound.stops_of_shallow (sound : Sound setting manifest list)
    (shallow : Shallow setting list) : ∃ count, Stopped (Pkg.levels setting count list) := by
  obtain ⟨depth, short⟩ := shallow
  have finite := @finite_origins setting manifest depth
  refine ⟨finite.toFinset.card + 1, sound.stops (finite.toFinset.card + 1) ?_
    (Nat.lt_of_lt_of_le (Nat.lt_succ_self _) (Nat.le_add_left _ _))⟩
  intro count after runs
  have afterSound := sound.levels runs
  rw [← toFinset_card_of_nodup afterSound.distinct]
  refine Finset.card_le_card fun key isIn => ?_
  rw [mem_toFinset] at isIn
  exact finite.mem_toFinset.mpr ⟨afterSound.processed key isIn, short count after runs key isIn⟩

/-- Without a cycle of nestings the install paths stay short. -/
theorem Sound.shallow_of_acyclic (sound : Sound setting manifest list)
    (acyclic : ∀ build, ¬ Relation.TransGen (Nests setting manifest) build build) :
    Shallow setting list := by
  refine ⟨setting.builds.length, fun count after runs key isIn => ?_⟩
  have origin := (sound.levels runs).processed key isIn
  obtain ⟨parent, entry⟩ := key
  cases parent with
  | none => exact Nat.zero_le _
  | some path =>
    obtain ⟨build, reached, -⟩ := origin
    exact reached.length_le acyclic

/-- The list starts sound. -/
theorem sound_start (cached : List Bytes) : Sound setting manifest (manifest.start cached) := by
  refine ⟨fun _ _ => nofun, fun _ => nofun, nodup_nil, ?_⟩
  intro item isIn
  rw [Manifest.start, mem_append, mem_map, mem_map] at isIn
  rcases isIn with ⟨entry, isEntry, rfl⟩ | ⟨entry, isEntry, rfl⟩
  · exact mem_append_left _ isEntry
  · exact mem_append_right _ isEntry

end Levels

section Spiral

/-- A name that is written down. -/
def nameA : Name := ⟨ascii "a", by decide⟩

def nameB : Name := ⟨ascii "b", by decide⟩

def nameC : Name := ⟨ascii "c", by decide⟩

/-- A version without further data. -/
def plainVersion (major : Nat) (dependencies : List Entry) : VersionInfo :=
  ⟨⟨major, 0, 0, none, none⟩, [], dependencies, [], [], [], none, none, none⟩

/-- A package without tags. -/
def plainPackage (name : Name) (versions : List VersionInfo) : Bytes × PackageMetadata :=
  (name.text, ⟨versions, none, []⟩)

/-- The second version of `a` needs the second of `b`, and the other way round. -/
def spiralRegistry : List (Bytes × PackageMetadata) :=
  [plainPackage nameA [plainVersion 1 [], plainVersion 2 [(nameB, ascii "2.0.0")]],
   plainPackage nameB [plainVersion 1 [], plainVersion 2 [(nameA, ascii "2.0.0")]],
   plainPackage nameC [plainVersion 1 [(nameA, ascii "2.0.0")]]]

/-- The versions that the first pass finds. -/
def spiralOptimal (name : Name) : Option VersionInfo :=
  if name = nameC then some (plainVersion 1 [(nameA, ascii "2.0.0")])
  else if name = nameA ∨ name = nameB then some (plainVersion 1 [])
  else none

def spiralSetting : Setting where
  platform := ⟨ascii "linux", ascii "x64", some (ascii "glibc")⟩
  registry := spiralRegistry
  hosted := []
  optimal := spiralOptimal
  optimalKnown name info known := by
    unfold spiralOptimal at known
    split_ifs at known
    · cases known
      exact ⟨plainPackage nameC _, mem_cons_of_mem _ (mem_cons_of_mem _ mem_cons_self),
        mem_cons_self⟩
    · cases known
      exact ⟨plainPackage nameA _, mem_cons_self, mem_cons_self⟩

/-- The root needs the first versions, and a package that needs the second of `a`. -/
def spiralManifest : Manifest :=
  ⟨[(nameA, ascii "1.0.0"), (nameB, ascii "1.0.0"), (nameC, ascii "1.0.0")], [], []⟩

/-- The other package of the cycle. -/
def turn (name : Name) : Name :=
  if name = nameA then nameB else nameA

/-- The constraint `2.0.0`. -/
def exactlyTwo : Constraint :=
  { kind := .exact, version := ⟨2, 0, 0, none, none⟩ }

/-- What the resolver reads about a package of the cycle. -/
structure Turns (name : Name) : Prop where
  notTarball : isTarballUrl (dependencySpec (name, ascii "2.0.0")).constraint = false
  parsed : Constraint.parse (dependencySpec (name, ascii "2.0.0")).constraint = some exactlyTwo
  selected : ∃ metadata,
    spiralSetting.registry.lookup (dependencySpec (name, ascii "2.0.0")).packageName =
      some metadata ∧
    selectBestVersion spiralSetting.platform metadata exactlyTwo =
      some (plainVersion 2 [(turn name, ascii "2.0.0")])

/-- The list holds one dependency of the cycle, of a package deeper than everything
processed before, and the root has the first versions. -/
structure Spirals (path : Path) (name : Name) (list : Worklist) : Prop where
  below : path ≠ []
  inCycle : name = nameA ∨ name = nameB
  queue : ∃ depth, list.queue = [⟨(name, ascii "2.0.0"), depth, false, false, some path⟩]
  roots : ∀ root, root = nameA ∨ root = nameB →
    ∃ pkg, list.resolver.resolved [root] = some pkg ∧ pkg.version = ⟨1, 0, 0, none, none⟩
  shallow : ∀ other, path.length < other.length → list.resolver.resolved other = none
  earlier : ∀ other entry, (some other, entry) ∈ list.processed → other.length < path.length

variable {path : Path} {name : Name} {list : Worklist}

/-- The cycle stays in its two packages. -/
theorem turn_inCycle : turn name = nameA ∨ turn name = nameB := by
  unfold turn
  split_ifs
  · exact inr rfl
  · exact inl rfl

/-- A level of one item. -/
theorem level_of_single {setting : Setting} {item : WorkItem} (queueEq : list.queue = [item]) :
    ∃ start : Worklist, start.resolver.resolved = list.resolver.resolved ∧
      start.processed = list.processed ∧ start.queue = [] ∧
      level setting list = processItem setting item start := by
  refine ⟨{ list with resolver := prefetch setting list.queue list.resolver, queue := [] },
    rfl, rfl, rfl, ?_⟩
  rw [level, queueEq, processItems]
  cases processItem setting item _ <;> rfl

/-- A level goes one package deeper. -/
theorem Spirals.level (spirals : Spirals path name list) :
    ∃ after, level spiralSetting list = .ok after ∧ Spirals (path ++ [name]) (turn name) after := by
  obtain ⟨depth, queueEq⟩ := spirals.queue
  have turns : Turns name := by
    rcases spirals.inCycle with rfl | rfl <;>
      exact ⟨by decide +kernel, by decide +kernel, _, rfl, by decide +kernel⟩
  obtain ⟨metadata, found, selected⟩ := turns.selected
  obtain ⟨existing, atRoot, oldVersion⟩ := spirals.roots name spirals.inCycle
  have deeper : path.length < (path ++ [name]).length := by
    rw [length_append]
    exact Nat.lt_succ_self _
  have isNew : (some path, (name, ascii "2.0.0")) ∉ list.processed :=
    fun isIn => Nat.lt_irrefl _ (spirals.earlier _ _ isIn)
  have conflict : exactlyTwo.satisfies existing.version = false := by
    rw [oldVersion]
    decide
  have absent := spirals.shallow _ deeper
  obtain ⟨start, startResolved, startProcessed, startQueue, levelEq⟩ := level_of_single queueEq
  rw [← startProcessed] at isNew
  rw [← startResolved] at atRoot absent
  obtain ⟨pkg, resolver, step, sameResolved, pkgEq⟩ := @processItem_nests spiralSetting
    ⟨(name, ascii "2.0.0"), depth, false, false, some path⟩ start metadata _ _ rfl isNew
    turns.notTarball turns.parsed found existing path atRoot conflict rfl selected absent
  refine ⟨_, levelEq.trans step, ?_⟩
  have installed : pkg.installPath = path ++ [name] := by rw [pkgEq]; rfl
  have dependencies : pkg.dependencies = [⟨turn name, ascii "2.0.0", false, false⟩] := by
    rw [pkgEq]; rfl
  have processedLength : ∀ other entry,
      (some other, entry) ∈ (some path, (name, ascii "2.0.0")) :: start.processed →
        other.length < (path ++ [name]).length := by
    intro other entry isIn
    rw [startProcessed] at isIn
    rcases mem_cons.mp isIn with isItem | isEarlier
    · cases isItem
      exact deeper
    · exact Nat.lt_trans (spirals.earlier _ _ isEarlier) deeper
  have others {other : Path} (different : other ≠ path ++ [name]) :
      (resolver.put (path ++ [name]) pkg).resolved other = list.resolver.resolved other := by
    rw [Resolver.put_of_ne different, sameResolved, startResolved]
  refine ⟨append_ne_nil_of_right_ne_nil _ (cons_ne_nil _ _), turn_inCycle,
    ⟨depth + 1, ?_⟩, ?_, ?_, processedLength⟩
  · have notYet : ((some path, (name, ascii "2.0.0")) :: start.processed).contains
        (some (path ++ [name]), (turn name, ascii "2.0.0")) = false := by
      rw [← Bool.not_eq_true, contains_iff_mem]
      exact fun isIn => Nat.lt_irrefl _ (processedLength _ _ isIn)
    rw [Worklist.settle, startQueue, nil_append, followUps, dependencies]
    simp only [filter_cons, Dep.entry, installed, WorkItem.key, notYet, Bool.not_false, if_true,
      filter_nil, map_cons, map_nil]
  · intro root isRoot
    obtain ⟨rootPkg, isThere, version⟩ := spirals.roots root isRoot
    refine ⟨rootPkg, (others ?_).trans isThere, version⟩
    intro same
    have lengths := congrArg length same
    rw [length_singleton, length_append, length_singleton] at lengths
    exact spirals.below (eq_nil_of_length_eq_zero (by omega))
  · intro other longer
    refine (others ?_).trans (spirals.shallow other (Nat.lt_trans deeper longer))
    rintro rfl
    exact Nat.lt_irrefl _ longer

/-- The spiral goes on for any number of levels. -/
theorem Spirals.not_stopped (spirals : Spirals path name list) (count : Nat) :
    ¬ Stopped (levels spiralSetting count list) := by
  have busy {path name list} (spirals : Spirals path name list) : list.queue ≠ [] := by
    obtain ⟨depth, queueEq⟩ := spirals.queue
    rw [queueEq]
    exact cons_ne_nil _ _
  induction count generalizing path name list with
  | zero => exact busy spirals
  | succ count ih =>
    obtain ⟨after, step, next⟩ := spirals.level
    rw [levels, if_neg (busy spirals), step]
    exact ih next

/-- After the first level the spiral begins below `c`. -/
theorem spirals_start :
    ∃ after, level spiralSetting (spiralManifest.start (spiralRegistry.map Prod.fst)) = .ok after ∧
      Spirals [nameC] nameA after := by
  refine ⟨_, rfl, cons_ne_nil _ _, inl rfl, ⟨1, by decide +kernel⟩, ?_, ?_, ?_⟩
  · rintro root (rfl | rfl)
    · exact ⟨_, rfl, rfl⟩
    · exact ⟨_, rfl, rfl⟩
  · intro other longer
    have different (name : Name) : other ≠ [name] := by
      rintro rfl
      exact Nat.lt_irrefl _ longer
    exact (Function.update_of_ne (different nameC) _ _).trans
      ((Function.update_of_ne (different nameB) _ _).trans
        (Function.update_of_ne (different nameA) _ _))
  · have atRoot : ∀ key ∈ (level spiralSetting (spiralManifest.start
        (spiralRegistry.map Prod.fst))).toOption.elim [] Worklist.processed, key.1 = none := by
      decide +kernel
    intro other entry isIn
    cases atRoot _ isIn

/-- A root that needs the first version of one of the packages only. -/
def quietManifest : Manifest :=
  ⟨[(nameA, ascii "1.0.0"), (nameC, ascii "1.0.0")], [], []⟩

/-- What that root reaches: the other package of the cycle only in its second version. -/
def quietVersions : List (Name × VersionInfo) :=
  [(nameA, plainVersion 1 []), (nameA, plainVersion 2 [(nameB, ascii "2.0.0")]),
   (nameB, plainVersion 2 [(nameA, ascii "2.0.0")]),
     (nameC, plainVersion 1 [(nameA, ascii "2.0.0")])]

/-- Only the versions listed may come to stand somewhere, each under its own name. -/
theorem reached_quiet {build : Build} (reached : Reached spiralSetting quietManifest path build) :
    ∃ known ∈ quietVersions, path.getLast? = some known.1 ∧ build.1 = known.2 := by
  have fromRoot : ∀ entry ∈ quietManifest.entries, versionOfTarball spiralSetting entry = none ∧
      ∀ info ∈ versionAtRoot spiralSetting entry, (entry.1, info) ∈ quietVersions := by
    decide +kernel
  have fromVersion : ∀ known ∈ quietVersions, ∀ peers,
      ∀ entry ∈ entriesOf spiralSetting (known.2, peers),
        versionOfTarball spiralSetting entry = none ∧
        (∀ info ∈ versionAtRoot spiralSetting entry, (entry.1, info) ∈ quietVersions) ∧
        ∀ root ∈ quietVersions, ∀ info ∈ versionBelow spiralSetting entry root.2.version,
          (entry.1, info) ∈ quietVersions := by
    decide +kernel
  induction reached with
  | direct isEntry takes =>
    obtain ⟨noTarball, known⟩ := fromRoot _ isEntry
    rw [noTarball] at takes
    exact ⟨_, known _ (takes.resolve_left nofun), rfl, rfl⟩
  | @hoisted _ above _ _ _ isEntry takes ih =>
    obtain ⟨known, isKnown, -, same⟩ := ih
    rw [← Prod.eta above, same] at isEntry
    exact ⟨_, (fromVersion known isKnown _ _ isEntry).2.1 _ takes, rfl, rfl⟩
  | @tarball _ above _ _ _ isEntry takes ih =>
    obtain ⟨known, isKnown, -, same⟩ := ih
    rw [← Prod.eta above, same] at isEntry
    rw [(fromVersion known isKnown _ _ isEntry).1] at takes
    cases takes
  | @nested _ above _ _ _ _ isEntry _ takes ih atRoot =>
    obtain ⟨known, isKnown, -, same⟩ := ih
    obtain ⟨root, isRoot, -, sameRoot⟩ := atRoot
    rw [← Prod.eta above, same] at isEntry
    rw [sameRoot] at takes
    exact ⟨_, (fromVersion known isKnown _ _ isEntry).2.2 root isRoot _ takes,
      getLast?_concat, rfl⟩

/-- Only the second version of `a` is nested, and nothing below it. -/
theorem nests_quiet {above below : Build} (nests : Nests spiralSetting quietManifest above below) :
    above.1 ≠ plainVersion 2 [(nameB, ascii "2.0.0")] ∧
      below.1 = plainVersion 2 [(nameB, ascii "2.0.0")] := by
  have onlyA : ∀ known ∈ quietVersions, ∀ peers,
      ∀ entry ∈ entriesOf spiralSetting (known.2, peers),
        versionOfTarball spiralSetting entry = none ∧
        ∀ root ∈ quietVersions, root.1 = entry.1 →
          ∀ info ∈ versionBelow spiralSetting entry root.2.version,
            known.2 ≠ plainVersion 2 [(nameB, ascii "2.0.0")] ∧
              info = plainVersion 2 [(nameB, ascii "2.0.0")] := by
    decide +kernel
  obtain ⟨⟨path, reached⟩, entry, isEntry, takes⟩ := nests
  obtain ⟨known, isKnown, -, same⟩ := reached_quiet reached
  rw [← Prod.eta above, same] at isEntry
  obtain ⟨noTarball, ofRoot⟩ := onlyA known isKnown _ _ isEntry
  rw [noTarball] at takes
  obtain ⟨root, atRoot, takes, -⟩ := takes.resolve_left fun tarball => nomatch tarball.1
  obtain ⟨knownRoot, isRoot, sameName, sameRoot⟩ := reached_quiet atRoot
  rw [sameRoot] at takes
  rw [same]
  exact ofRoot knownRoot isRoot (Option.some.inj sameName).symm _ takes

end Spiral

end AntRuntime.Pkg
