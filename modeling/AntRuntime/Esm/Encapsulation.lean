import AntRuntime.Esm.PackageMap
import AntRuntime.Files.Tree
import Mathlib.Data.List.DropRight

/-!
# Encapsulation of packages

The text that a `*` of a key stands for is pasted into the target, and the path that results is
looked up from the directory of the package. As long as the pasted part does not climb out of the
directory into which it is pasted, the file is in the package and below the fixed part of the
target.
-/

namespace AntRuntime.Esm

open List Files Option

section Model

/-- `module_resolve_extensions`. -/
def moduleResolveExtensions : List Text :=
  [".js", ".mjs", ".cjs", ".ts", ".mts", ".cts", ".json", ".node"].map String.toList

def segmentStep : Text → Step Text
  | [] | ['.'] => .stay
  | ['.', '.'] => .up
  | name => .down name

def pathSteps (path : Text) : List (Step Text) :=
  (path.splitOnP (· = '/')).map segmentStep

/-- Where the directory of a package is, and the length of its path. -/
structure PackageDir where
  location : Files.Location Text
  pathLength : Nat

/-- An `exports` value: a map if it is an object with a key that starts with a period. -/
inductive Exports where
  | map (map : PackageMap)
  | target (target : Target)

variable {μ δ : Type} (tree : Tree Text μ δ) (limit : Nat) (package : PackageDir)

/-- `esm_try_resolve`: the regular file at a path, links followed. -/
def tryResolve (spec suffix : Text) : Option (Files.Location Text) :=
  (walk tree true limit package.location
    (pathSteps ((spec ++ suffix).take (pathMax - 2 - package.pathLength)))).bind fun location =>
      match tree location with
      | some (.file _ _) => some location
      | _ => none

/-- `esm_has_extension`. -/
def hasExtension (spec : Text) : Bool :=
  let name := spec.rtakeWhile (· ≠ '/')
  name.contains '.' && moduleResolveExtensions.contains ('.' :: name.rtakeWhile (· ≠ '.'))

/-- `esm_try_resolve_with_exts`. -/
def tryResolveWithExts (spec : Text) (hasExt : Bool) : Option (Files.Location Text) :=
  (tryResolve tree limit package spec []).or (if hasExt then none
      else moduleResolveExtensions.findSome? (tryResolve tree limit package spec))

/-- `esm_try_resolve_index_with_exts`. -/
def tryResolveIndexWithExts (spec : Text) : Option (Files.Location Text) :=
  tryResolveWithExts tree limit package ((spec ++ "/index".toList).take (pathMax - 1)) false

/-- What is found at a location; targets in other packages are not allowed in `exports`. -/
def packageFile : Location → Option (Files.Location Text)
  | .inPackage mapped =>
    (tryResolveWithExts tree limit package mapped (hasExtension mapped)).or
      (tryResolveIndexWithExts tree limit package mapped)
  | .nodeModule _ => none

/-- `subpath_key`. -/
def subpathKey : Option Text → Text
  | none => ['.']
  | some subpath => ('.' :: '/' :: subpath).take (pathMax - 1)

variable {π : Type} (json : ObjGet) (found : Option Text → Text → Option π)
  (conditions : Conditions)

/-- `esm_resolve_package_entrypoint`, for a package with `exports`. -/
def resolvePackageEntrypoint (subpath : Option Text) : Exports → Option π
  | .map map => resolvePackageMap json found conditions map (subpathKey subpath)
  | .target target =>
    if subpath = none then resolveExportsTarget json (found none) conditions target else none

/-- `esm_resolve_node_module_cond`, once the package is found. -/
def resolvePackageSpecifier (exports : Exports) (specifier : Text) : Option π :=
  (splitPackageSpecifier specifier).bind fun parts =>
    resolvePackageEntrypoint json found conditions parts.2 exports

/-- The file that a specifier reaches in a package. -/
def reachedFile (exports : Exports) (specifier : Text) : Option (Files.Location Text) :=
  resolvePackageSpecifier json (lookUp (packageFile tree limit package) false) conditions exports
    specifier

/-- A file with the target that was taken for it and the text that its `*` stands for. -/
structure Taken where
  text : Text
  capture : Text
  file : Files.Location Text
  deriving DecidableEq

/-- The same search, which keeps the target that it takes. -/
def takenTarget (exports : Exports) (specifier : Text) : Option Taken :=
  resolvePackageSpecifier json
    (fun capture text => (lookUp (packageFile tree limit package) false capture text).map
      (Taken.mk text (capture.getD []))) conditions exports specifier

end Model

section Encapsulation

variable {μ δ : Type} {tree : Tree Text μ δ} {package : PackageDir}
variable {file : Files.Location Text}

/-- The directory, the start of the name and the end around the first `*` of a target. -/
def PatternParts (text dir name rest : Text) : Prop :=
  text = dir ++ '/' :: (name ++ '*' :: rest) ∧ '*' ∉ dir ∧ '*' ∉ name ∧ '/' ∉ name

/-- A file in the directory of the package, and below the fixed directory of a pattern. -/
structure Encapsulated (package : PackageDir) (text : Text) (file : Files.Location Text) :
    Prop where
  inside : package.location <+: file
  below : ∀ dir name rest, PatternParts text dir name rest →
    package.location ++ names (pathSteps dir) <+: file

/-- What is pasted into a target does not climb out of the directory of the pattern, and the
paths that are tried fit into their buffers. -/
structure PastesInside (package : PackageDir) (text capture : Text) : Prop where
  stays : ∀ dir name rest, PatternParts text dir name rest →
    Files.staysBelow 0 (pathSteps (name ++ (capture ++ rest))) = true
  short : package.pathLength + (replaceStar text capture).length + 11 ≤ pathMax

/-- The parts of a target with a `*`. -/
theorem patternParts_iff {text dir name rest : Text} : PatternParts text dir name rest ↔
    splitStar text = some (dir ++ '/' :: name, rest) ∧ '/' ∉ name := by
  rw [splitStar_eq_some, PatternParts]
  simp [and_assoc]

theorem pathSteps_slash (first second : Text) :
    pathSteps (first ++ '/' :: second) = pathSteps first ++ pathSteps second := by
  rw [pathSteps, splitOnP_append_cons _ _ (by simp), map_append]
  rfl

theorem pathSteps_of_noSlash {name : Text} (noSlash : '/' ∉ name) :
    pathSteps name = [segmentStep name] := by
  rw [pathSteps, splitOnP_eq_singleton fun c isIn => by
    simpa using ne_of_mem_of_not_mem isIn noSlash]
  rfl

theorem exists_lastSegment (path : Text) :
    '/' ∉ path ∨ ∃ dir name, path = dir ++ '/' :: name ∧ '/' ∉ name := by
  induction path with
  | nil => exact .inl not_mem_nil
  | cons c path ih =>
    rcases ih with noSlash | ⟨dir, name, rfl, noSlash⟩
    · by_cases isSlash : c = '/'
      · exact .inr ⟨[], path, by rw [isSlash]; rfl, noSlash⟩
      · exact .inl (by simp [Ne.symm isSlash, noSlash])
    · exact .inr ⟨c :: dir, name, rfl, noSlash⟩

theorem segmentStep_of_length {name : Text} (long : 2 < name.length) :
    segmentStep name = .down name := by
  match name with
  | _ :: _ :: _ :: _ => simp [segmentStep]

/-- What is tried behind a path. -/
def tried : List Text :=
  ([] :: moduleResolveExtensions) ++ ([] :: moduleResolveExtensions).map ("/index".toList ++ ·)

/-- What is tried behind a path does not climb out either. -/
theorem staysBelow_tried
    {path suffix : Text} (stays : Files.staysBelow depth (pathSteps path) = true)
    (isTried : suffix ∈ tried) :
    Files.staysBelow depth (pathSteps (path ++ suffix)) = true := by
  have extended {path ext : Text} (stays : Files.staysBelow depth (pathSteps path) = true)
      (isExt : ext ∈ [] :: moduleResolveExtensions) :
      Files.staysBelow depth (pathSteps (path ++ ext)) = true := by
    rcases mem_cons.mp isExt with rfl | isExt
    · rwa [append_nil]
    · have shape : '/' ∉ ext ∧ 2 < ext.length := by
        revert ext
        decide
      have isName (name : Text) : segmentStep (name ++ ext) = .down (name ++ ext) :=
        segmentStep_of_length (by rw [length_append]; omega)
      rcases exists_lastSegment path with noSlash | ⟨dir, name, rfl, noSlash⟩
      · rw [pathSteps_of_noSlash (by simp [noSlash, shape.1]), isName]
        rfl
      · rw [pathSteps_slash] at stays
        rw [append_assoc, cons_append, pathSteps_slash,
          @pathSteps_of_noSlash (name ++ ext) (by simp [noSlash, shape.1]), isName]
        exact staysBelow_concat_down stays
  rcases mem_append.mp isTried with isExt | isIndex
  · exact extended stays isExt
  · obtain ⟨ext, isExt, rfl⟩ := mem_map.mp isIndex
    rw [← append_assoc]
    refine extended ?_ isExt
    rw [show "/index".toList = '/' :: "index".toList from rfl, pathSteps_slash]
    rw [← append_nil (pathSteps path)] at stays
    exact staysBelow_concat_down stays

/-- What is found is at one of the paths that are tried. -/
theorem exists_tried {mapped : Text} (short : package.pathLength + mapped.length + 13 ≤ pathMax)
    (found : packageFile tree limit package (.inPackage mapped) = some file) :
    ∃ suffix ∈ tried, walk tree true limit package.location
      (pathSteps (mapped ++ suffix)) = some file := by
  have resolved {spec suffix : Text} (fits : package.pathLength + (spec ++ suffix).length + 2 ≤
    pathMax)
      (found : tryResolve tree limit package spec suffix = some file) :
      walk tree true limit package.location (pathSteps (spec ++ suffix)) = some file := by
    rw [tryResolve, take_of_length_le (by omega)] at found
    obtain ⟨location, arrives, isFile⟩ := bind_eq_some_iff.mp found
    split at isFile
    · rw [arrives, isFile]
    · cases isFile
  have extLength : ∀ ext ∈ [] :: moduleResolveExtensions, ext.length ≤ 5 := by decide
  have extended {spec : Text} {hasExt : Bool} (fits : package.pathLength + spec.length + 7 ≤
    pathMax)
      (found : tryResolveWithExts tree limit package spec hasExt = some file) :
      ∃ ext ∈ [] :: moduleResolveExtensions, walk tree true limit package.location
        (pathSteps (spec ++ ext)) = some file := by
    have one (ext : Text) (isExt : ext ∈ [] :: moduleResolveExtensions)
        (found : tryResolve tree limit package spec ext = some file) :
        ∃ ext ∈ [] :: moduleResolveExtensions, walk tree true limit package.location
          (pathSteps (spec ++ ext)) = some file :=
      ⟨ext, isExt, resolved (by have := extLength ext isExt; rw [length_append]; omega) found⟩
    rcases or_eq_some_iff.mp found with found | ⟨-, found⟩
    · exact one [] mem_cons_self found
    · split_ifs at found
      obtain ⟨ext, isExt, found⟩ := exists_of_findSome?_eq_some found
      exact one ext (mem_cons_of_mem _ isExt) found
  have index : "/index".toList.length = 6 := rfl
  rcases or_eq_some_iff.mp found with found | ⟨-, found⟩
  · obtain ⟨ext, isExt, arrives⟩ := extended (by omega) found
    exact ⟨ext, mem_append_left _ isExt, arrives⟩
  · rw [tryResolveIndexWithExts, take_of_length_le (by rw [length_append]; omega)] at found
    obtain ⟨ext, isExt, arrives⟩ := extended (by rw [length_append]; omega) found
    rw [append_assoc] at arrives
    exact ⟨_, mem_append_right _ (mem_map_of_mem isExt), arrives⟩

section

variable (noLinks : ∀ location target, package.location <+: location → tree location ≠
  some (.link target))
include noLinks

/-- A path behind a directory of the package leads below it. -/
theorem below_of_stays {dir path mapped suffix : Text} (descends : Descends (pathSteps dir))
    (stays : Files.staysBelow 0 (pathSteps path) = true)
    (split : '.' :: '/' :: mapped = dir ++ '/' :: path) (isTried : suffix ∈ tried)
    (arrives : walk tree true limit package.location (pathSteps (mapped ++ suffix)) = some file) :
    package.location ++ names (pathSteps dir) <+: file := by
  have steps : .stay :: pathSteps (mapped ++ suffix) = pathSteps dir ++ pathSteps
      (path ++ suffix) := by
    rw [← pathSteps_slash, ← cons_append, ← append_assoc, ← split]
    exact (pathSteps_slash ['.'] (mapped ++ suffix)).symm
  have pathStays : Files.staysBelow ([] : Files.Location Text).length
      (pathSteps (path ++ suffix)) = true := staysBelow_tried stays isTried
  have wholeStays : Files.staysBelow ([] : Files.Location Text).length
      (pathSteps (mapped ++ suffix)) = true := by
    change Files.staysBelow 0 (.stay :: pathSteps (mapped ++ suffix)) = true
    rw [steps, descends.staysBelow_append]
    exact staysBelow_mono (Nat.zero_le _) pathStays
  have landed := Files.walk_eq_land noLinks wholeStays (by rwa [append_nil])
  rw [landed, append_nil]
  change _ <+: land package.location (.stay :: pathSteps (mapped ++ suffix))
  rw [steps, descends.land_append]
  have below := @land_of_staysBelow Text (package.location ++ names (pathSteps dir)) [] _ pathStays
  rwa [append_nil] at below

/-- What is looked up for a target is in the package. -/
theorem encapsulated_of_found
    {text : Text} {capture : Option Text} (noUps : Descends (pathSteps text))
    (pastes : PastesInside package text (capture.getD []))
    (found : lookUp (packageFile tree limit package) false capture text = some file) :
    Encapsulated package text file := by
  obtain ⟨location, located, found⟩ := bind_eq_some_iff.mp found
  obtain ⟨path, rfl, rfl⟩ : ∃ path, text = '.' :: '/' :: path ∧
      location = .inPackage (replaceStar path (capture.getD [])) := by
    unfold locate at located
    split at located
    · cases located
    · exact ⟨_, rfl, (some.inj located).symm⟩
    · cases located
  have pasted : replaceStar ('.' :: '/' :: path) (capture.getD []) =
      '.' :: '/' :: replaceStar path (capture.getD []) := by
    cases isSplit : splitStar path <;> simp [replaceStar, splitStar, isSplit]
  have short := pastes.short
  rw [pasted] at short
  obtain ⟨suffix, isTried, arrives⟩ := exists_tried
    (by simpa only [length_cons, Nat.add_assoc] using short) found
  have below (dir name rest : Text) (parts : PatternParts ('.' :: '/' :: path) dir name rest) :
      package.location ++ names (pathSteps dir) <+: file := by
    have isSplit := (patternParts_iff.mp parts).1
    refine below_of_stays noLinks (fun isUp => noUps ?_) (pastes.stays dir name rest parts) ?_
      isTried arrives
    · rw [parts.1, pathSteps_slash]
      exact mem_append_left _ isUp
    · rw [← pasted, replaceStar, isSplit]
      simp
  refine ⟨?_, below⟩
  by_cases isPattern : ∃ dir name rest, PatternParts ('.' :: '/' :: path) dir name rest
  · obtain ⟨dir, name, rest, parts⟩ := isPattern
    exact (prefix_append _ _).trans (below dir name rest parts)
  · have noStar : splitStar path = none := by
      cases isSplit : splitStar path with
      | none => rfl
      | some sides =>
        obtain ⟨rfl, noStar⟩ := splitStar_eq_some.mp isSplit
        rcases exists_lastSegment ('.' :: '/' :: sides.1) with noSlash | ⟨dir, name, eq, noSlash⟩
        · simp at noSlash
        · have noStars : '*' ∉ dir ++ '/' :: name := by
            rw [← eq]
            simp [noStar]
          rw [mem_append, mem_cons, not_or, not_or] at noStars
          refine absurd ⟨dir, name, sides.2, ?_, noStars.1, noStars.2.2, noSlash⟩ isPattern
          rw [← cons_append, ← cons_append, eq]
          simp
    have replaced : replaceStar path (capture.getD []) = path := by rw [replaceStar, noStar]
    rw [replaced] at arrives
    have stays : Files.staysBelow 0 (pathSteps path) = true := by
      have descends : Descends (pathSteps path) := fun isUp => noUps
        (by rw [← singleton_append, pathSteps_slash]; exact mem_append_right _ isUp)
      rw [← append_nil (pathSteps path), descends.staysBelow_append]
      rfl
    have below := below_of_stays noLinks
      (by rw [pathSteps_of_noSlash (by decide)]; simp [Descends, segmentStep]) stays
        (show '.' :: '/' :: path = ['.'] ++ '/' :: path from rfl) isTried arrives
    exact (prefix_append _ _).trans below

end

section Taken

variable {π ρ : Type} {json : ObjGet} {conditions : Conditions} {exports : Exports}
  {specifier : Text}

/-- What is done to all that can be found is done to what is found. -/
theorem resolveExportsTarget_map (f : π → ρ) (found : Text → Option π) (target : Target) :
    resolveExportsTarget json (fun text => (found text).map f) conditions target =
      (resolveExportsTarget json found conditions target).map f := by
  induction target using Target.induction with
  | str text => rfl
  | arr items ih =>
    rw [resolveExportsTarget_arr, resolveExportsTarget_arr]
    induction items with
    | nil => rfl
    | cons item items rest =>
      rw [findSome?_cons, findSome?_cons, ih item mem_cons_self]
      cases resolveExportsTarget json found conditions item with
      | none => exact rest fun later isIn => ih later (mem_cons_of_mem item isIn)
      | some resolved => rfl
  | obj members ih =>
    rw [resolveExportsTarget_obj, resolveExportsTarget_obj, map_findSome?]
    congr 1
    funext name
    cases isMember : json.get members name with
    | none => simp [isMember]
    | some target => simpa [isMember] using ih name target (json.mem_of_get isMember)
  | null | other => rfl

theorem resolvePackageSpecifier_map (f : π → ρ) (found : Option Text → Text → Option π) :
    resolvePackageSpecifier json (fun capture text => (found capture text).map f) conditions exports
      specifier = (resolvePackageSpecifier json found conditions exports specifier).map f := by
  rw [resolvePackageSpecifier, resolvePackageSpecifier, map_bind]
  congr 1
  funext parts
  cases exports with
  | map map =>
    simp only [resolvePackageEntrypoint, resolvePackageMap, Function.comp_apply, map_bind]
    congr 1
    funext selected
    exact resolveExportsTarget_map f _ _
  | target target =>
    simp only [resolvePackageEntrypoint, Function.comp_apply]
    split
    · exact resolveExportsTarget_map f _ _
    · rfl

/-- The target that is kept is that of the file that is reached. -/
theorem reachedFile_eq : reachedFile tree limit package json conditions exports specifier =
    (takenTarget tree limit package json conditions exports specifier).map Taken.file := by
  rw [takenTarget, ← resolvePackageSpecifier_map, reachedFile]
  congr 1
  funext capture text
  rw [Option.map_map]
  exact (congrFun Option.map_id _).symm

/-- What is found was found for a string. -/
theorem exists_of_resolvePackageSpecifier {found : Option Text → Text → Option π} {resolved : π}
    (isResolved : resolvePackageSpecifier json found conditions exports specifier =
      some resolved) : ∃ capture text, found capture text = some resolved := by
  obtain ⟨⟨name, subpath⟩, -, resolved⟩ := bind_eq_some_iff.mp isResolved
  cases exports with
  | map map =>
    obtain ⟨selected, -, resolved⟩ := bind_eq_some_iff.mp resolved
    obtain ⟨text, -, isFound⟩ := leads_of_resolveExportsTarget resolved
    exact ⟨selected.2, text, isFound⟩
  | target target =>
    rw [resolvePackageEntrypoint] at resolved
    split_ifs at resolved
    obtain ⟨text, -, isFound⟩ := leads_of_resolveExportsTarget resolved
    exact ⟨none, text, isFound⟩

end Taken

/-- A package with a public directory and a file beside it. -/
def sampleExports : Exports :=
  .map ⟨[⟨"./*".toList, .arr [.str "./lib/*".toList, .str "./main.js".toList]⟩], nodup_singleton _⟩

def samplePackage : PackageDir := ⟨["app".toList], 4⟩

/-- A file in the public directory, one beside it and one outside of the package. -/
def sampleTree : Tree Text Unit Unit
  | [] => some (.dir ())
  | [name] => if name = "app".toList then some (.dir ())
      else if name = "secret.js".toList then some (.file () ()) else none
  | [_, name] => if name = "lib".toList then some (.dir ())
      else if name = "secret.js".toList ∨ name = "main.js".toList then some (.file () ()) else none
  | [_, _, name] => if name = "a.js".toList then some (.file () ()) else none
  | _ => none

theorem sampleTree_noLinks (location : Files.Location Text) (target : Files.Path Text) :
    sampleTree location ≠ some (.link target) := by
  unfold sampleTree
  split <;> try split_ifs
  all_goals simp

end Encapsulation

end AntRuntime.Esm
