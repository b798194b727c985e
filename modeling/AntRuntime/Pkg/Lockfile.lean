import AntRuntime.Pkg.Resolver
import Mathlib.Data.List.Sort

/-!
# Dependency records of the lockfile

The packages are numbered in the order of their install paths. The record of a dependency
has the number of the package at the root, and only without one that of the package nested
under the dependent one, while Node looks at the root last.
-/

namespace AntRuntime.Pkg

open List
open Tar (Bytes)

section Model

/-- `orderForLockfile`. -/
def orderForLockfile (a b : ResolvedPackage) : Bool :=
  match List.compareLex compare (Path.text (a.parentPath.getD []))
    (Path.text (b.parentPath.getD [])) with
  | .eq => List.compareLex compare a.name.text b.name.text == .lt
  | parentOrder => parentOrder == .lt

/-- `packages_ordered`. -/
def packagesOrdered (resolved : List ResolvedPackage) : List ResolvedPackage :=
  resolved.insertionSort fun a b => orderForLockfile b a = false

/-- `pkg_indices`: of packages with one install path the last stays. -/
def pkgIndices (ordered : List ResolvedPackage) (path : Path) : Option Nat :=
  (ordered.zipIdx.reverse.find? fun entry => entry.1.installPath == path).map Prod.snd

/-- `lockfile.Dependency`. -/
structure Dependency where
  packageIndex : Nat
  constraint : Bytes
  peer : Bool
  optional : Bool
deriving DecidableEq

/-- The record that `writeLockfile` adds for a dependency. -/
def writeDependency (ordered : List ResolvedPackage) (pkg : ResolvedPackage) (dep : Dep) :
    Option Dependency :=
  ((pkgIndices ordered [dep.name]).or (pkgIndices ordered (pkg.installPath ++ [dep.name]))).map
    fun foundIdx => ⟨foundIdx, dep.constraint, dep.peer, dep.optional⟩

end Model

section Lookup

variable {resolved ordered : List ResolvedPackage} {path : Path} {name : Name}

/-- A package is installed at the path. -/
def Installed (resolved : List ResolvedPackage) (path : Path) : Prop :=
  ∃ pkg ∈ resolved, pkg.installPath = path

instance : Decidable (Installed resolved path) :=
  inferInstanceAs (Decidable (∃ pkg ∈ resolved, pkg.installPath = path))

/-- Node's lookup of a name from a package, whose path is given from its end: under the
package itself, under those around it, and at the root. -/
def nodeLookup (resolved : List ResolvedPackage) (name : Name) : List Name → Option Path
  | [] => if Installed resolved [name] then some [name] else none
  | last :: around =>
    if Installed resolved ((last :: around).reverse ++ [name]) then
      some ((last :: around).reverse ++ [name])
    else nodeLookup resolved name around

/-- Each record has the number of the package that Node finds. -/
def RecordsFollowNode (resolved : List ResolvedPackage) : Prop :=
  ∀ pkg ∈ packagesOrdered resolved, ∀ dep ∈ pkg.dependencies,
    ∀ entry ∈ writeDependency (packagesOrdered resolved) pkg dep,
      (packagesOrdered resolved)[entry.packageIndex]?.map ResolvedPackage.installPath =
        nodeLookup resolved dep.name pkg.installPath.reverse

theorem mem_packagesOrdered {pkg : ResolvedPackage} :
    pkg ∈ packagesOrdered resolved ↔ pkg ∈ resolved :=
  mem_insertionSort _

theorem installed_packagesOrdered :
    Installed (packagesOrdered resolved) path ↔ Installed resolved path := by
  simp only [Installed, mem_packagesOrdered]

theorem pkgIndices_of_installed (isInstalled : Installed ordered path) :
    ∃ index, pkgIndices ordered path = some index ∧
      ordered[index]?.map ResolvedPackage.installPath = some path := by
  obtain ⟨pkg, isIn, rfl⟩ := isInstalled
  obtain ⟨place, isPlace⟩ := mem_iff_getElem?.mp isIn
  have found : (ordered.zipIdx.reverse.find? fun entry =>
      entry.1.installPath == pkg.installPath).isSome := by
    rw [find?_isSome]
    exact ⟨(pkg, place), mem_reverse.mpr (mem_zipIdx_iff_getElem?.mpr isPlace), by simp⟩
  obtain ⟨entry, isFound⟩ := Option.isSome_iff_exists.mp found
  refine ⟨entry.2, by rw [pkgIndices, isFound]; rfl, ?_⟩
  have isEntry := mem_reverse.mp (mem_of_find?_eq_some isFound)
  have samePath := find?_some isFound
  rw [mem_zipIdx_iff_getElem?.mp isEntry, Option.map_some, eq_of_beq samePath]

theorem pkgIndices_of_not_installed (missing : ¬ Installed ordered path) :
    pkgIndices ordered path = none := by
  rw [pkgIndices, Option.map_eq_none_iff, find?_eq_none]
  intro entry isEntry isPath
  refine missing ⟨entry.1, ?_, eq_of_beq isPath⟩
  exact fst_mem_of_mem_zipIdx (mem_reverse.mp isEntry)

theorem nodeLookup_of_nested (nested : Installed resolved (path ++ [name])) :
    nodeLookup resolved name path.reverse = some (path ++ [name]) := by
  obtain ⟨dirs, rfl⟩ := reverse_surjective path
  rw [reverse_reverse]
  cases dirs with
  | nil => exact if_pos nested
  | cons last around => exact if_pos nested

/-- Node takes the package at the root if the name is nowhere on the way. -/
theorem nodeLookup_eq_root_iff (atRoot : Installed resolved [name]) (path : Path) :
    nodeLookup resolved name path.reverse = some [name] ↔
      ∀ dir, dir ≠ [] → dir <+: path → ¬ Installed resolved (dir ++ [name]) := by
  induction path using reverseRecOn with
  | nil => simp +contextual [nodeLookup, atRoot]
  | append_singleton path last ih =>
    rw [reverse_append, reverse_singleton, singleton_append, nodeLookup,
      reverse_cons, reverse_reverse]
    by_cases isInstalled : Installed resolved (path ++ [last] ++ [name])
    · rw [if_pos isInstalled]
      refine iff_of_false (fun same => ?_) fun nowhere => ?_
      · simpa using congrArg length (Option.some.inj same)
      · exact nowhere (path ++ [last]) (by simp) prefix_rfl isInstalled
    · rw [if_neg isInstalled, ih]
      constructor
      · intro nowhere dir isDir isPath
        rcases prefix_concat_iff.mp isPath with rfl | isPath
        · exact isInstalled
        · exact nowhere dir isDir isPath
      · intro nowhere dir isDir isPath
        exact nowhere dir isDir (isPath.trans (prefix_append path [last]))

end Lookup

/-- The records follow Node's lookup if a package that is at the root and a dependency of
another one is nowhere else on the way from there. -/
theorem recordsFollowNode_iff (resolved : List ResolvedPackage) :
    RecordsFollowNode resolved ↔
      ∀ pkg ∈ resolved, ∀ dep ∈ pkg.dependencies, Installed resolved [dep.name] →
        ∀ dir, dir ≠ [] → dir <+: pkg.installPath → ¬ Installed resolved (dir ++ [dep.name]) := by
  unfold RecordsFollowNode
  simp only [mem_packagesOrdered]
  refine forall₄_congr fun pkg isIn dep isDep => ?_
  unfold writeDependency
  by_cases atRoot : Installed resolved [dep.name]
  · obtain ⟨index, isIndex, isRoot⟩ :=
      pkgIndices_of_installed (installed_packagesOrdered.mpr atRoot)
    rw [isIndex, ← nodeLookup_eq_root_iff atRoot]
    simp [isRoot, atRoot, eq_comm]
  · rw [pkgIndices_of_not_installed (installed_packagesOrdered.not.mpr atRoot)]
    refine iff_of_true (fun entry isEntry => ?_) fun isRoot => absurd isRoot atRoot
    by_cases nested : Installed resolved (pkg.installPath ++ [dep.name])
    · obtain ⟨index, isIndex, isNested⟩ :=
        pkgIndices_of_installed (installed_packagesOrdered.mpr nested)
      rw [isIndex] at isEntry
      obtain rfl := Option.some.inj isEntry
      rw [isNested, nodeLookup_of_nested nested]
    · rw [pkgIndices_of_not_installed (installed_packagesOrdered.not.mpr nested)] at isEntry
      cases isEntry

/-- The name `a`. -/
def sharedName : Name := ⟨[97], by decide⟩

/-- The name `p`. -/
def dependentName : Name := ⟨[112], by decide⟩

/-- A package with a version of its own of the dependency that is at the root too. -/
def twoCopies : List ResolvedPackage :=
  [⟨sharedName, ⟨1, 0, 0, none, none⟩, [], [], 0, true, none, []⟩,
    ⟨dependentName, zeroVersion, [], [⟨sharedName, [50], false, false⟩], 0, true, none, []⟩,
    ⟨sharedName, ⟨2, 0, 0, none, none⟩, [], [], 1, false, some [dependentName], []⟩]

/-- The record of a package that has its own copy of a dependency points to the root. -/
theorem not_recordsFollowNode_twoCopies : ¬ RecordsFollowNode twoCopies := by
  intro follow
  have atRoot := follow twoCopies[1] (by decide +kernel) ⟨sharedName, [50], false, false⟩
    (by decide) ⟨0, [50], false, false⟩ (by decide +kernel)
  revert atRoot
  decide +kernel

end AntRuntime.Pkg
