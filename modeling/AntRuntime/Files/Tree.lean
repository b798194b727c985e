import Mathlib.Data.List.Basic
import Mathlib.Data.List.Infix
import Mathlib.Logic.Function.Basic

/-!
# Trees of files with symbolic links

A tree gives the node at each location, a location being the names on the way from the
root. Paths are walked from a directory as the system calls do it: links on the way are
followed, `..` leads to the parent, and a target may be rooted. Paths and links that
only lead inward stay below the directory from which they start.
-/

namespace AntRuntime.Files

open List Function

section Definitions

variable (ν μ δ : Type)

/-- A step of a path. -/
inductive Step where
  | stay
  | up
  | down (name : ν)
deriving DecidableEq, Repr

/-- A path from the root or from a directory. -/
structure Path where
  rooted : Bool
  steps : List (Step ν)
deriving DecidableEq, Repr

/-- What is at a location. -/
inductive Node where
  | dir (mode : μ)
  | file (mode : μ) (content : δ)
  | link (target : Path ν)
deriving DecidableEq, Repr

/-- The names from the root. -/
abbrev Location := List ν

/-- The node at each location. -/
abbrev Tree := Location ν → Option (Node ν μ δ)

/-- Where a walk gets to without following a link. -/
inductive Scan where
  | arrived (location : Location ν)
  | linked (dir : Location ν) (target : Path ν) (rest : List (Step ν))
  | stuck

end Definitions

section Walking

variable {ν μ δ : Type}

/-- Walk from a directory up to the first link. The last name need not exist, and a
link there is followed only on demand. -/
def scan (tree : Tree ν μ δ) (follow : Bool) : Location ν → List (Step ν) → Scan ν
  | here, [] => .arrived here
  | here, .stay :: rest => scan tree follow here rest
  | here, .up :: rest => scan tree follow here.dropLast rest
  | here, .down name :: rest =>
    match tree (here ++ [name]) with
    | some (.link target) =>
      if rest = [] ∧ follow = false then .arrived (here ++ [name])
      else .linked here target rest
    | some (.dir _) => scan tree follow (here ++ [name]) rest
    | _ => if rest = [] then .arrived (here ++ [name]) else .stuck

/-- Walk from a directory with a limit to the number of links. -/
def walk (tree : Tree ν μ δ) (follow : Bool) :
    Nat → Location ν → List (Step ν) → Option (Location ν)
  | limit, here, steps =>
    match scan tree follow here steps with
    | .arrived location => some location
    | .stuck => none
    | .linked dir target rest =>
      match limit with
      | 0 => none
      | limit + 1 =>
        walk tree follow limit (if target.rooted then [] else dir) (target.steps ++ rest)

/-- Make every directory on a path that is not there, as `mkdir` with parents does. -/
def makeDirs [DecidableEq ν] (limit : Nat) (mode : μ) (here : Location ν) :
    Tree ν μ δ → List (Step ν) → List (Step ν) → Option (Tree ν μ δ)
  | tree, _, [] => some tree
  | tree, done, step :: todo =>
    match walk tree false limit here (done ++ [step]) with
    | none => none
    | some location =>
      match tree location with
      | none =>
        makeDirs limit mode here (update tree location (some (.dir mode)))
          (done ++ [step]) todo
      | some _ =>
        match (walk tree true limit here (done ++ [step])).bind tree with
        | some (.dir _) => makeDirs limit mode here tree (done ++ [step]) todo
        | _ => none

end Walking

section Inward

variable {ν μ δ : Type}

/-- No step leads to a parent. -/
def Descends (steps : List (Step ν)) : Prop :=
  .up ∉ steps

/-- A path that leads inward from where it starts. -/
def Path.Inward (path : Path ν) : Prop :=
  path.rooted = false ∧ Descends path.steps

/-- Every link at or below a location leads inward. -/
def LinksInward (tree : Tree ν μ δ) (base : Location ν) : Prop :=
  ∀ location target, base <+: location → tree location = some (.link target) → target.Inward

/-- The trees differ at most at or below a location. -/
def SameOutside (base : Location ν) (before after : Tree ν μ δ) : Prop :=
  ∀ location, ¬ base <+: location → after location = before location

variable {tree : Tree ν μ δ} {base here location : Location ν} {steps : List (Step ν)}

theorem Descends.append {others : List (Step ν)} (first : Descends steps)
    (second : Descends others) : Descends (steps ++ others) := by
  rw [Descends, mem_append, not_or]
  exact ⟨first, second⟩

theorem Descends.tail {step : Step ν} (descends : Descends (step :: steps)) : Descends steps :=
  fun isIn => descends (mem_cons_of_mem _ isIn)

/-- Where a descending walk gets to before the first link. -/
theorem scan_inward (follow : Bool) (inward : LinksInward tree base) (below : base <+: here)
    (descends : Descends steps) :
    (∀ location, scan tree follow here steps = .arrived location → base <+: location) ∧
      ∀ dir target rest, scan tree follow here steps = .linked dir target rest →
        base <+: dir ∧ target.Inward ∧ Descends rest := by
  induction steps generalizing here with
  | nil =>
    constructor
    · rintro location ⟨rfl⟩
      exact below
    · rintro dir target rest ⟨⟩
  | cons step rest ih =>
    cases step with
    | stay => exact ih below descends.tail
    | up => exact absurd mem_cons_self descends
    | down name =>
      have childBelow : base <+: here ++ [name] := below.trans (prefix_append here [name])
      rw [scan]
      split
      · rename_i target isLink
        split_ifs
        · constructor
          · rintro location ⟨rfl⟩
            exact childBelow
          · rintro dir target rest ⟨⟩
        · constructor
          · rintro location ⟨⟩
          · rintro dir target rest ⟨rfl, rfl, rfl⟩
            exact ⟨below, inward _ _ childBelow isLink, descends.tail⟩
      · exact ih childBelow descends.tail
      · split_ifs
        · constructor
          · rintro location ⟨rfl⟩
            exact childBelow
          · rintro dir target rest ⟨⟩
        · constructor
          · rintro location ⟨⟩
          · rintro dir target rest ⟨⟩

/-- A descending walk stays below the base. -/
theorem walk_inward (inward : LinksInward tree base) (below : base <+: here)
    (descends : Descends steps)
    (arrives : walk tree follow limit here steps = some location) : base <+: location := by
  fun_induction walk tree follow limit here steps with
  | case1 _ here steps there scanEq =>
    obtain rfl := Option.some.inj arrives
    exact (scan_inward follow inward below descends).1 _ scanEq
  | case2 | case3 => cases arrives
  | case4 here steps dir target rest scanEq limit ih =>
    obtain ⟨dirBelow, targetInward, restDescends⟩ :=
      (scan_inward follow inward below descends).2 dir target rest scanEq
    simp only [targetInward.1] at ih arrives
    exact ih dirBelow (targetInward.2.append restDescends) arrives

theorem SameOutside.refl (base : Location ν) (tree : Tree ν μ δ) : SameOutside base tree tree :=
  fun _ _ => rfl

theorem SameOutside.trans
    {first second third : Tree ν μ δ} (firstSame : SameOutside base first second)
    (secondSame : SameOutside base second third) : SameOutside base first third :=
  fun location outside => (secondSame location outside).trans (firstSame location outside)

variable [DecidableEq ν]

/-- A change at a location below the base. -/
theorem sameOutside_update
    (tree : Tree ν μ δ) (node : Option (Node ν μ δ)) (below : base <+: location) :
    SameOutside base tree (update tree location node) := by
  intro other outside
  apply update_of_ne
  rintro rfl
  exact outside below

/-- Links lead inward after a change that adds no other link. -/
theorem LinksInward.update
    (inward : LinksInward tree base) (location : Location ν) (node : Option (Node ν μ δ))
    (nodeInward : ∀ target, node = some (.link target) → target.Inward) :
    LinksInward (update tree location node) base := by
  intro other target below isLink
  by_cases same : other = location
  · subst same
    rw [update_self] at isLink
    exact nodeInward target isLink
  · rw [update_of_ne same] at isLink
    exact inward other target below isLink

/-- Making the directories of a descending path. -/
theorem makeDirs_inward
    {mode : μ} {after : Tree ν μ δ} {done todo : List (Step ν)} (inward : LinksInward tree base)
    (doneDescends : Descends done) (todoDescends : Descends todo)
    (made : makeDirs limit mode base tree done todo = some after) :
    SameOutside base tree after ∧ LinksInward after base := by
  induction todo generalizing tree done with
  | nil =>
    obtain rfl := Option.some.inj made
    exact ⟨SameOutside.refl base tree, inward⟩
  | cons step todo ih =>
    have stepDescends : Descends (done ++ [step]) := by
      refine doneDescends.append fun isUp => todoDescends ?_
      rw [← mem_singleton.mp isUp]
      exact mem_cons_self
    rw [makeDirs] at made
    split at made
    · cases made
    · rename_i there arrives
      split at made
      · have below := walk_inward inward prefix_rfl stepDescends arrives
        have next := inward.update there (some (.dir mode)) fun target isLink => by
          cases isLink
        obtain ⟨same, stillInward⟩ := ih next stepDescends todoDescends.tail made
        exact ⟨(sameOutside_update tree _ below).trans same, stillInward⟩
      · split at made
        · exact ih inward stepDescends todoDescends.tail made
        · cases made

end Inward

section Lexical

variable {ν μ δ : Type} {base inner here : Location ν} {steps : List (Step ν)}

/-- The name of a step down. -/
def Step.name : Step ν → Option ν
  | .down name => some name
  | _ => none

/-- The names on a descending path. -/
def names (steps : List (Step ν)) : List ν :=
  steps.filterMap Step.name

/-- Where steps lead if there is no link on the way. -/
def land : Location ν → List (Step ν) → Location ν
  | here, [] => here
  | here, .stay :: rest => land here rest
  | here, .up :: rest => land here.dropLast rest
  | here, .down name :: rest => land (here ++ [name]) rest

/-- The steps never lead above the directory that is so many levels up. -/
def staysBelow : Nat → List (Step ν) → Bool
  | _, [] => true
  | depth, .stay :: rest => staysBelow depth rest
  | 0, .up :: _ => false
  | depth + 1, .up :: rest => staysBelow depth rest
  | depth, .down _ :: rest => staysBelow (depth + 1) rest

theorem Descends.land_append (descends : Descends steps) (rest : List (Step ν)) :
    land here (steps ++ rest) = land (here ++ names steps) rest := by
  induction steps generalizing here with
  | nil => simp [names]
  | cons step steps ih =>
    cases step with
    | stay => exact ih descends.tail
    | up => exact absurd mem_cons_self descends
    | down name =>
      refine (@ih (here ++ [name]) descends.tail).trans ?_
      rw [append_assoc]
      rfl

theorem Descends.staysBelow_append (descends : Descends steps) (rest : List (Step ν)) :
    staysBelow depth (steps ++ rest) = staysBelow (depth + (names steps).length) rest := by
  induction steps generalizing depth with
  | nil => rfl
  | cons step steps ih =>
    cases step with
    | stay => exact ih descends.tail
    | up => exact absurd mem_cons_self descends
    | down name =>
      refine (@ih (depth + 1) descends.tail).trans ?_
      rw [Nat.add_right_comm]
      rfl

theorem staysBelow_mono (least : depth ≤ more) (stays : staysBelow depth steps = true) :
    staysBelow more steps = true := by
  fun_induction staysBelow depth steps generalizing more with
  | case1 => rfl
  | case2 depth rest ih => exact ih least stays
  | case3 => cases stays
  | case4 depth rest ih =>
    obtain ⟨more, rfl⟩ := Nat.exists_eq_add_of_le' least
    exact ih (Nat.le_add_left depth more) stays
  | case5 depth name rest ih => exact ih (Nat.succ_le_succ least) stays

/-- Another last step down is as good as any. -/
theorem staysBelow_concat_down
    {last : List (Step ν)} {name : ν} (stays : staysBelow depth (steps ++ last) = true) :
    staysBelow depth (steps ++ [.down name]) = true := by
  induction steps generalizing depth with
  | nil => rfl
  | cons step steps ih =>
    cases step with
    | stay | down _ => exact ih stays
    | up =>
      cases depth with
      | zero => cases stays
      | succ depth => exact ih stays

/-- Steps that stay below a directory lead to a place below it. -/
theorem land_of_staysBelow (stays : staysBelow inner.length steps = true) :
    base <+: land (base ++ inner) steps := by
  induction steps generalizing inner with
  | nil => exact prefix_append _ _
  | cons step steps ih =>
    cases step with
    | stay => exact ih stays
    | up =>
      cases inner using reverseRecOn with
      | nil => cases stays
      | append_singleton inner last =>
        rw [length_append] at stays
        rw [land, ← append_assoc, dropLast_concat]
        exact ih stays
    | down name =>
      rw [land, append_assoc]
      exact ih (by rw [length_append]; exact stays)

/-- In a directory without links, a walk that stays below it gets where its steps lead. -/
theorem walk_eq_land {tree : Tree ν μ δ} {location : Location ν}
    (noLinks : ∀ location target, base <+: location → tree location ≠ some (.link target))
    (stays : staysBelow inner.length steps = true)
    (arrives : walk tree follow limit (base ++ inner) steps = some location) :
    location = land (base ++ inner) steps := by
  have scanned : scan tree follow (base ++ inner) steps = .arrived (land (base ++ inner) steps) ∨
      scan tree follow (base ++ inner) steps = .stuck := by
    clear arrives
    induction steps generalizing inner with
    | nil => exact .inl rfl
    | cons step steps ih =>
      cases step with
      | stay => exact ih stays
      | up =>
        cases inner using reverseRecOn with
        | nil => cases stays
        | append_singleton inner last =>
          rw [length_append] at stays
          rw [scan, land, ← append_assoc, dropLast_concat]
          exact ih stays
      | down name =>
        have next := @ih (inner ++ [name]) (by rw [length_append]; exact stays)
        rw [← append_assoc] at next
        rw [scan]
        split
        · next target isLink =>
            rw [append_assoc] at isLink
            exact absurd isLink (noLinks _ target (prefix_append _ _))
        · exact next
        · split_ifs with isLast
          · exact .inl (by rw [isLast]; rfl)
          · exact .inr rfl
  unfold walk at arrives
  rcases scanned with arrived | stuck
  · rw [arrived] at arrives
    exact (Option.some.inj arrives).symm
  · rw [stuck] at arrives
    cases arrives

end Lexical

end AntRuntime.Files
