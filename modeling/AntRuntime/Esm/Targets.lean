import Mathlib.Data.List.Basic
import Mathlib.Logic.Basic

/-!
# Targets of package maps

A target of an `exports` or `imports` map is a string, a list of alternatives or an
object whose keys are conditions. `esm_resolve_exports_target` asks the file system
about each string it comes to and goes on to the next one where there is no file. Node
selects one string without looking at the files.
-/

namespace AntRuntime.Esm

open List

/-- A string of the package file, without a terminating byte inside. -/
abbrev Text := List Char

section Stars

/-- The two sides of the first `*`. -/
def splitStar : Text → Option (Text × Text)
  | [] => none
  | c :: rest =>
    if c = '*' then some ([], rest)
    else (splitStar rest).map fun sides => (c :: sides.1, sides.2)

/-- `esm_replace_star`. -/
def replaceStar (pattern capture : Text) : Text :=
  match splitStar pattern with
  | none => pattern
  | some (before, after) => before ++ capture ++ after

/-- Replace every `*`. -/
def replaceStars (pattern capture : Text) : Text :=
  pattern.flatMap fun c => if c = '*' then capture else [c]

end Stars

section Model

/-- A value of a package map. -/
inductive Target where
  | str (text : Text)
  | arr (items : List Target)
  | obj (members : List (Text × Target))
  | null
  | other

/-- What is looked up for a string: a path in the package, or another package. -/
inductive Location where
  | inPackage (path : Text)
  | nodeModule (specifier : Text)
deriving DecidableEq, Repr

/-- The active conditions: those given to the program, or the built-in ones. -/
inductive Conditions where
  | active (names : List Text)
  | builtin (preferRequire : Bool)

/-- The conditions in the order in which they are tried. -/
def Conditions.names : Conditions → List Text
  | .active names => names ++ ["default".toList]
  | .builtin preferRequire =>
    [if preferRequire then "require".toList else "import".toList, "node".toList, "default".toList]

/-- `yyjson_obj_get`, which finds a member of an object by its name. -/
structure ObjGet where
  get : ∀ {β : Type}, List (Text × β) → Text → Option β
  get_map : ∀ {β γ : Type} (f : β → γ) (members : List (Text × β)) (name : Text),
    get (members.map fun member => (member.1, f member.2)) name = (get members name).map f
  mem_of_get : ∀ {β : Type} {members : List (Text × β)} {name : Text} {value : β},
    get members name = some value → (name, value) ∈ members
  get_ne_none : ∀ {β : Type} {members : List (Text × β)} {name : Text} {value : β},
    (name, value) ∈ members → get members name ≠ none

/-- `PATH_MAX`; a buffer of this size keeps one byte less. -/
def pathMax : Nat := 4096

/-- `esm_split_package_specifier`: the name of the package, and the path in it. -/
def splitPackageSpecifier (specifier : Text) : Option (Text × Option Text) :=
  let first := specifier.takeWhile (· ≠ '/')
  let second := (specifier.drop (first.length + 1)).takeWhile (· ≠ '/')
  let name := if specifier.head? = some '@' then first ++ '/' :: second else first
  let subpath := specifier.drop (name.length + 1)
  if specifier.head? ∈ [none, some '.', some '/', some '#'] then none
  else if specifier.head? = some '@' ∧ (first = ['@'] ∨ specifier.length ≤ first.length + 1) then
    none
  else if pathMax ≤ name.length then none
  else some (name, if subpath = [] then none else some subpath)

/-- The string part of `esm_resolve_exports_target`: what is looked up. The capture is
empty for an exact key. -/
def locate (allowBare : Bool) (capture : Option Text) : Text → Option Location
  | [] => none
  | '.' :: '/' :: path => some (.inPackage (replaceStar path (capture.getD [])))
  | c :: rest =>
    if allowBare = false then none
    else if c = '#' then none
    else (splitPackageSpecifier (c :: rest)).map fun _ => .nodeModule (c :: rest)

variable {π : Type}

/-- What is found for a string. The file system says what is at a location. -/
def lookUp (files : Location → Option π) (allowBare : Bool) (capture : Option Text)
    (text : Text) : Option π :=
  (locate allowBare capture text).bind files

variable (json : ObjGet) (found : Text → Option π) (conditions : Conditions)

mutual

/-- `esm_resolve_exports_target`, with what is found for a string. -/
def resolveExportsTarget : Target → Option π
  | .str text => found text
  | .arr items => resolveItems items
  | .obj members =>
    conditions.names.findSome? fun name => (json.get (resolveMembers members) name).join
  | .null => none
  | .other => none

/-- The loop over an array. -/
def resolveItems : List Target → Option π
  | [] => none
  | item :: items => (resolveExportsTarget item).or (resolveItems items)

/-- What the members of an object resolve to. -/
def resolveMembers : List (Text × Target) → List (Text × Option π)
  | [] => []
  | (name, target) :: members => (name, resolveExportsTarget target) :: resolveMembers members

end

end Model

section Node

/-- What Node's resolution of a target ends with; a specifier that names no package fails. -/
inductive Outcome where
  | undefined
  | null
  | invalid
  | failed
  | found (location : Location)
deriving DecidableEq, Repr

/-- The location, if one was found. -/
def Outcome.location : Outcome → Option Location
  | .found location => some location
  | _ => none

/-- The first outcome that is not undefined. -/
def firstDefined : List Outcome → Outcome
  | [] => .undefined
  | .undefined :: rest => firstDefined rest
  | outcome :: _ => outcome

/-- The alternatives of an array: undefined and invalid ones are passed over, and an
invalid one is reported if there is nothing else. -/
def firstUsable : Outcome → List Outcome → Outcome
  | last, [] => last
  | last, .undefined :: rest => firstUsable last rest
  | _, .invalid :: rest => firstUsable .invalid rest
  | _, outcome :: _ => outcome

/-- Replace every `*`, if there is a capture. -/
def fillStars (capture : Option Text) (text : Text) : Text :=
  capture.elim text (replaceStars text)

/-- The specifiers that Node refuses: the empty one, a scope without a name, and a name that
starts with a period or has a backslash or a percent sign. A `#` starts a fragment. -/
def namesNoPackage (specifier : Text) : Bool :=
  let first := specifier.takeWhile (· ≠ '/')
  let second := (specifier.drop (first.length + 1)).takeWhile (· ≠ '/')
  let name := if specifier.head? = some '@' then first ++ '/' :: second else first
  specifier.head? ∈ [none, some '.', some '#'] ||
    (specifier.head? = some '@' && !specifier.contains '/') || name.any (· ∈ ['\\', '%'])

variable (isUrl : Text → Bool) (allowBare : Bool) (capture : Option Text)

/-- A string for Node. In `imports` it may name another package; a path that does not start
with `./` and a URL are invalid. -/
def nodeLocate : Text → Outcome
  | '.' :: '/' :: path => .found (.inPackage (fillStars capture path))
  | text =>
    if allowBare = false then .invalid
    else if ['.', '.', '/'].isPrefixOf text || ['/'].isPrefixOf text || isUrl text then .invalid
    else if namesNoPackage (fillStars capture text) then .failed
    else .found (.nodeModule (fillStars capture text))

variable (json : ObjGet) (conditions : Conditions)

mutual

/-- Node's resolution of a target: the members of an object are tried in their own
order, and a null target ends the search. -/
def nodeTarget : Target → Outcome
  | .str text => nodeLocate isUrl allowBare capture text
  | .arr items => if items = [] then .null else firstUsable .undefined (nodeItems items)
  | .obj members =>
    firstDefined (((members.map Prod.fst).filter (· ∈ conditions.names)).map fun name =>
      (json.get (nodeMembers members) name).getD .undefined)
  | .null => .null
  | .other => .invalid

/-- The outcomes of alternatives. -/
def nodeItems : List Target → List Outcome
  | [] => []
  | item :: items => nodeTarget item :: nodeItems items

/-- The outcomes of the members of an object. -/
def nodeMembers : List (Text × Target) → List (Text × Outcome)
  | [] => []
  | (name, target) :: members => (name, nodeTarget target) :: nodeMembers members

end

/-- The strings to which the active conditions lead, in no particular order. -/
inductive Leads : Target → Text → Prop where
  | str (text : Text) : Leads (.str text) text
  | item {items : List Target} {target : Target} {text : Text}
      (isIn : target ∈ items) (leads : Leads target text) : Leads (.arr items) text
  | member {members : List (Text × Target)} {name : Text} {target : Target} {text : Text}
      (isActive : name ∈ conditions.names) (isMember : json.get members name = some target)
      (leads : Leads target text) : Leads (.obj members) text

end Node

section Equations

variable {π : Type} {json : ObjGet} {found : Text → Option π} {conditions : Conditions}

theorem resolveItems_eq (items : List Target) :
    resolveItems json found conditions items =
      items.findSome? (resolveExportsTarget json found conditions) := by
  induction items with
  | nil => rfl
  | cons item items ih =>
    rw [resolveItems, findSome?_cons, ih]
    cases resolveExportsTarget json found conditions item <;> rfl

theorem resolveMembers_eq (members : List (Text × Target)) :
    resolveMembers json found conditions members =
      members.map fun member => (member.1, resolveExportsTarget json found conditions
        member.2) := by
  induction members with
  | nil => rfl
  | cons member members ih => rw [resolveMembers, map_cons, ih]

/-- The alternatives of an array are tried one after the other. -/
theorem resolveExportsTarget_arr (items : List Target) :
    resolveExportsTarget json found conditions (.arr items) =
      items.findSome? (resolveExportsTarget json found conditions) := by
  rw [resolveExportsTarget, resolveItems_eq]

/-- The conditions are tried one after the other, whatever the order of the members. -/
theorem resolveExportsTarget_obj (members : List (Text × Target)) :
    resolveExportsTarget json found conditions (.obj members) =
      conditions.names.findSome? fun name =>
        (json.get members name).bind (resolveExportsTarget json found conditions) := by
  rw [resolveExportsTarget, resolveMembers_eq]
  congr 1
  funext name
  rw [json.get_map]
  cases json.get members name <;> rfl

/-- Induction over targets. -/
@[elab_as_elim]
theorem Target.induction {motive : Target → Prop} (str : ∀ text, motive (.str text))
    (arr : ∀ items, (∀ item ∈ items, motive item) → motive (.arr items))
    (obj : ∀ members, (∀ name target, (name, target) ∈ members → motive target) →
      motive (.obj members))
    (null : motive .null) (other : motive .other) (target : Target) : motive target := by
  refine @Target.rec motive (fun items => ∀ item ∈ items, motive item)
    (fun members => ∀ name target, (name, target) ∈ members → motive target)
    (fun member => motive member.2)
    str (fun items => arr items) (fun members => obj members) null other ?_ ?_ ?_ ?_ ?_ target
  · exact fun item isIn => absurd isIn not_mem_nil
  · intro first rest firstHolds restHolds item isIn
    rcases mem_cons.mp isIn with rfl | isIn
    · exact firstHolds
    · exact restHolds item isIn
  · exact fun name target isIn => absurd isIn not_mem_nil
  · intro first rest firstHolds restHolds name target isIn
    rcases mem_cons.mp isIn with rfl | isIn
    · exact firstHolds
    · exact restHolds name target isIn
  · exact fun name target holds => holds

end Equations

section Comparison

variable {π : Type} {json : ObjGet} {found : Text → Option π} {conditions : Conditions}
  {target : Target}

/-- What is found was found for a string to which the conditions lead. -/
theorem leads_of_resolveExportsTarget {resolved : π}
    (isResolved : resolveExportsTarget json found conditions target = some resolved) :
    ∃ text, Leads json conditions target text ∧ found text = some resolved := by
  induction target using Target.induction with
  | str text => exact ⟨text, .str text, isResolved⟩
  | arr items ih =>
    rw [resolveExportsTarget_arr] at isResolved
    obtain ⟨item, isIn, itemResolved⟩ := exists_of_findSome?_eq_some isResolved
    obtain ⟨text, leads, looked⟩ := ih item isIn itemResolved
    exact ⟨text, .item isIn leads, looked⟩
  | obj members ih =>
    rw [resolveExportsTarget_obj] at isResolved
    obtain ⟨name, isActive, memberResolved⟩ := exists_of_findSome?_eq_some isResolved
    obtain ⟨member, isMember, memberResolved⟩ := Option.bind_eq_some_iff.mp memberResolved
    obtain ⟨text, leads, looked⟩ := ih name member (json.mem_of_get isMember) memberResolved
    exact ⟨text, .member isActive isMember leads, looked⟩
  | null | other => exact absurd isResolved (by simp [resolveExportsTarget])

/-- Every string to which the conditions lead is tried before nothing is found. -/
theorem resolveExportsTarget_ne_none {text : Text} (leads : Leads json conditions target text)
    (isThere : found text ≠ none) : resolveExportsTarget json found conditions target ≠ none := by
  induction leads with
  | str text => exact isThere
  | item isIn _ ih =>
    rw [resolveExportsTarget_arr]
    intro nothing
    exact ih isThere (findSome?_eq_none_iff.mp nothing _ isIn)
  | member isActive isMember _ ih =>
    rw [resolveExportsTarget_obj]
    intro nothing
    have memberNothing := findSome?_eq_none_iff.mp nothing _ isActive
    rw [isMember] at memberNothing
    exact ih isThere memberNothing

/-- With every file system the program finds what is where Node's search ends, exactly if the
strings to which the active conditions lead are looked up there and nowhere else. -/
theorem resolveExportsTarget_agrees_iff {capture : Option Text} (outcome : Outcome) :
    (∀ files : Location → Option Text,
        resolveExportsTarget json (lookUp files allowBare capture) conditions target =
          outcome.location.bind files) ↔
      ∀ looked, (∃ text, Leads json conditions target text ∧
        locate allowBare capture text = some looked) ↔ outcome = .found looked := by
  constructor
  · intro agrees looked
    -- A file system with a file at this location only.
    obtain ⟨files, filesEq⟩ : ∃ files : Location → Option Text,
        ∀ location, files location = if location = looked then some [] else none :=
      ⟨_, fun _ => rfl⟩
    have agrees := agrees files
    constructor
    · rintro ⟨text, leads, isLooked⟩
      have isThere : lookUp files allowBare capture text ≠ none := by
        simp [lookUp, isLooked, filesEq]
      have resolved := resolveExportsTarget_ne_none leads isThere
      rw [agrees] at resolved
      cases outcome <;> simp_all [Outcome.location]
    · rintro rfl
      obtain ⟨text, leads, isThere⟩ := leads_of_resolveExportsTarget
        (agrees.trans ((filesEq looked).trans (if_pos rfl)))
      obtain ⟨location, isLooked, isThere⟩ := Option.bind_eq_some_iff.mp isThere
      rw [filesEq] at isThere
      split_ifs at isThere with same
      exact ⟨text, leads, same ▸ isLooked⟩
  · intro same files
    cases result : resolveExportsTarget json (lookUp files allowBare capture) conditions target with
    | some resolved =>
      obtain ⟨text, leads, isThere⟩ := leads_of_resolveExportsTarget result
      obtain ⟨location, isLooked, isThere⟩ := Option.bind_eq_some_iff.mp isThere
      rw [(same location).mp ⟨text, leads, isLooked⟩]
      exact isThere.symm
    | none =>
      cases outcome with
      | found location =>
        obtain ⟨text, leads, isLooked⟩ := (same location).mpr rfl
        by_contra isThere
        refine resolveExportsTarget_ne_none leads ?_ result
        rw [lookUp, isLooked]
        exact Ne.symm isThere
      | undefined | null | invalid | failed => rfl

end Comparison

end AntRuntime.Esm
