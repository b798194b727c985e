import Mathlib.Algebra.Group.Nat.Defs
import AntRuntime.Tar.Format

/-!
# Versions and constraints

Versions are three numbers with a prerelease and a build. A constraint is read from the
text of a dependency: of its alternatives only the last is used, and of that only the
first comparator.
-/

namespace AntRuntime.Pkg

open Tar (Bytes ascii parseInt)

section Model

structure Version where
  major : Nat
  minor : Nat
  patch : Nat
  prerelease : Option Bytes
  build : Option Bytes
deriving DecidableEq, Repr

/-- The numbers of a version are of the type `u64`. -/
structure Version.Fits (version : Version) : Prop where
  major : version.major < 2 ^ 64
  minor : version.minor < 2 ^ 64
  patch : version.patch < 2 ^ 64

/-- What stands before the first occurrence of a character, and what after it. -/
def splitFirst (c : UInt8) (text : Bytes) : Option (Bytes × Bytes) :=
  if c ∈ text then some (text.takeWhile (· ≠ c), (text.dropWhile (· ≠ c)).drop 1) else none

/-- `std.fmt.parseInt(u64, …, 10)`. -/
def parseNumber (text : Bytes) : Option Nat :=
  parseInt (2 ^ 64) 10 text

/-- The patch number, the prerelease and the build: a dash comes first. -/
def splitPatch (text : Bytes) : Bytes × Option Bytes × Option Bytes :=
  match splitFirst 45 text with
  | some (patch, after) =>
    match splitFirst 43 after with
    | some (prerelease, build) => (patch, some prerelease, some build)
    | none => (patch, some after, none)
  | none =>
    match splitFirst 43 text with
    | some (patch, build) => (patch, none, some build)
    | none => (text, none, none)

/-- `Version.parse`. -/
def Version.parse (str : Bytes) : Option Version :=
  match splitFirst 46 (if str.head? = some 118 then str.drop 1 else str) with
  | none => none
  | some (major, remaining) =>
    match splitFirst 46 remaining with
    | none => none
    | some (minor, remaining) =>
      match parseNumber major, parseNumber minor, parseNumber (splitPatch remaining).1 with
      | some major, some minor, some patch =>
        some ⟨major, minor, patch, (splitPatch remaining).2.1, (splitPatch remaining).2.2⟩
      | _, _, _ => none

/-- `parseNumeric`. An overflow, which the source leaves undefined, wraps. -/
def parseNumeric (text : Bytes) : Option Nat :=
  if text = [] then none
  else if text.all fun c => 48 ≤ c && c ≤ 57 then
    some (text.foldl (fun value c => (value * 10 + (c.toNat - 48)) % 2 ^ 64) 0)
  else none

/-- `compareIdentifier`. -/
def compareIdentifier (a b : Bytes) : Ordering :=
  match parseNumeric a, parseNumeric b with
  | some a, some b => compare a b
  | some _, none => .lt
  | none, some _ => .gt
  | none, none => List.compareLex compare a b

/-- The loop of `orderPrerelease` over the identifiers. -/
def orderIdentifiers : List Bytes → List Bytes → Ordering
  | [], [] => .eq
  | [], _ :: _ => .lt
  | _ :: _, [] => .gt
  | a :: as, b :: bs =>
    match compareIdentifier a b with
    | .eq => orderIdentifiers as bs
    | other => other

/-- `orderPrerelease`. -/
def orderPrerelease (a b : Bytes) : Ordering :=
  orderIdentifiers (a.splitOn 46) (b.splitOn 46)

/-- `Version.order`. -/
def Version.order (a b : Version) : Ordering :=
  if a.major ≠ b.major then compare a.major b.major
  else if a.minor ≠ b.minor then compare a.minor b.minor
  else if a.patch ≠ b.patch then compare a.patch b.patch
  else
    match a.prerelease, b.prerelease with
    | none, none => .eq
    | none, some _ => .gt
    | some _, none => .lt
    | some a, some b => orderPrerelease a b

/-- `Constraint.Kind`. -/
inductive ConstraintKind where
  | exact
  | caret
  | tilde
  | gte
  | gt
  | lte
  | lt
  | tag
  | any
deriving DecidableEq, Repr

structure Constraint where
  kind : ConstraintKind
  version : Version
  tag : Option Bytes := none
deriving DecidableEq, Repr

/-- The version of a constraint that has none. -/
def zeroVersion : Version :=
  ⟨0, 0, 0, none, none⟩

/-- What follows the last `||`. -/
def afterLastOr : Bytes → Option Bytes
  | [] => none
  | c :: rest =>
    match afterLastOr rest with
    | some after => some after
    | none => if c = 124 ∧ rest.head? = some 124 then some (rest.drop 1) else none

/-- `std.mem.trim` of blanks. -/
def trimBlanks (text : Bytes) : Bytes :=
  ((text.dropWhile (· = 32)).reverse.dropWhile (· = 32)).reverse

/-- The operator at the start, and what follows it. -/
def readOperator : Bytes → ConstraintKind × Bytes
  | 94 :: rest => (.caret, rest)
  | 126 :: rest => (.tilde, rest)
  | 62 :: 61 :: rest => (.gte, rest)
  | 62 :: rest => (.gt, rest)
  | 60 :: 61 :: rest => (.lte, rest)
  | 60 :: rest => (.lt, rest)
  | 61 :: rest => (.exact, rest)
  | text => (.exact, text)

/-- A comparator with its operator read. -/
def parsePartial (kind : ConstraintKind) (remaining : Bytes) : Option Constraint :=
  if remaining.count 46 = 0 then
    match parseNumber remaining with
    | none => some { kind := .any, version := zeroVersion }
    | some major =>
      some {
        kind := if kind = .exact then .caret else kind
        version := ⟨major, 0, 0, none, none⟩ }
  else if remaining.count 46 = 1 then
    let major := (parseNumber (remaining.takeWhile (· ≠ 46))).getD 0
    let minor := (parseNumber ((remaining.dropWhile (· ≠ 46)).drop 1)).getD 0
    some {
      kind := if kind = .exact then .tilde else kind
      version := ⟨major, minor, 0, none, none⟩ }
  else (Version.parse remaining).map fun version => { kind, version }

/-- The characters that a constraint other than a tag starts with. -/
def startsConstraint (c : UInt8) : Bool :=
  c = 118 ∨ 48 ≤ c ∧ c ≤ 57 ∨ c = 94 ∨ c = 126 ∨ c = 62 ∨ c = 60 ∨ c = 61

/-- The text that is left of the alternatives and comparators. -/
def selectComparator (str : Bytes) : Bytes :=
  (match afterLastOr str with
    | some after => trimBlanks after
    | none => str).takeWhile (· ≠ 32)

/-- `Constraint.parse`. -/
def Constraint.parse (str : Bytes) : Option Constraint :=
  if str = [] ∨ str = ascii "*" ∨ str = ascii "latest" then
    some { kind := .any, version := zeroVersion }
  else if startsConstraint (str.headD 0) = false then
    some { kind := .tag, version := zeroVersion, tag := some str }
  else
    parsePartial (readOperator (selectComparator str)).1 (readOperator (selectComparator str)).2

/-- `Constraint.satisfies`. -/
def Constraint.satisfies (constraint : Constraint) (v : Version) : Bool :=
  match constraint.kind with
  | .any => true
  | .exact =>
    if v.major ≠ constraint.version.major ∨ v.minor ≠ constraint.version.minor ∨
        v.patch ≠ constraint.version.patch then false
    else
      match constraint.version.prerelease, v.prerelease with
      | none, none => true
      | some a, some b => a = b
      | _, _ => false
  | .caret =>
    if v.order constraint.version = .lt then false
    else if 0 < constraint.version.major then v.major = constraint.version.major
    else if 0 < constraint.version.minor then
      v.major = 0 ∧ v.minor = constraint.version.minor
    else v.major = 0 ∧ v.minor = 0 ∧ v.patch = constraint.version.patch
  | .tilde =>
    if v.order constraint.version = .lt then false
    else v.major = constraint.version.major ∧ v.minor = constraint.version.minor
  | .gte => v.order constraint.version ≠ .lt
  | .gt => v.order constraint.version = .gt
  | .lte => v.order constraint.version ≠ .gt
  | .lt => v.order constraint.version = .lt
  | .tag => false

end Model

section Preorder

open Std (TransCmp OrientedCmp)

/-- Those with a key come first, in the order of their keys. -/
def compareKeys (key : α → Option β) (cmpKeys : β → β → Ordering)
    (cmpRest : α → α → Ordering) (a b : α) : Ordering :=
  match key a, key b with
  | some x, some y => cmpKeys x y
  | some _, none => .lt
  | none, some _ => .gt
  | none, none => cmpRest a b

instance [TransCmp cmpKeys] [TransCmp cmpRest] : TransCmp (compareKeys key cmpKeys cmpRest) where
  eq_swap {a b} := by
    unfold compareKeys
    cases key a <;> cases key b <;> first | rfl | exact OrientedCmp.eq_swap
  isLE_trans {a b c} := by
    unfold compareKeys
    cases key a <;> cases key b <;> cases key c <;> first | exact TransCmp.isLE_trans | simp

instance : TransCmp compareIdentifier :=
  inferInstanceAs (TransCmp (compareKeys parseNumeric compare (List.compareLex compare)))

theorem orderIdentifiers_eq (as bs : List Bytes) :
    orderIdentifiers as bs = List.compareLex compareIdentifier as bs := by
  induction as generalizing bs with
  | nil => cases bs <;> rfl
  | cons a as ih =>
    cases bs with
    | nil => rfl
    | cons b bs =>
      rw [orderIdentifiers, List.compareLex_cons_cons, ih]
      cases compareIdentifier a b <;> rfl

/-- Versions are compared by one part after the other. -/
theorem order_eq :
    Version.order =
      compareLex (compareOn Version.major) (compareLex (compareOn Version.minor)
        (compareLex (compareOn Version.patch)
          (compareKeys (fun v => v.prerelease.map (List.splitOn 46))
            (List.compareLex compareIdentifier) fun _ _ => .eq))) := by
  funext a b
  have number (x y : Nat) (others : Ordering) :
      (if x ≠ y then compare x y else others) = (compare x y).then others := by
    rcases Nat.lt_trichotomy x y with less | same | more
    · simp [Nat.compare_eq_lt.mpr less, less.ne]
    · simp [same]
    · simp [Nat.compare_eq_gt.mpr more, more.ne']
  simp only [Version.order, number, compareLex, compareOn, compareKeys, orderPrerelease,
    orderIdentifiers_eq]
  cases a.prerelease <;> cases b.prerelease <;> rfl

/-- The order of versions is a total preorder. -/
instance : TransCmp Version.order :=
  have : TransCmp fun _ _ : Version => Ordering.eq :=
    { eq_swap := rfl, isLE_trans := fun _ _ => rfl }
  order_eq ▸ inferInstance

end Preorder

section Splitting

variable {first rest : Bytes}

theorem splitFirst_append (notIn : c ∉ first) : splitFirst c (first ++ c :: rest) =
    some (first, rest) := by
  rw [splitFirst, if_pos (by simp), Tar.takeWhile_ne_append notIn, Tar.dropWhile_ne_append notIn]
  rfl

theorem splitFirst_none (notIn : c ∉ first) : splitFirst c first = none :=
  if_neg notIn

end Splitting

end AntRuntime.Pkg
