import AntRuntime.Strings.Scanning

/-!
# Relational operators on strings

The operators compare bytes, and the order of bytes is that of code points.
ECMAScript orders strings by code units. The orders part where a code point that
needs a surrogate pair meets one that does not and is not smaller than the pair.
-/

namespace AntRuntime.Strings

open Text

/-- A string of the runtime with the text it stores. -/
structure JsString where
  str : Str
  text : List Nat
  stored : Stored str text

/-- The string that stores a text in one piece. -/
def JsString.ofText (text : List Nat) (valid : Valid text) : JsString :=
  ⟨.flat (utf8 text), text, stored_flat valid⟩

section Comparison

/-- The operator in the lexicographic order. -/
def RelOp.lex : RelOp → List Nat → List Nat → Bool
  | .lt, xs, ys => !lexLe ys xs
  | .le, xs, ys => lexLe xs ys
  | .gt, xs, ys => !lexLe xs ys
  | .ge, xs, ys => lexLe ys xs

/-- What `memcmp` on the shorter length tells. -/
theorem memcmp_cases (left right : Bytes) :
    let cmp := memcmp left right (if left.length < right.length then left.length else right.length)
    (cmp = -1 ∧ LexBefore left right) ∨ (cmp = 1 ∧ LexBefore right left) ∨
      (cmp = 0 ∧ lexLe left right = decide (left.length ≤ right.length) ∧
        lexLe right left = decide (right.length ≤ left.length)) := by
  induction left generalizing right with
  | nil =>
    refine Or.inr (Or.inr ?_)
    cases right <;> simp [memcmp, lexLe]
  | cons x left ih =>
    cases right with
    | nil => exact Or.inr (Or.inr (by simp [memcmp, lexLe]))
    | cons y right =>
      have minLen : (if (x :: left).length < (y :: right).length then (x :: left).length
          else (y :: right).length) =
            (if left.length < right.length then left.length else right.length) + 1 := by
        simp only [List.length_cons]
        split_ifs <;> omega
      simp only [minLen, memcmp]
      rcases Nat.lt_trichotomy x y with smaller | same | larger
      · rw [if_neg (by omega), if_pos smaller]
        exact Or.inl ⟨rfl, lexBefore_of_lt smaller _ _⟩
      · subst same
        simpa [lexLe, LexBefore] using ih right
      · rw [if_neg (by omega), if_neg (by omega)]
        exact Or.inr (Or.inl ⟨rfl, lexBefore_of_lt larger _ _⟩)

theorem svRelational_eq (op : RelOp) (l r : JsString) :
    svRelational op l.str r.str = some (op.lex (utf8 l.text) (utf8 r.text)) := by
  rw [svRelational, svStrcmp, l.stored.vstr_eq, r.stored.vstr_eq]
  change some _ = some _
  congr 1
  rcases memcmp_cases (utf8 l.text) (utf8 r.text) with
    ⟨cmp, before⟩ | ⟨cmp, after⟩ | ⟨cmp, le, ge⟩
  · simp only [cmp]
    cases op <;> simp [RelOp.holds, RelOp.lex, before.1, before.2]
  · simp only [cmp]
    cases op <;> simp [RelOp.holds, RelOp.lex, after.1, after.2]
  · simp only [cmp]
    cases op <;> simp only [RelOp.holds, RelOp.lex, le, ge] <;> split_ifs <;> simp <;> omega

theorem doStringOp_eq (op : RelOp) (l r : JsString) :
    doStringOp op l.str r.str = some (op.lex (utf8 l.text) (utf8 r.text)) := by
  rw [← svRelational_eq, doStringOp, svRelational, svStrcmp, l.stored.vstr_eq, r.stored.vstr_eq]
  change (if _ then if _ then some _ else some _ else some _) = some _
  split_ifs <;> cases op <;> simp [RelOp.holds] <;> omega

end Comparison

section Orders

/-- A text comes before a low surrogate with others behind it: it is empty or
starts with a surrogate pair, or its first code point is smaller, or is that low
surrogate and what follows comes before the others. -/
def PrecedesLow : List Nat → Nat → List Nat → Prop
  | [], _, _ => True
  | next :: rest, low, others =>
    0x10000 ≤ next ∨ next < low ∨
      (next = low ∧ lexLe (utf16 others) (utf16 rest) = false)

/-- A text that starts with a code point without surrogates comes before one that
starts with a surrogate pair. -/
def PrecedesPair (basic : Nat) (rest : List Nat) (supplementary : Nat) (others : List Nat) : Prop :=
  basic < highOf supplementary ∨
    (basic = highOf supplementary ∧ PrecedesLow rest (lowOf supplementary) others)

/-- Where two texts first differ, a code point without surrogates does not meet a
surrogate pair, or it precedes it. -/
def Agrees : List Nat → List Nat → Prop
  | x :: s, y :: t =>
    if x = y then Agrees s t
    else
      (x < 0x10000 → ¬ y < 0x10000 → PrecedesPair x s y t) ∧
        (y < 0x10000 → ¬ x < 0x10000 → PrecedesPair y t x s)
  | _, _ => True

/-- The code units of two texts are ordered as their code points. -/
def SameOrder (s t : List Nat) : Prop :=
  lexLe s t = lexLe (utf16 s) (utf16 t) ∧ lexLe t s = lexLe (utf16 t) (utf16 s)

variable {s t : List Nat}

theorem SameOrder.comm : SameOrder s t ↔ SameOrder t s :=
  and_comm

theorem sameOrder_of_lt (smaller : x < y) :
    SameOrder (x :: s) (y :: t) ↔ LexBefore (utf16 (x :: s)) (utf16 (y :: t)) := by
  have before := lexBefore_of_lt smaller s t
  rw [SameOrder, before.1, before.2]
  exact and_congr eq_comm eq_comm

/-- Code points with equally many code units are ordered as these. -/
theorem lexBefore_utf16 (smaller : x < y) (bothOrNone : x < 0x10000 ↔ y < 0x10000) :
    LexBefore (utf16 (x :: s)) (utf16 (y :: t)) := by
  rw [utf16_cons, utf16_cons]
  by_cases basic : x < 0x10000
  · rw [utf16Units_basic basic, utf16Units_basic (bothOrNone.mp basic)]
    exact lexBefore_of_lt smaller _ _
  · rw [utf16Units_supplementary basic, utf16Units_supplementary (mt bothOrNone.mpr basic)]
    unfold highOf lowOf
    refine lexBefore_cons (by omega) fun sameHigh => ?_
    exact lexBefore_of_lt (by omega) _ _

/-- What follows a lone high surrogate is compared with a low one. -/
theorem lexBefore_lowOf_iff (sValid : Valid s) (others : List Nat) :
    LexBefore (utf16 s) (lowOf y :: utf16 others) ↔ PrecedesLow s (lowOf y) others := by
  have low := lowOf_bounds y
  cases s with
  | nil => exact ⟨fun _ => trivial, fun _ => ⟨rfl, rfl⟩⟩
  | cons next rest =>
    rw [utf16_cons]
    by_cases basic : next < 0x10000
    · rw [utf16Units_basic basic, List.singleton_append, lexBefore_cons_iff, lexBefore_iff]
      exact ⟨Or.inr, fun cases => cases.resolve_left (by omega)⟩
    · have high := highOf_bounds basic sValid.head
      rw [utf16Units_supplementary basic]
      constructor
      · exact fun _ => Or.inl (by omega)
      · exact fun _ => lexBefore_of_lt (by omega) _ _

theorem lexBefore_iff_precedesPair
    (sValid : Valid s) (basic : x < 0x10000) (supplementary : ¬ y < 0x10000) :
    LexBefore (utf16 (x :: s)) (utf16 (y :: t)) ↔ PrecedesPair x s y t := by
  rw [utf16_cons x, utf16_cons y, utf16Units_basic basic,
    utf16Units_supplementary supplementary, List.singleton_append, List.cons_append,
    List.singleton_append, lexBefore_cons_iff, lexBefore_lowOf_iff sValid]
  rfl

/-- Two texts that differ in the first code point, the smaller one first. -/
theorem sameOrder_cons_of_lt (sValid : Valid s) (smaller : x < y) :
    SameOrder (x :: s) (y :: t) ↔ (x < 0x10000 → ¬ y < 0x10000 → PrecedesPair x s y t) := by
  rw [sameOrder_of_lt smaller]
  constructor
  · intro before basic supplementary
    exact (lexBefore_iff_precedesPair sValid basic supplementary).mp before
  · intro precedes
    by_cases mixed : x < 0x10000 ∧ ¬ y < 0x10000
    · exact (lexBefore_iff_precedesPair sValid mixed.1 mixed.2).mpr (precedes mixed.1 mixed.2)
    · exact lexBefore_utf16 smaller (by omega)

theorem sameOrder_cons (s t : List Nat) (x : Nat) :
    SameOrder (x :: s) (x :: t) ↔ SameOrder s t := by
  simp [SameOrder, utf16_cons, lexLe_append, lexLe]

theorem sameOrder_nil (t : List Nat) : SameOrder [] t := by
  refine ⟨rfl, ?_⟩
  cases t with
  | nil => rfl
  | cons y t =>
    obtain ⟨first, rest, units⟩ : ∃ first rest, utf16Units y = first :: rest := by
      unfold utf16Units
      split_ifs
      · exact ⟨_, _, rfl⟩
      · exact ⟨_, _, rfl⟩
    rw [utf16_cons, units]
    rfl

theorem sameOrder_iff_agrees (sValid : Valid s) (tValid : Valid t) :
    SameOrder s t ↔ Agrees s t := by
  induction s generalizing t with
  | nil =>
    cases t with
    | nil | cons y t => exact ⟨fun _ => trivial, fun _ => sameOrder_nil _⟩
  | cons x s ih =>
    cases t with
    | nil => exact ⟨fun _ => trivial, fun _ => (sameOrder_nil _).symm⟩
    | cons y t =>
      rw [Agrees]
      rcases Nat.lt_trichotomy x y with smaller | same | larger
      · rw [if_neg (by omega), sameOrder_cons_of_lt sValid.tail smaller]
        exact ⟨fun precedes => ⟨precedes, fun _ _ => by omega⟩, And.left⟩
      · subst same
        rw [if_pos rfl, sameOrder_cons]
        exact ih sValid.tail tValid.tail
      · rw [if_neg (by omega), SameOrder.comm, sameOrder_cons_of_lt tValid.tail larger]
        exact ⟨fun precedes => ⟨fun _ _ => by omega, precedes⟩, And.right⟩

/-- All four operators agree on two pairs of lists if these are ordered alike. -/
theorem lex_eq_iff (s t : List Nat) :
    (∀ op : RelOp, op.lex (utf8 s) (utf8 t) = op.lex (utf16 s) (utf16 t)) ↔ SameOrder s t := by
  constructor
  · intro same
    have le := same .le
    have ge := same .ge
    simp only [RelOp.lex, lexLe_utf8] at le ge
    exact ⟨le, ge⟩
  · rintro ⟨le, ge⟩ op
    cases op <;> simp only [RelOp.lex, lexLe_utf8, le, ge]

end Orders

/-- The relational operators, in either implementation, order two strings as
ECMAScript does exactly if their texts agree in that sense. -/
theorem relational_iff_agrees (a b : JsString) :
    ((∀ op, svRelational op a.str b.str = some (op.lex (utf16 a.text) (utf16 b.text))) ↔
        Agrees a.text b.text) ∧
      ((∀ op, doStringOp op a.str b.str = some (op.lex (utf16 a.text) (utf16 b.text))) ↔
        Agrees a.text b.text) := by
  rw [← sameOrder_iff_agrees a.stored.valid b.stored.valid, ← lex_eq_iff]
  simp [svRelational_eq, doStringOp_eq, and_self]

/-- The last code point without surrogates. -/
def lastBasic : JsString :=
  .ofText [0xFFFF] (by simp [Valid])

/-- The first code point with surrogates. -/
def firstSupplementary : JsString :=
  .ofText [0x10000] (by simp [Valid])

theorem lt_firstSupplementary_wrong :
    svRelational .lt lastBasic.str firstSupplementary.str = some true ∧
      doStringOp .lt lastBasic.str firstSupplementary.str = some true ∧
      RelOp.lt.lex (utf16 lastBasic.text) (utf16 firstSupplementary.text) = false := by
  decide +kernel

end AntRuntime.Strings
