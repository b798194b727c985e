import Mathlib.Data.List.Lex
import Mathlib.Data.List.TakeWhile
import Mathlib.Order.Nat

/-!
# Orders of encoded texts

A text is a list of code points. Its UTF-8 bytes are ordered as its code points
are; its UTF-16 code units are too, as long as no code point needs a surrogate
pair.
-/

namespace AntRuntime.Text

open List

/-- The lexicographic order. -/
def lexLe : List Nat → List Nat → Bool
  | [], _ => true
  | _ :: _, [] => false
  | x :: xs, y :: ys => if x = y then lexLe xs ys else decide (x < y)

/-- The UTF-8 bytes of a code point. -/
def utf8Bytes (c : Nat) : List Nat :=
  if c < 0x80 then [c]
  else if c < 0x800 then [0xC0 + c / 64, 0x80 + c % 64]
  else if c < 0x10000 then [0xE0 + c / 4096, 0x80 + c / 64 % 64, 0x80 + c % 64]
  else
    [0xF0 + c / 262144, 0x80 + c / 4096 % 64, 0x80 + c / 64 % 64, 0x80 + c % 64]

/-- The UTF-8 encoding of a text. -/
def utf8 (text : List Nat) : List Nat :=
  text.flatMap utf8Bytes

/-- The UTF-16 code units of a code point. -/
def utf16Units (c : Nat) : List Nat :=
  if c < 0x10000 then [c]
  else [0xD800 + (c - 0x10000) / 0x400, 0xDC00 + (c - 0x10000) % 0x400]

/-- The UTF-16 encoding of a text. -/
def utf16 (text : List Nat) : List Nat :=
  text.flatMap utf16Units

/-- The text up to the first NUL. -/
def untilNul (text : List Nat) : List Nat :=
  text.takeWhile (· ≠ 0)

section Order

theorem lexLe_eq (xs ys : List Nat) : lexLe xs ys = decide (xs ≤ ys) := by
  induction xs generalizing ys with
  | nil => simp [lexLe, ← not_lt]
  | cons x xs ih =>
    cases ys with
    | nil => simp [lexLe, ← not_lt]
    | cons y ys =>
      simp only [lexLe, ih, ← not_lt, List.cons_lt_cons_iff]
      grind

theorem lexLe_refl (xs : List Nat) : lexLe xs xs = true := by
  rw [lexLe_eq, decide_eq_true_eq]

theorem lexLe_total (xs ys : List Nat) : lexLe xs ys = true ∨ lexLe ys xs = true := by
  simp only [lexLe_eq, decide_eq_true_eq]
  exact le_total xs ys

theorem lexLe_trans
    {xs ys zs : List Nat} (first : lexLe xs ys = true) (second : lexLe ys zs = true) :
    lexLe xs zs = true := by
  simp only [lexLe_eq, decide_eq_true_eq] at first second ⊢
  exact first.trans second

theorem lexLe_antisymm
    {xs ys : List Nat} (first : lexLe xs ys = true) (second : lexLe ys xs = true) :
    xs = ys := by
  simp only [lexLe_eq, decide_eq_true_eq] at first second
  exact le_antisymm first second

theorem lexLe_append (common xs ys : List Nat) :
    lexLe (common ++ xs) (common ++ ys) = lexLe xs ys := by
  induction common with
  | nil => rfl
  | cons x common ih =>
    simp only [cons_append, lexLe]
    exact ih

end Order

section Encodings

/-- Strictly before in the lexicographic order. -/
def LexBefore (xs ys : List Nat) : Prop :=
  lexLe xs ys = true ∧ lexLe ys xs = false

/-- Strictly before is not after. -/
theorem lexBefore_iff {xs ys : List Nat} : LexBefore xs ys ↔ lexLe ys xs = false := by
  rw [LexBefore, and_iff_right_iff_imp]
  intro notAfter
  refine (lexLe_total xs ys).resolve_right ?_
  rw [notAfter]
  exact Bool.false_ne_true

theorem lexBefore_cons_iff {xs ys : List Nat} :
    LexBefore (x :: xs) (y :: ys) ↔ x < y ∨ (x = y ∧ LexBefore xs ys) := by
  simp only [lexBefore_iff, lexLe_eq, decide_eq_false_iff_not, not_le]
  exact List.cons_lt_cons_iff

theorem lexBefore_of_lt (smaller : x < y) (xs ys : List Nat) :
    LexBefore (x :: xs) (y :: ys) :=
  lexBefore_cons_iff.mpr (.inl smaller)

/-- The first byte decides, or the rest does. -/
theorem lexBefore_cons {xs ys : List Nat} (notLarger : x ≤ y) (rest : x = y → LexBefore xs ys) :
    LexBefore (x :: xs) (y :: ys) :=
  lexBefore_cons_iff.mpr ((Nat.lt_or_eq_of_le notLarger).imp_right fun same => ⟨same, rest same⟩)

/-- The bytes of a smaller code point come first, whatever follows. -/
theorem lexBefore_utf8Bytes (smaller : x < y) (xs ys : List Nat) :
    LexBefore (utf8Bytes x ++ xs) (utf8Bytes y ++ ys) := by
  unfold utf8Bytes
  -- Encodings of different lengths differ in the first byte.
  split_ifs
  · exact lexBefore_of_lt smaller _ _
  · exact lexBefore_of_lt (by omega) _ _
  · exact lexBefore_of_lt (by omega) _ _
  · exact lexBefore_of_lt (by omega) _ _
  · omega
  · refine lexBefore_cons (by omega) fun _ => ?_
    exact lexBefore_of_lt (by omega) _ _
  · exact lexBefore_of_lt (by omega) _ _
  · exact lexBefore_of_lt (by omega) _ _
  · omega
  · omega
  · refine lexBefore_cons (by omega) fun _ => ?_
    refine lexBefore_cons (by omega) fun _ => ?_
    exact lexBefore_of_lt (by omega) _ _
  · exact lexBefore_of_lt (by omega) _ _
  · omega
  · omega
  · omega
  · refine lexBefore_cons (by omega) fun _ => ?_
    refine lexBefore_cons (by omega) fun _ => ?_
    refine lexBefore_cons (by omega) fun _ => ?_
    exact lexBefore_of_lt (by omega) _ _

/-- UTF-8 keeps the order of code points. -/
theorem lexLe_utf8 (s t : List Nat) : lexLe (utf8 s) (utf8 t) = lexLe s t := by
  have nonempty : ∀ c, ∃ b bs, utf8Bytes c = b :: bs := by
    intro c
    unfold utf8Bytes
    split_ifs <;> exact ⟨_, _, rfl⟩
  induction s generalizing t with
  | nil => rfl
  | cons x s ih =>
    cases t with
    | nil =>
      obtain ⟨b, bs, bytes⟩ := nonempty x
      simp only [utf8, flatMap_cons, bytes]
      rfl
    | cons y t =>
      simp only [utf8, flatMap_cons]
      rcases Nat.lt_trichotomy x y with smaller | same | larger
      · rw [(lexBefore_utf8Bytes smaller _ _).1, (lexBefore_of_lt smaller s t).1]
      · subst same
        rw [lexLe_append, lexLe, if_pos rfl]
        exact ih t
      · rw [(lexBefore_utf8Bytes larger _ _).2, (lexBefore_of_lt larger t s).2]

/-- A text is determined by its bytes. -/
theorem utf8_injective {s t : List Nat} (bytes : utf8 s = utf8 t) : s = t := by
  apply lexLe_antisymm <;> rw [← lexLe_utf8, bytes] <;> exact lexLe_refl _

/-- Only a NUL is encoded with a zero byte. -/
theorem takeWhile_utf8 (text : List Nat) :
    (utf8 text).takeWhile (· ≠ 0) = utf8 (untilNul text) := by
  induction text with
  | nil => rfl
  | cons c text ih =>
    by_cases isNul : c = 0
    · subst isNul
      rfl
    · have noZero : ∀ b ∈ utf8Bytes c, b ≠ 0 := by
        intro b isByte
        unfold utf8Bytes at isByte
        split_ifs at isByte <;>
          simp only [mem_cons, not_mem_nil, or_false] at isByte <;> omega
      have here : untilNul (c :: text) = c :: untilNul text := by simp [untilNul, isNul]
      rw [here]
      simp only [utf8, flatMap_cons] at ih ⊢
      rw [takeWhile_append_of_pos, ih]
      intro b isByte
      exact decide_eq_true (noZero b isByte)

/-- Code points that need no surrogate pair are their own code units. -/
theorem utf16_of_basic {text : List Nat} (basic : ∀ c ∈ text, c < 0x10000) : utf16 text = text := by
  induction text with
  | nil => rfl
  | cons c text ih =>
    have here : utf16Units c = [c] := if_pos (basic c (by simp))
    have rest := ih (fun d isIn => basic d (by simp [isIn]))
    simp only [utf16, flatMap_cons, here] at rest ⊢
    rw [rest]
    rfl

theorem untilNul_eq_self {text : List Nat} (noNul : ∀ c ∈ text, c ≠ 0) : untilNul text = text := by
  unfold untilNul
  rw [takeWhile_eq_self_iff]
  intro c isIn
  exact decide_eq_true (noNul c isIn)

end Encodings

end AntRuntime.Text
