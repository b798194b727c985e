import Mathlib.Data.List.Basic
import Mathlib.Order.Nat

/-!
# Paged listings

A server hands out a list page by page: it is asked for what lies behind a position, and a
page is as much of that as fits. A client goes on from the position of the last element it got.
-/

namespace AntRuntime.Machine

open List

variable {α Budget : Type} (position : α → Nat) (page : Budget → Nat → List α)

/-- What the pages hold together when one of them is empty. -/
def collect : List Budget → Nat → Option (List α)
  | [], _ => none
  | budget :: budgets, offset =>
    match (page budget offset).getLast? with
    | none => some []
    | some last => (collect budgets (position last)).map (page budget offset ++ ·)

/-- The part of a list behind an offset. -/
structure Behind (all : List α) (offset : Nat) (rest : List α) : Prop where
  increasing : all.Pairwise (position · < position ·)
  split : ∃ done, all = done ++ rest ∧ ∀ x ∈ done, position x ≤ offset
  later : ∀ x ∈ rest, offset < position x

variable {position page} {all rest : List α} {budgets : List Budget}

theorem Behind.filter_eq (behind : Behind position all offset rest) :
    all.filter (offset < position ·) = rest := by
  obtain ⟨-, ⟨done, rfl, before⟩, later⟩ := behind
  rw [filter_append, filter_eq_nil_iff.mpr (by simpa using before),
    filter_eq_self.mpr (by simpa using later), nil_append]

theorem Behind.next {front : List α} {last : α}
    (behind : Behind position all offset (front ++ [last] ++ rest)) :
    Behind position all (position last) rest := by
  obtain ⟨increasing, ⟨done, rfl, before⟩, later⟩ := behind
  have sorted := (pairwise_append.mp increasing).2.1
  simp only [pairwise_append, mem_append, mem_singleton] at sorted
  refine ⟨increasing, ⟨done ++ (front ++ [last]), by simp, ?_⟩, ?_⟩
  · grind
  · exact sorted.2.2 last (.inr rfl)

/-- If a page is what fits of the part behind its offset, and at least one element does, then the
client gets all of that part, with no more pages than elements before the empty one. -/
theorem Behind.collect_eq (behind : Behind position all offset rest)
    (pages : ∀ budget ∈ budgets, ∀ offset rest, Behind position all offset rest →
      page budget offset <+: rest ∧ (page budget offset = [] → rest = []))
    (enough : rest.length < budgets.length) :
    collect position page budgets offset = some rest := by
  induction budgets generalizing offset rest with
  | nil => cases enough
  | cons budget budgets ih =>
    obtain ⟨⟨left, rfl⟩, progress⟩ := pages budget mem_cons_self offset rest behind
    rw [collect]
    rcases eq_nil_or_concat' (page budget offset) with empty | ⟨front, last, got⟩
    · simpa [empty] using progress empty
    · rw [got] at behind enough ⊢
      simp only [length_append, length_cons] at enough
      have others := ih behind.next (fun budget isIn => pages budget (.tail _ isIn)) (by omega)
      simp [others]

end AntRuntime.Machine
