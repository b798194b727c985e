import AntRuntime.ArraySort.Orders
import Mathlib.Data.List.Perm.Basic

/-!
# Lists in order

The merge sort of the runtime under a fitting order, and lists of slots in
which defined values come first, then undefineds, then holes.
-/

namespace AntRuntime.ArraySort

open Objects Arrays Sorting List

variable {τ : Type}

section Comparisons

variable {order : Order τ} {pool : Value → Prop} {values : List Value}
variable {le : Value → Value → Bool}

/-- The comparison that the merge sort goes by. -/
def Order.before (order : Order τ) : Compare Value (World (τ × Option Nat)) :=
  match order with
  | .comparator _ => World.compareLe order.environment 0
  | .strings _ _ => fun a b world =>
    (World.strcmpLe (World.sortKey order.environment a) (World.sortKey order.environment b), world)

/-- The sort of the values is the merge sort by the comparison. -/
theorem sortedValues_eq (order : Order τ) (values : List Value) (world : World (τ × Option Nat)) :
    (if values.length ≤ 1 then (values, world)
      else world.sortValues order.environment order.argument values) =
      mergeSort order.before values world := by
  split_ifs with short
  · rcases values with _ | ⟨x, _ | ⟨y, values⟩⟩
    · rfl
    · rfl
    · simp at short
  · cases order with
    | comparator compare => rfl
    | strings text shown =>
      simp only [World.sortValues, mergeSort_map, map_map]
      refine Prod.ext ?_ rfl
      exact map_id _

/-- A comparison does not touch the array. -/
theorem Order.before_object (order : Order τ) (a b : Value) (world : World (τ × Option Nat)) :
    (order.before a b world).2.object = world.object := by
  cases order with
  | strings text shown => rfl
  | comparator compare =>
    simp only [Order.before, World.compareLe, Order.environment]
    cases (compare world.outside.1 a b).1 <;> rfl

/-- A comparison records no error. -/
theorem Order.Fits.before_keeps
    (fits : order.Fits pool) (members : ∀ value ∈ values, pool value ∧ value ≠ .undefined) :
    ∀ a ∈ values, ∀ b ∈ values, ∀ world : World (τ × Option Nat),
      (order.before a b world).2.outside.2 = world.outside.2 := by
  intro a aMem b bMem world
  cases order with
  | strings text shown => rfl
  | comparator compare =>
    obtain ⟨noError, _⟩ := fits a b world.outside.1 (members a aMem).1
      (members a aMem).2 (members b bMem).1 (members b bMem).2
    simp only [Order.before, World.compareLe, Order.environment]
    cases outcome : (compare world.outside.1 a b).1 with
    | number n | converted n => simp [Outcome.answer, Outcome.error]
    | unconvertible error | threw error => simp [outcome, Outcome.error] at noError

/-- An order prescribed for some values is prescribed for fewer. -/
theorem Order.Prescribes.mono {fewer : List Value} (prescribes : order.Prescribes values le)
    (contained : ∀ value ∈ fewer, value ∈ values) :
    order.Prescribes fewer le := by
  cases order with
  | comparator compare =>
    exact ⟨fun a aMem b bMem =>
        prescribes.1 a (contained a aMem) b (contained b bMem),
      fun a aMem b bMem c cMem =>
        prescribes.2 a (contained a aMem) b (contained b bMem) c (contained c cMem)⟩
  | strings text shown =>
    exact fun a aMem b bMem => prescribes a (contained a aMem) b (contained b bMem)

/-- Under a fitting order the comparison answers as prescribed. -/
theorem Order.Fits.ordersBy (fits : order.Fits pool) (state : τ)
    (members : ∀ value ∈ values, pool value ∧ value ≠ .undefined)
    (prescribes : order.Prescribes values le) :
    OrdersBy order.before le values := by
  cases order with
  | comparator compare =>
    obtain ⟨consistent, trans⟩ := id prescribes
    refine ⟨?_, ?_, trans⟩
    · intro a aMem b bMem world
      obtain ⟨n, required, nonpositive, _⟩ := consistent a aMem b bMem world.outside.1
      simp only [Order.before, World.compareLe, Order.environment]
      cases outcome : (compare world.outside.1 a b).1 with
      | number m =>
        simp only [outcome, Outcome.required, Option.some.injEq] at required
        subst required
        simp [Outcome.answer, nonpositive]
      | converted m =>
        simp only [outcome, Outcome.required, Option.some.injEq] at required
        subst required
        -- the runtime takes the result as zero, so it must not be positive
        have notPositive : m ≤ 0 := by
          by_contra positive
          refine (fits a b world.outside.1 (members a aMem).1 (members a aMem).2
            (members b bMem).1 (members b bMem).2).2 m outcome (by omega) le ?_
          refine prescribes.mono ?_
          intro value isIn
          simp only [mem_cons, not_mem_nil, or_false] at isIn
          rcases isIn with rfl | rfl <;> assumption
        simp [Outcome.answer, nonpositive.mp notPositive]
      | unconvertible error | threw error => simp [outcome, Outcome.required] at required
    · intro a aMem b bMem
      obtain ⟨n, _, nonpositive, negative⟩ := consistent a aMem b bMem state
      by_cases notPositive : n ≤ 0
      · exact Or.inl (nonpositive.mp notPositive)
      · right
        rw [← Bool.not_eq_false, ← negative]
        omega
  | strings text shown =>
    have answers : ∀ a ∈ values, ∀ b ∈ values,
        Text.lexLe (World.sortKey (Order.strings text shown : Order τ).environment a)
          (World.sortKey (Order.strings text shown : Order τ).environment b) =
          le a b := by
      intro a aMem b bMem
      obtain ⟨s, t, aText, bText, fit⟩ := fits a b (members a aMem).1
        (members a aMem).2 (members b bMem).1 (members b bMem).2
      obtain ⟨s', t', aText', bText', required⟩ := prescribes a aMem b bMem
      rw [aText, Except.ok.injEq] at aText'
      rw [bText, Except.ok.injEq] at bText'
      simp only [World.sortKey, Order.environment, Text.takeWhile_utf8, Text.lexLe_utf8]
      rw [fit, required, aText', bText']
    refine ⟨fun a aMem b bMem _ => answers a aMem b bMem, ?_, ?_⟩
    · intro a aMem b bMem
      rw [← answers a aMem b bMem, ← answers b bMem a aMem]
      exact Text.lexLe_total _ _
    · intro a aMem b bMem c cMem ab bc
      rw [← answers a aMem b bMem] at ab
      rw [← answers b bMem c cMem] at bc
      rw [← answers a aMem c cMem]
      exact Text.lexLe_trans ab bc

/-- Sorting the values leaves the object as it is. -/
theorem mergeSort_object (order : Order τ) (values : List Value) (world : World (τ × Option Nat)) :
    (mergeSort order.before values world).2.object = world.object :=
  mergeSort_state (R := fun before after : World (τ × Option Nat) => after.object = before.object)
    (fun _ => rfl) (fun _ _ _ first second => second.trans first) values
    (fun a _ b _ => order.before_object a b) world

/-- The runtime's sort of some values. -/
theorem Order.Fits.sortValues
    (fits : order.Fits pool) (members : ∀ value ∈ values, pool value ∧ value ≠ .undefined)
    (world : World (τ × Option Nat)) :
    let result := mergeSort order.before values world
    (∀ le, order.Prescribes values le → StableSorted le values result.1) ∧
      result.2.outside.2 = world.outside.2 := by
  intro result
  refine ⟨?_, ?_⟩
  · intro le prescribes
    exact mergeSort_stable _ _ (fits.ordersBy world.outside.1 members prescribes)
  · exact mergeSort_state (R := fun before after : World (τ × Option Nat) =>
        after.outside.2 = before.outside.2)
      (fun _ => rfl) (fun _ _ _ first second => second.trans first) values
      (fits.before_keeps members) world

end Comparisons

section Lists

variable {slots : List (Option Value)} {below : Value → Value → Prop} {sorted : List Value}

@[simp] theorem definedValues_nil : definedValues [] = [] := rfl

@[simp] theorem definedValues_none (slots : List (Option Value)) :
    definedValues (none :: slots) = definedValues slots := rfl

@[simp] theorem definedValues_undefined (slots : List (Option Value)) :
    definedValues (some .undefined :: slots) = definedValues slots := rfl

theorem definedValues_some {value : Value} (defined : value ≠ .undefined)
    (slots : List (Option Value)) :
    definedValues (some value :: slots) = value :: definedValues slots := by
  simp [definedValues, defined]

theorem definedValues_append (head tail : List (Option Value)) :
    definedValues (head ++ tail) = definedValues head ++ definedValues tail := by
  simp [definedValues]

theorem definedValues_map_some (values : List Value) :
    definedValues (values.map some) = values.filter (· ≠ .undefined) := by
  simp [definedValues]

theorem mem_definedValues {value : Value} :
    value ∈ definedValues slots ↔ some value ∈ slots ∧ value ≠ .undefined := by
  simp [definedValues]

/-- A list of slots is taken apart by its first one. -/
theorem slotCases {motive : List (Option Value) → Prop} (nil : motive [])
    (hole : ∀ slots, motive slots → motive (none :: slots))
    (undefined : ∀ slots, motive slots → motive (some .undefined :: slots))
    (defined : ∀ value slots, value ≠ .undefined → motive slots →
      motive (some value :: slots))
    (slots : List (Option Value)) : motive slots := by
  induction slots with
  | nil => exact nil
  | cons head slots ih =>
    rcases head with _ | value
    · exact hole slots ih
    · by_cases isUndefined : value = .undefined
      · subst isUndefined
        exact undefined slots ih
      · exact defined value slots isUndefined ih

/-- A hole counts as undefined. -/
theorem definedValues_eq_filter (slots : List (Option Value)) :
    definedValues slots = (slots.map (Option.getD · .undefined)).filter (· ≠ .undefined) := by
  induction slots using slotCases with
  | nil => rfl
  | hole slots ih | undefined slots ih => simpa using ih
  | defined value slots isDefined ih => simpa [definedValues_some isDefined, isDefined] using ih

/-- The arrangement is one of the same slots. -/
theorem arrangement_definedValues (slots : List (Option Value)) :
    (arrangement slots none (definedValues slots)).Perm slots := by
  induction slots using slotCases with
  | nil => exact List.Perm.nil
  | hole slots ih =>
    refine List.Perm.trans ?_ (ih.cons none)
    simp only [arrangement, count_cons_self, ← append_assoc]
    exact perm_middle
  | undefined slots ih =>
    refine List.Perm.trans ?_ (ih.cons (some .undefined))
    simp only [arrangement, count_cons_self]
    exact perm_middle
  | defined value slots isDefined ih =>
    refine List.Perm.trans ?_ (ih.cons (some value))
    simp [arrangement, definedValues_some isDefined, isDefined]

/-- An arrangement has the contents of the slots. -/
theorem arrangement_perm (perm : sorted.Perm (definedValues slots)) :
    (arrangement slots none sorted).Perm slots :=
  ((perm.map some).append_right _).trans (arrangement_definedValues slots)

/-- An arrangement does not depend on the order of the slots. -/
theorem arrangement_congr
    {others : List (Option Value)} (perm : slots.Perm others) (hole : Option Value)
    (sorted : List Value) :
    arrangement slots hole sorted = arrangement others hole sorted := by
  rw [arrangement, arrangement, perm.count_eq, perm.count_eq]

theorem definedValues_eq_nil (undefineds : ∀ value, some value ∈ slots → value = .undefined) :
    definedValues slots = [] := by
  rw [eq_nil_iff_forall_not_mem]
  intro value isIn
  obtain ⟨isSlot, isDefined⟩ := mem_definedValues.mp isIn
  exact isDefined (undefineds value isSlot)

/-- A list that is ranked is its own arrangement. -/
theorem eq_arrangement_of_ranked (ranked : slots.Pairwise (Ranked below)) :
    slots = arrangement slots none (definedValues slots) := by
  induction slots using slotCases with
  | nil => rfl
  | hole slots ih =>
    obtain ⟨first, _⟩ := pairwise_cons.mp ranked
    -- only holes follow a hole
    have holes : slots = replicate slots.length none := by
      refine eq_replicate_iff.mpr ⟨rfl, ?_⟩
      intro slot isIn
      cases slot with
      | none => rfl
      | some value => exact (first _ isIn).elim
    have noValues : definedValues slots = [] := by
      refine definedValues_eq_nil fun value isIn => ?_
      rw [holes] at isIn
      cases eq_of_mem_replicate isIn
    simp only [arrangement, definedValues_none, noValues]
    rw [holes]
    simp [replicate_succ, count_replicate]
  | undefined slots ih =>
    obtain ⟨first, rest⟩ := pairwise_cons.mp ranked
    have noValues : definedValues slots = [] := by
      refine definedValues_eq_nil fun value isIn => ?_
      have ranks := first _ isIn
      simpa [Ranked] using ranks
    have tail := ih rest
    simp only [arrangement, definedValues_undefined, noValues] at tail ⊢
    nth_rewrite 1 [tail]
    simp [replicate_succ]
  | defined value slots isDefined ih =>
    obtain ⟨_, rest⟩ := pairwise_cons.mp ranked
    have tail := ih rest
    nth_rewrite 1 [tail]
    simp [arrangement, definedValues_some isDefined, isDefined]

/-- An arrangement is ranked if its values are in order. -/
theorem ranked_arrangement
    (slots : List (Option Value)) (isDefined : ∀ value ∈ sorted, value ≠ .undefined)
    (ordered : sorted.Pairwise below) :
    (arrangement slots none sorted).Pairwise (Ranked below) := by
  refine pairwise_append.mpr ⟨?_, pairwise_append.mpr ⟨?_, ?_, ?_⟩, ?_⟩
  · refine pairwise_map.mpr (ordered.imp_of_mem ?_)
    intro a b aMem _ ab
    rw [Ranked, if_neg (isDefined a aMem)]
    exact fun _ => ab
  · refine pairwise_replicate.mpr (Or.inr ?_)
    rw [Ranked, if_pos rfl]
  · exact pairwise_replicate.mpr (Or.inr trivial)
  · intro a aMem b bMem
    rw [eq_of_mem_replicate aMem, eq_of_mem_replicate bMem]
    trivial
  · intro a aMem b bMem
    obtain ⟨value, isIn, rfl⟩ := mem_map.mp aMem
    rcases mem_append.mp bMem with isUndefined | isHole
    · rw [eq_of_mem_replicate isUndefined, Ranked, if_neg (isDefined value isIn)]
      exact fun absurd => (absurd rfl).elim
    · rw [eq_of_mem_replicate isHole]
      trivial

/-- Only the sorted values of an arrangement are defined. -/
theorem definedValues_arrangement (slots : List (Option Value)) (hole : Option Value)
    (isDefined : ∀ value ∈ sorted, value ≠ .undefined)
    (noValue : ∀ value, hole = some value → value = .undefined) :
    definedValues (arrangement slots hole sorted) = sorted := by
  have rest : definedValues (replicate (slots.count (some .undefined)) (some .undefined) ++
        replicate (slots.count none) hole) = [] := by
    refine definedValues_eq_nil fun value isIn => ?_
    rcases mem_append.mp isIn with isUndefined | isHole
    · exact Option.some.inj (eq_of_mem_replicate isUndefined)
    · exact noValue value (eq_of_mem_replicate isHole).symm
  rw [arrangement, definedValues_append, rest, append_nil, definedValues_map_some, filter_eq_self]
  intro value isIn
  exact decide_eq_true (isDefined value isIn)

theorem Ranked.imp {other : Value → Value → Prop} (implies : ∀ a b, below a b → other a b) :
    ∀ {a b : Option Value}, Ranked below a b → Ranked other a b
  | none, none, _ => trivial
  | some _, none, _ => trivial
  | some a, some b, ranks => by
      rw [Ranked] at ranks ⊢
      split_ifs at ranks ⊢ with isUndefined
      · exact ranks
      · exact fun isDefined => implies a b (ranks isDefined)

/-- The defined values of a ranked list are in order. -/
theorem pairwise_definedValues (ranked : slots.Pairwise (Ranked below)) :
    (definedValues slots).Pairwise below := by
  rw [eq_arrangement_of_ranked ranked] at ranked
  obtain ⟨values, _, _⟩ := pairwise_append.mp ranked
  refine (pairwise_map.mp values).imp_of_mem ?_
  intro a b aMem bMem ranks
  rw [Ranked, if_neg (mem_definedValues.mp aMem).2] at ranks
  exact ranks (mem_definedValues.mp bMem).2

/-- A list that differs from another only in undefineds at places of defined
values has more undefineds. -/
theorem eq_of_forall₂_of_count_le {α : Type} [BEq α] [LawfulBEq α] {filler : α} {xs ys : List α}
    (related : List.Forall₂ (fun x y => x = y ∨ y = filler) xs ys) :
    xs.count filler ≤ ys.count filler ∧ (ys.count filler ≤ xs.count filler → xs = ys) := by
  induction related with
  | nil => exact ⟨le_rfl, fun _ => rfl⟩
  | @cons x y xs ys here _ ih =>
    obtain ⟨counts, equal⟩ := ih
    by_cases same : x = y
    · subst same
      simp only [count_cons, Nat.add_le_add_iff_right, cons.injEq, true_and]
      exact ⟨counts, equal⟩
    · obtain rfl := here.resolve_left same
      rw [count_cons_of_ne same, count_cons_self]
      exact ⟨by omega, fun fewer => by omega⟩

end Lists

end AntRuntime.ArraySort
