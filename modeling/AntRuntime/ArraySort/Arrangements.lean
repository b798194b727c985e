import AntRuntime.ArraySort.Ranks
import Mathlib.Data.List.Count

/-!
# When a sorted part is a sorted whole

The runtime sorts the part of an array that is in its buffer and leaves the rest
where it is. The lemmas say for which lists this is a sort of the whole, and
the same of the copies that `toSorted` sorts.
-/

namespace AntRuntime.ArraySort

open Objects Arrays Sorting List Option

variable {τ : Type} {order : Order τ} {sorted : List Value} {slots : List (Option Value)}

theorem pairwise_below {values members : List Value}
    (stable : ∀ le, order.Prescribes members le → StableSorted le values sorted) :
    sorted.Pairwise (order.Below members) := by
  rw [pairwise_iff_getElem]
  intro i j iBound jBound before le prescribes
  exact pairwise_iff_getElem.mp (stable le prescribes).pairwise i j iBound jBound before

theorem forall_defined (perm : sorted.Perm (definedValues slots)) :
    ∀ value ∈ sorted, value ≠ .undefined :=
  fun _ isIn => (mem_definedValues.mp (perm.mem_iff.mp isIn)).2

/-- The slots `held` are sorted in place of `head`, which they fill with
undefineds where they have no element. -/
theorem arranges_append_iff {head held : List (Option Value)} (tail : List (Option Value))
    (related : List.Forall₂ (fun x y => x = y ∨ y = some .undefined) head held)
    (perm : sorted.Perm (definedValues held))
    (stable : ∀ le, order.Prescribes (definedValues held) le →
      StableSorted le (definedValues held) sorted) :
    order.Arranges (head ++ tail) none (arrangement held none sorted ++ tail) ↔
      head = held ∧
        tail.Pairwise (Ranked (order.Below (definedValues (head ++ tail)))) ∧
        ∀ a ∈ head, ∀ b ∈ tail,
          Ranked (order.Below (definedValues (head ++ tail))) a b := by
  have heldPerm := arrangement_perm perm
  constructor
  · rintro ⟨final, finalPerm, finalStable, result_eq⟩
    have wholePerm : (arrangement held none sorted ++ tail).Perm (head ++ tail) := by
      rw [result_eq]
      exact arrangement_perm finalPerm
    have headPerm : held.Perm head :=
      heldPerm.symm.trans ((perm_append_right_iff tail).mp wholePerm)
    have same : head = held := (eq_of_forall₂_of_count_le related).2 (headPerm.count_eq _).le
    have ranked : (arrangement held none sorted ++ tail).Pairwise
        (Ranked (order.Below (definedValues (head ++ tail)))) := by
      rw [result_eq]
      exact ranked_arrangement _ (forall_defined finalPerm) (pairwise_below finalStable)
    obtain ⟨_, tailRanked, cross⟩ := pairwise_append.mp ranked
    refine ⟨same, tailRanked, fun a aMem => cross a ?_⟩
    rw [same] at aMem
    exact heldPerm.mem_iff.mpr aMem
  · rintro ⟨rfl, tailRanked, cross⟩
    have wholePerm : (arrangement head none sorted ++ tail).Perm (head ++ tail) :=
      heldPerm.append_right tail
    have ranked : (arrangement head none sorted ++ tail).Pairwise (Ranked fun _ _ => True) := by
      refine pairwise_append.mpr ⟨?_, ?_, ?_⟩
      · exact ranked_arrangement _ (forall_defined perm) (pairwise_of_forall fun _ _ => trivial)
      · exact tailRanked.imp (Ranked.imp fun _ _ _ => trivial)
      · intro a aMem b bMem
        exact (cross a (heldPerm.mem_iff.mp aMem) b bMem).imp fun _ _ _ => trivial
    have values_eq : definedValues (arrangement head none sorted ++ tail) =
        sorted ++ definedValues tail := by
      rw [definedValues_append, definedValues_arrangement head none (forall_defined perm) nofun]
    refine ⟨sorted ++ definedValues tail, ?_, ?_, ?_⟩
    · rw [definedValues_append]
      exact perm.append_right _
    · intro le prescribes
      have below : ∀ a ∈ definedValues head, ∀ b ∈ definedValues tail, le a b = true := by
        intro a aMem b bMem
        obtain ⟨aSlot, aDefined⟩ := mem_definedValues.mp aMem
        obtain ⟨bSlot, bDefined⟩ := mem_definedValues.mp bMem
        have ranks := cross _ aSlot _ bSlot
        rw [Ranked, if_neg aDefined] at ranks
        exact ranks bDefined le prescribes
      have ordered : (definedValues tail).Pairwise fun a b => le a b = true :=
        (pairwise_definedValues tailRanked).imp fun ranks => ranks le prescribes
      rw [definedValues_append] at prescribes ⊢
      exact (stable le (prescribes.mono fun value isIn =>
        mem_append_left _ isIn)).append below ordered
    · have whole := eq_arrangement_of_ranked ranked
      rw [values_eq] at whole
      rw [← arrangement_congr wholePerm]
      exact whole

theorem count_map_getD (slots : List (Option Value)) :
    (slots.map (getD · .undefined)).count .undefined =
      slots.count (some .undefined) + slots.count none := by
  induction slots using slotCases with
  | nil => rfl
  | hole slots ih | undefined slots ih =>
    simp [ih]
    omega
  | defined value slots isDefined ih => simp [ih, isDefined]

/-- A copy is sorted that has undefineds where it has no element. -/
theorem arranges_copy_iff {values : List Value}
    (related : List.Forall₂ (fun x y => x = y ∨ y = .undefined)
      (slots.map (getD · .undefined)) values)
    (perm : sorted.Perm (definedValues (values.map some)))
    (stable : ∀ le, order.Prescribes (definedValues (values.map some)) le →
      StableSorted le (definedValues (values.map some)) sorted) :
    order.Arranges slots (some .undefined)
        (arrangement (values.map some) none sorted) ↔
      slots.map (getD · .undefined) = values := by
  constructor
  · rintro ⟨final, finalPerm, _, result_eq⟩
    have same : sorted = final := by
      have values_eq := congrArg definedValues result_eq
      rwa [definedValues_arrangement _ none (forall_defined perm) nofun,
        definedValues_arrangement _ _ (forall_defined finalPerm)
          (fun _ isSome => (some.inj isSome).symm)] at values_eq
    have lengths := perm.length_eq.symm.trans (same ▸ finalPerm.length_eq)
    rw [definedValues_map_some, definedValues_eq_filter] at lengths
    refine (eq_of_forall₂_of_count_le related).2 ?_
    have slotsCount := count_add_length_filter (slots.map (getD · .undefined))
    have valuesCount := count_add_length_filter values
    have length_eq := related.length_eq
    omega
  · rintro rfl
    have values_eq : definedValues
        ((slots.map (getD · .undefined)).map some) = definedValues slots := by
      rw [definedValues_map_some, definedValues_eq_filter]
    rw [values_eq] at perm stable
    refine ⟨sorted, perm, stable, ?_⟩
    have noHole : ((slots.map (getD · .undefined)).map some).count none = 0 := by
      simp [count_eq_zero]
    have undefineds :
        ((slots.map (getD · .undefined)).map some).count (some .undefined) =
          slots.count (some .undefined) + slots.count none := by
      rw [← count_map_getD]
      exact count_map_of_injective _ some (some_injective _) _
    rw [arrangement, arrangement, noHole, undefineds]
    simp

/-- An array is sorted of which only what is beyond the first slots was
copied. -/
theorem arranges_uncopied_iff (positive : 0 < room) :
    order.Arranges slots (some .undefined)
        (replicate (min room slots.length) (some .undefined) ++ slots.drop room) ↔
      definedValues slots = [] ∧ ∀ i, room ≤ i → slots[i]? ≠ some none := by
  constructor
  · rintro ⟨final, finalPerm, _, result_eq⟩
    have noValues : definedValues slots = [] := by
      cases final with
      | nil => exact finalPerm.nil_eq.symm
      | cons value rest =>
        have isDefined := forall_defined finalPerm value (by simp)
        obtain ⟨isSlot, _⟩ := mem_definedValues.mp (finalPerm.mem_iff.mp (mem_cons_self ..))
        have nonempty := length_pos_of_mem isSlot
        obtain ⟨count, count_eq⟩ : ∃ count, min room slots.length = count + 1 :=
          ⟨min room slots.length - 1, by omega⟩
        rw [count_eq, replicate_succ, arrangement] at result_eq
        simp only [map_cons, cons_append, cons.injEq, some.injEq] at result_eq
        exact absurd result_eq.1.symm isDefined
    refine ⟨noValues, fun i beyond isHole => ?_⟩
    have holeIn : none ∈ slots.drop room := by
      refine mem_of_getElem? (i := i - room) ?_
      rw [getElem?_drop, Nat.add_sub_cancel' beyond]
      exact isHole
    have inResult := mem_append_right
      (replicate (min room slots.length) (some Value.undefined)) holeIn
    rw [result_eq] at inResult
    simp [arrangement] at inResult
  · rintro ⟨noValues, noHoles⟩
    have stable : ∀ le : Value → Value → Bool, StableSorted le [] [] :=
      fun le => ⟨[], List.Perm.nil, List.Pairwise.nil, rfl⟩
    refine ⟨[], by rw [noValues], fun le _ => by rw [noValues]; exact stable le, ?_⟩
    have total : slots.count (some .undefined) + slots.count none = slots.length := by
      have all := count_add_length_filter (slots.map (getD · .undefined))
      rw [← definedValues_eq_filter, noValues, count_map_getD, length_map] at all
      exact all
    have arrangement_eq : arrangement slots (some .undefined) [] =
        replicate slots.length (some .undefined) := by
      rw [arrangement, ← replicate_add, total]
      rfl
    rw [arrangement_eq]
    refine eq_replicate_iff.mpr ⟨?_, ?_⟩
    · rw [length_append, length_replicate, length_drop]
      omega
    · intro slot isIn
      rcases mem_append.mp isIn with isCopied | isKept
      · exact eq_of_mem_replicate isCopied
      · cases slot with
        | none =>
          obtain ⟨i, isAt⟩ := mem_iff_getElem?.mp isKept
          rw [getElem?_drop] at isAt
          exact absurd isAt (noHoles (room + i) (by omega))
        | some value =>
          by_contra isDefined
          have isIn : value ∈ definedValues slots :=
            mem_definedValues.mpr ⟨mem_of_mem_drop isKept, by
              rintro rfl
              exact isDefined rfl⟩
          rw [noValues] at isIn
          cases isIn

end AntRuntime.ArraySort
