import Mathlib.Algebra.Group.Nat.Defs
import Mathlib.Data.List.Basic

/-!
# Bottom-up merge sort

Neighbouring blocks of a list are merged, and the width of the blocks doubles
until one is left. The comparison may change a state, as one made by user code
does. Whatever it answers, the result is a permutation; if its answers are
those of a total preorder, the result is sorted and ties keep their order.
-/

namespace AntRuntime.Sorting

open List

/-- A comparison: whether the first of two elements is taken before the
second, and the state after it. -/
abbrev Compare (α σ : Type) := α → α → σ → Bool × σ

section Definitions

variable {α σ : Type} (before : Compare α σ)

/-- The merge of `x :: xs` with a list, given the merge of `xs`. -/
def mergeCons
    (x : α) (xs : List α)
    (mergeRest : List α → σ → List α × σ) : List α → σ → List α × σ
  | [], s => (x :: xs, s)
  | y :: ys, s =>
    match before x y s with
    | (true, s) =>
      let (merged, s) := mergeRest (y :: ys) s
      (x :: merged, s)
    | (false, s) =>
      let (merged, s) := mergeCons x xs mergeRest ys s
      (y :: merged, s)

/-- The merge of two lists. -/
def merge : List α → List α → σ → List α × σ
  | [], ys, s => (ys, s)
  | x :: xs, ys, s => mergeCons before x xs (merge xs) ys s

/-- One pass: each two neighbouring blocks of the width are merged. The number
of elements bounds the number of merges. -/
def passFrom (width : Nat) : Nat → List α → σ → List α × σ
  | 0, xs, s => (xs, s)
  | rounds + 1, xs, s =>
    if xs.length ≤ width then (xs, s)
    else
      let (merged, s) := merge before (xs.take width) ((xs.drop width).take width) s
      let (rest, s) := passFrom width rounds (xs.drop (width + width)) s
      (merged ++ rest, s)

/-- One pass over a list. -/
def pass (width : Nat) (xs : List α) (s : σ) : List α × σ :=
  passFrom before width xs.length xs s

/-- Passes of growing width. -/
def sortFrom : Nat → Nat → List α → σ → List α × σ
  | 0, _, xs, s => (xs, s)
  | rounds + 1, width, xs, s =>
    if width < xs.length then
      let (sorted, s) := pass before width xs s
      sortFrom rounds (width * 2) sorted s
    else (xs, s)

/-- Bottom-up merge sort. -/
def mergeSort (xs : List α) (s : σ) : List α × σ :=
  sortFrom before xs.length 1 xs s

end Definitions

section Permutations

variable {α σ : Type} (before : Compare α σ)

/-- A merge has the members of both lists. -/
theorem merge_perm (xs ys : List α) (s : σ) : (merge before xs ys s).1.Perm (xs ++ ys) := by
  induction xs generalizing ys s with
  | nil => exact List.Perm.refl ys
  | cons x xs ih =>
    rw [merge]
    induction ys generalizing s with
    | nil =>
      rw [append_nil]
      exact List.Perm.refl _
    | cons y ys tailHypothesis =>
      rw [mergeCons]
      split
      · exact (ih _ _).cons x
      · exact ((tailHypothesis _).cons y).trans perm_middle.symm

theorem two_blocks (width : Nat) (xs : List α) :
    xs.take width ++ (xs.drop width).take width ++ xs.drop (width + width) = xs := by
  rw [append_assoc, ← drop_drop, take_append_drop, take_append_drop]

/-- A pass keeps the members. -/
theorem passFrom_perm (width rounds : Nat) (xs : List α) (s : σ) :
    (passFrom before width rounds xs s).1.Perm xs := by
  induction rounds generalizing xs s with
  | zero => exact List.Perm.refl xs
  | succ rounds ih =>
    rw [passFrom]
    split
    · exact List.Perm.refl xs
    · have merged := (merge_perm before (xs.take width) ((xs.drop width).take width) s).append
        (ih (xs.drop (width + width))
          (merge before (xs.take width) ((xs.drop width).take width) s).2)
      rwa [two_blocks] at merged

/-- All passes keep the members. -/
theorem sortFrom_perm (rounds width : Nat) (xs : List α) (s : σ) :
    (sortFrom before rounds width xs s).1.Perm xs := by
  induction rounds generalizing width xs s with
  | zero => exact List.Perm.refl xs
  | succ rounds ih =>
    rw [sortFrom]
    split
    · exact (ih _ _ _).trans (passFrom_perm _ _ _ _ _)
    · exact List.Perm.refl xs

theorem mergeSort_perm (xs : List α) (s : σ) : (mergeSort before xs s).1.Perm xs :=
  sortFrom_perm before _ _ _ _

end Permutations

section Effects

variable {α σ : Type} {before : Compare α σ} {R : σ → σ → Prop}

theorem mem_append_cons {xs ys : List α} {y z : α} (isIn : z ∈ xs ++ ys) : z ∈ xs ++ y :: ys :=
  mem_append.mpr ((mem_append.mp isIn).imp_right (mem_cons_of_mem y))

variable (refl : ∀ s, R s s) (trans : ∀ s t u, R s t → R t u → R s u)

include refl trans

/-- Whatever the comparisons of members keep, the merge keeps. -/
theorem merge_state
    (xs ys : List α) (kept : ∀ x ∈ xs ++ ys, ∀ y ∈ xs ++ ys, ∀ s, R s (before x y s).2) (s : σ) :
    R s (merge before xs ys s).2 := by
  induction xs generalizing ys s with
  | nil => exact refl s
  | cons x xs ih =>
    rw [merge]
    induction ys generalizing s with
    | nil => exact refl s
    | cons y ys tailHypothesis =>
      have first := kept x (by simp) y (by simp) s
      rw [mergeCons]
      split
      · rename_i after answered
        rw [answered] at first
        refine trans _ _ _ first (ih _ ?_ _)
        intro z zMem w wMem
        exact kept z (mem_cons_of_mem x zMem) w (mem_cons_of_mem x wMem)
      · rename_i after answered
        rw [answered] at first
        refine trans _ _ _ first (tailHypothesis ?_ _)
        intro z zMem w wMem
        exact kept z (mem_append_cons zMem) w (mem_append_cons wMem)

/-- A pass keeps what every comparison keeps of the state. -/
theorem passFrom_state
    (width rounds : Nat) (xs : List α) (kept : ∀ x ∈ xs, ∀ y ∈ xs, ∀ s, R s (before x y s).2)
    (s : σ) :
    R s (passFrom before width rounds xs s).2 := by
  induction rounds generalizing xs s with
  | zero => exact refl s
  | succ rounds ih =>
    rw [passFrom]
    split
    · exact refl s
    · have blocks : ∀ x ∈ xs.take width ++ (xs.drop width).take width, x ∈ xs := by
        intro x xMem
        rcases mem_append.mp xMem with xLeft | xRight
        · exact mem_of_mem_take xLeft
        · exact mem_of_mem_drop (mem_of_mem_take xRight)
      refine trans _ _ _ (merge_state refl trans _ _ ?_ s) (ih _ ?_ _)
      · exact fun x xMem y yMem => kept x (blocks x xMem) y (blocks y yMem)
      · exact fun x xMem y yMem => kept x (mem_of_mem_drop xMem) y (mem_of_mem_drop yMem)

/-- All passes keep what every comparison keeps of the state. -/
theorem sortFrom_state
    (rounds width : Nat) (xs : List α) (kept : ∀ x ∈ xs, ∀ y ∈ xs, ∀ s, R s (before x y s).2)
    (s : σ) :
    R s (sortFrom before rounds width xs s).2 := by
  induction rounds generalizing width xs s with
  | zero => exact refl s
  | succ rounds ih =>
    rw [sortFrom]
    split
    · have members := fun x => (passFrom_perm before width xs.length xs s).mem_iff (a := x)
      refine trans _ _ _ (passFrom_state refl trans _ _ _ kept s) (ih _ _ ?_ _)
      exact fun x xMem y yMem => kept x ((members x).mp xMem) y ((members y).mp yMem)
    · exact refl s

/-- Whatever the comparisons of members keep, the sort keeps. -/
theorem mergeSort_state
    (xs : List α) (kept : ∀ x ∈ xs, ∀ y ∈ xs, ∀ s, R s (before x y s).2) (s : σ) :
    R s (mergeSort before xs s).2 :=
  sortFrom_state refl trans _ _ _ kept _

end Effects

section Maps

variable {α β σ : Type} {before : Compare β σ} (f : α → β)

/-- The comparison of images. -/
def Compare.comap (before : Compare β σ) (f : α → β) : Compare α σ :=
  fun x y s => before (f x) (f y) s

/-- Merging images is merging by what the comparison says of the images. -/
theorem merge_map (xs ys : List α) (s : σ) :
    merge before (xs.map f) (ys.map f) s =
      ((merge (before.comap f) xs ys s).1.map f,
        (merge (before.comap f) xs ys s).2) := by
  induction xs generalizing ys s with
  | nil => rfl
  | cons x xs ih =>
    simp only [map_cons, merge]
    induction ys generalizing s with
    | nil => rfl
    | cons y ys tailHypothesis =>
      simp only [map_cons, mergeCons, Compare.comap]
      rcases before (f x) (f y) s with ⟨_ | _, after⟩
      · simp only [tailHypothesis after, map_cons]
      · simp only [← map_cons, ih (y :: ys) after]

/-- A pass over images is a pass by what the comparison says of the images. -/
theorem passFrom_map (width rounds : Nat) (xs : List α) (s : σ) :
    passFrom before width rounds (xs.map f) s =
      ((passFrom (before.comap f) width rounds xs s).1.map f,
        (passFrom (before.comap f) width rounds xs s).2) := by
  induction rounds generalizing xs s with
  | zero => rfl
  | succ rounds ih =>
    simp only [passFrom, length_map]
    split
    · rfl
    · simp only [← map_take, ← map_drop, merge_map, ih, map_append]

/-- Sorting images is sorting by what the comparison says of the images. -/
theorem sortFrom_map (rounds width : Nat) (xs : List α) (s : σ) :
    sortFrom before rounds width (xs.map f) s =
      ((sortFrom (before.comap f) rounds width xs s).1.map f,
        (sortFrom (before.comap f) rounds width xs s).2) := by
  induction rounds generalizing width xs s with
  | zero => rfl
  | succ rounds ih =>
    simp only [sortFrom, pass, length_map]
    split
    · simp only [passFrom_map, ih]
    · rfl

/-- Sorting images is sorting by images. -/
theorem mergeSort_map (xs : List α) (s : σ) :
    mergeSort before (xs.map f) s =
      ((mergeSort (before.comap f) xs s).1.map f,
        (mergeSort (before.comap f) xs s).2) := by
  simp [mergeSort, sortFrom_map]

end Maps

section Sortedness

variable {α σ : Type} {before : Compare α σ} {le : α → α → Bool}
variable {tie : α → α → Prop} {xs : List α}

/-- In order, and in the tie order if the elements are equivalent. -/
def InOrder (le : α → α → Bool) (tie : α → α → Prop) (x y : α) : Prop :=
  le x y = true ∧ (le y x = true → tie x y)

/-- The answers of the comparison on the members of a list are those of a
total preorder. -/
structure OrdersBy (before : Compare α σ) (le : α → α → Bool) (xs : List α) :
    Prop where
  answers : ∀ x ∈ xs, ∀ y ∈ xs, ∀ s, (before x y s).1 = le x y
  total : ∀ x ∈ xs, ∀ y ∈ xs, le x y = true ∨ le y x = true
  trans : ∀ x ∈ xs, ∀ y ∈ xs, ∀ z ∈ xs, le x y = true → le y z = true → le x z = true

/-- A comparison that orders images orders what they are images of. -/
theorem OrdersBy.comap {β : Type} {ys : List β} (orders : OrdersBy before le xs) (f : β → α)
    (contained : ∀ y ∈ ys, f y ∈ xs) :
    OrdersBy (before.comap f) (fun x y => le (f x) (f y)) ys where
  answers x xMem y yMem := orders.answers _ (contained x xMem) _ (contained y yMem)
  total x xMem y yMem := orders.total _ (contained x xMem) _ (contained y yMem)
  trans x xMem y yMem z zMem :=
    orders.trans _ (contained x xMem) _ (contained y yMem) _ (contained z zMem)

/-- A comparison that orders a list orders its members in any other list. -/
theorem OrdersBy.mono
    {ys : List α} (orders : OrdersBy before le xs) (contained : ∀ x ∈ ys, x ∈ xs) :
    OrdersBy before le ys :=
  orders.comap id contained

/-- The merge of two ordered lists is ordered. -/
theorem merge_pairwise (xs ys : List α) (s : σ) (orders : OrdersBy before le (xs ++ ys))
    (xsOrdered : xs.Pairwise (InOrder le tie)) (ysOrdered : ys.Pairwise (InOrder le tie))
    (ties : ∀ x ∈ xs, ∀ y ∈ ys, tie x y) :
    (merge before xs ys s).1.Pairwise (InOrder le tie) := by
  induction xs generalizing ys s with
  | nil => exact ysOrdered
  | cons x xs ih =>
    rw [merge]
    induction ys generalizing s with
    | nil => exact xsOrdered
    | cons y ys tailHypothesis =>
      have xMem : x ∈ x :: xs ++ y :: ys := by simp
      have yMem : y ∈ x :: xs ++ y :: ys := by simp
      obtain ⟨xFirst, xsRest⟩ := pairwise_cons.mp xsOrdered
      obtain ⟨yFirst, ysRest⟩ := pairwise_cons.mp ysOrdered
      have answer := orders.answers x xMem y yMem s
      rw [mergeCons]
      split
      · rename_i after answered
        rw [answered] at answer
        -- `x` is at most `y`, and `y` is at most the rest of its list.
        have xLe : ∀ z ∈ y :: ys, le x z = true := by
          intro z zMem
          rcases mem_cons.mp zMem with rfl | zRest
          · exact answer.symm
          · exact orders.trans x xMem y yMem z (by simp [zRest]) answer.symm (yFirst z zRest).1
        refine pairwise_cons.mpr ⟨?_, ?_⟩
        · intro z zMem
          rcases mem_append.mp ((merge_perm _ _ _ _).mem_iff.mp zMem) with
            zLeft | zRight
          · exact xFirst z zLeft
          · exact ⟨xLe z zRight, fun _ => ties x (by simp) z zRight⟩
        · refine ih (y :: ys) after ?_ xsRest ysOrdered ?_
          · exact orders.mono fun z => mem_cons_of_mem x
          · intro z zMem
            exact ties z (by simp [zMem])
      · rename_i after answered
        rw [answered] at answer
        -- `y` is strictly before `x`, hence before the rest of its list.
        have yLe : le y x = true := (orders.total x xMem y yMem).resolve_left (by simp [← answer])
        have yStrict : ∀ z ∈ x :: xs, InOrder le tie y z := by
          intro z zMem
          have zMem' : z ∈ x :: xs ++ y :: ys := mem_append_left _ zMem
          have xLe : le x z = true := by
            rcases mem_cons.mp zMem with rfl | zRest
            · exact (orders.total z zMem' z zMem').elim id id
            · exact (xFirst z zRest).1
          refine ⟨orders.trans y yMem x xMem z zMem' yLe xLe, ?_⟩
          intro zLe
          have := orders.trans x xMem z zMem' y yMem xLe zLe
          rw [← answer] at this
          cases this
        refine pairwise_cons.mpr ⟨?_, ?_⟩
        · intro z zMem
          have member : z ∈ x :: xs ++ ys := (merge_perm before (x :: xs) ys after).mem_iff.mp zMem
          rcases mem_append.mp member with zLeft | zRight
          · exact yStrict z zLeft
          · exact yFirst z zRight
        · refine tailHypothesis after ?_ ysRest ?_
          · exact orders.mono fun z => mem_append_cons
          · intro z zMem w wMem
            exact ties z zMem w (by simp [wMem])

/-- A list of ordered blocks of one width, the last of which may be shorter;
elements of different blocks are in tie order. -/
inductive Blocks (le : α → α → Bool) (tie : α → α → Prop) (width : Nat) :
    List α → Prop
  | last (xs : List α) :
      xs.length ≤ width → xs.Pairwise (InOrder le tie) → Blocks le tie width xs
  | more (block rest : List α) :
      block.length = width → block.Pairwise (InOrder le tie) →
      (∀ x ∈ block, ∀ y ∈ rest, tie x y) → Blocks le tie width rest →
      Blocks le tie width (block ++ rest)

/-- The first block. -/
theorem Blocks.head (blocks : Blocks le tie width xs) :
    (xs.take width).Pairwise (InOrder le tie) ∧
      (∀ x ∈ xs.take width, ∀ y ∈ xs.drop width, tie x y) ∧
      Blocks le tie width (xs.drop width) := by
  cases blocks with
  | last _ short ordered =>
    rw [take_of_length_le short, drop_of_length_le short]
    exact ⟨ordered, by simp, .last [] (by simp) List.Pairwise.nil⟩
  | more block rest isWidth ordered ties blocks =>
    subst isWidth
    simp only [take_left, drop_left]
    exact ⟨ordered, ties, blocks⟩

/-- A pass doubles the width of the blocks. -/
theorem passFrom_blocks
    (positive : 0 < width) (rounds : Nat) (xs : List α) (s : σ) (enough : xs.length ≤ rounds)
    (orders : OrdersBy before le xs) (blocks : Blocks le tie width xs) :
    Blocks le tie (width * 2) (passFrom before width rounds xs s).1 := by
  induction rounds generalizing xs s with
  | zero =>
    have isEmpty : xs = [] := eq_nil_of_length_eq_zero (by omega)
    subst isEmpty
    exact .last [] (by simp) List.Pairwise.nil
  | succ rounds ih =>
    obtain ⟨leftOrdered, leftTies, afterLeft⟩ := blocks.head
    rw [passFrom]
    split
    · rename_i short
      rw [take_of_length_le short] at leftOrdered
      exact .last xs (by omega) leftOrdered
    · obtain ⟨rightOrdered, rightTies, afterRight⟩ := afterLeft.head
      rw [drop_drop] at afterRight rightTies
      have ordered :
          (merge before (xs.take width) ((xs.drop width).take width) s).1.Pairwise
            (InOrder le tie) := by
        refine merge_pairwise _ _ s ?_ leftOrdered rightOrdered ?_
        · exact orders.mono fun x xMem => by
            rw [← two_blocks width xs]
            exact mem_append_left _ xMem
        · intro x xMem y yMem
          exact leftTies x xMem y (mem_of_mem_take yMem)
      have size :
          (merge before (xs.take width) ((xs.drop width).take width) s).1.length =
            min (width + width) xs.length := by
        rw [(merge_perm _ _ _ s).length_eq]
        simp only [length_append, length_take, length_drop]
        omega
      have rest := ih (xs.drop (width + width))
        (merge before (xs.take width) ((xs.drop width).take width) s).2
        (by simp only [length_drop]; omega)
        (orders.mono fun x => mem_of_mem_drop) afterRight
      by_cases both : width + width ≤ xs.length
      · refine .more _ _ (by omega) ordered ?_ rest
        intro x xMem y yMem
        have yRest := (passFrom_perm _ _ _ _ _).mem_iff.mp yMem
        rcases mem_append.mp ((merge_perm _ _ _ _).mem_iff.mp xMem) with
          xLeft | xRight
        · refine leftTies x xLeft y ?_
          rw [← drop_drop] at yRest
          exact mem_of_mem_drop yRest
        · exact rightTies x xRight y yRest
      · have passEmpty : (passFrom before width rounds (xs.drop (width + width))
            (merge before (xs.take width) ((xs.drop width).take width) s).2).1 = [] := by
          apply eq_nil_of_length_eq_zero
          rw [(passFrom_perm _ _ _ _ _).length_eq, length_drop]
          omega
        refine .last _ ?_ ?_
        · simp only [passEmpty, append_nil]
          omega
        · simp only [passEmpty, append_nil]
          exact ordered

/-- Enough passes put the whole list in order. -/
theorem sortFrom_pairwise (rounds : Nat) (positive : 0 < width) (xs : List α) (s : σ)
    (enough : xs.length ≤ width * 2 ^ rounds) (orders : OrdersBy before le xs)
    (blocks : Blocks le tie width xs) :
    (sortFrom before rounds width xs s).1.Pairwise (InOrder le tie) := by
  have finished : ∀ {width : Nat} {xs : List α}, xs.length ≤ width →
      Blocks le tie width xs → xs.Pairwise (InOrder le tie) := by
    intro width xs short blocks
    have ordered := blocks.head.1
    rw [take_of_length_le short] at ordered
    exact ordered
  induction rounds generalizing width xs s with
  | zero =>
    rw [Nat.pow_zero, Nat.mul_one] at enough
    exact finished enough blocks
  | succ rounds ih =>
    rw [sortFrom]
    split
    · have perm := passFrom_perm before width xs.length xs s
      refine ih (by omega) _ _ ?_ ?_ ?_
      · rw [perm.length_eq, Nat.mul_assoc, ← Nat.pow_succ']
        exact enough
      · exact orders.mono fun x => perm.mem_iff.mp
      · exact passFrom_blocks positive _ xs s (Nat.le_refl _) orders blocks
    · rename_i short
      exact finished (Nat.not_lt.mp short) blocks

/-- Single elements are blocks of width one. -/
theorem blocks_one {xs : List α} (ties : xs.Pairwise tie) : Blocks le tie 1 xs := by
  induction xs with
  | nil => exact .last [] (by simp) List.Pairwise.nil
  | cons x xs ih =>
    obtain ⟨first, rest⟩ := pairwise_cons.mp ties
    refine .more [x] xs rfl (pairwise_singleton _ x) ?_ (ih rest)
    intro z zMem y yMem
    rw [mem_singleton.mp zMem]
    exact first y yMem

/-- If the comparison answers as a total preorder does, the sort orders the
list and leaves ties in the order they were in. -/
theorem mergeSort_pairwise
    (xs : List α) (s : σ) (orders : OrdersBy before le xs) (ties : xs.Pairwise tie) :
    (mergeSort before xs s).1.Pairwise (InOrder le tie) := by
  refine sortFrom_pairwise xs.length Nat.one_pos xs s ?_ orders (blocks_one ties)
  rw [Nat.one_mul]
  exact Nat.le_of_lt Nat.lt_two_pow_self

end Sortedness

section Stability

variable {α σ : Type} {before : Compare α σ} {le : α → α → Bool}

/-- A stable sort: the elements with their positions are permuted such that
they are in order, and equivalent ones keep theirs. -/
def StableSorted (le : α → α → Bool) (xs ys : List α) : Prop :=
  ∃ tagged : List (α × Nat), tagged.Perm xs.zipIdx ∧
    tagged.Pairwise (InOrder (fun x y => le x.1 y.1) (fun x y => x.2 < y.2)) ∧
    ys = tagged.map Prod.fst

theorem zipIdx_pairwise (xs : List α) (start : Nat) :
    (xs.zipIdx start).Pairwise (fun x y => x.2 < y.2) := by
  rw [← pairwise_map (f := Prod.snd) (R := (· < ·)), zipIdx_map_snd]
  exact pairwise_lt_range'

/-- If the comparison answers as a total preorder does, the sort is stable. -/
theorem mergeSort_stable (xs : List α) (s : σ) (orders : OrdersBy before le xs) :
    StableSorted le xs (mergeSort before xs s).1 := by
  have tagless : (xs.zipIdx).map Prod.fst = xs := zipIdx_map_fst 0 xs
  refine ⟨(mergeSort (before.comap Prod.fst) xs.zipIdx s).1, mergeSort_perm _ _ _,
    mergeSort_pairwise _ _ ?_ (zipIdx_pairwise xs 0), ?_⟩
  · exact orders.comap Prod.fst fun x => fst_mem_of_mem_zipIdx
  · have mapped := @mergeSort_map _ _ _ before Prod.fst xs.zipIdx s
    rw [tagless] at mapped
    rw [mapped]

/-- A stably sorted list is sorted. -/
theorem StableSorted.pairwise {xs ys : List α} (stable : StableSorted le xs ys) :
    ys.Pairwise (fun x y => le x y = true) := by
  obtain ⟨tagged, _, pairwise, rfl⟩ := stable
  exact pairwise_map.mpr (pairwise.imp fun inOrder => inOrder.1)

/-- Elements that are in order behind all others may stay there. -/
theorem StableSorted.append {xs ys zs : List α} (stable : StableSorted le xs ys)
    (behind : ∀ x ∈ xs, ∀ z ∈ zs, le x z = true)
    (ordered : zs.Pairwise (fun x y => le x y = true)) :
    StableSorted le (xs ++ zs) (ys ++ zs) := by
  obtain ⟨tagged, perm, pairwise, rfl⟩ := stable
  refine ⟨tagged ++ zs.zipIdx xs.length, ?_, ?_, ?_⟩
  · rw [zipIdx_append, Nat.zero_add]
    exact perm.append_right _
  · refine pairwise_append.mpr ⟨pairwise, ?_, ?_⟩
    · have tagless : ((zs.zipIdx xs.length).map Prod.fst).Pairwise (fun x y => le x y = true) := by
        rw [zipIdx_map_fst]
        exact ordered
      exact ((pairwise_map.mp tagless).and (zipIdx_pairwise zs _)).imp
        fun both => ⟨both.1, fun _ => both.2⟩
    · rintro x xMem ⟨z, j⟩ zMem
      have xIn := perm.mem_iff.mp xMem
      refine ⟨behind x.1 (fst_mem_of_mem_zipIdx xIn) z (fst_mem_of_mem_zipIdx zMem), fun _ => ?_⟩
      have xBelow := (mem_zipIdx (show (x.1, x.2) ∈ xs.zipIdx from xIn)).2.1
      have zAbove := (mem_zipIdx zMem).1
      omega
  · rw [map_append, zipIdx_map_fst]

/-- The sort of two elements is one comparison. -/
theorem mergeSort_pair (before : Compare α σ) (a b : α) (s : σ) :
    mergeSort before [a, b] s =
      (if (before a b s).1 then [a, b] else [b, a], (before a b s).2) := by
  have merged : mergeSort before [a, b] s = merge before [a] [b] s := by
    have one : pass before 1 [a, b] s = merge before [a] [b] s := by simp [pass, passFrom]
    simp only [mergeSort, length_cons, sortFrom, one]
    have two := (merge_perm before [a] [b] s).length_eq
    rw [if_pos (by omega)]
    split_ifs with more
    · simp [two] at more
    · rfl
  rw [merged, merge, mergeCons]
  cases before a b s with
  | mk answer after => cases answer <;> rfl

/-- Two elements that a stable sort exchanges are in strict order. -/
theorem StableSorted.exchanged
    {a b : α} (stable : StableSorted le [a, b] [b, a]) (distinct : a ≠ b) :
    le a b = false := by
  obtain ⟨tagged, perm, pairwise, tagged_eq⟩ := stable
  obtain ⟨x, y, rfl⟩ := length_eq_two.mp perm.length_eq
  have members : ∀ z ∈ [x, y], z = (a, 0) ∨ z = (b, 1) := by
    intro z isIn
    have isTagged := perm.mem_iff.mp isIn
    simpa using isTagged
  simp only [map_cons, map_nil, cons.injEq, and_true] at tagged_eq
  obtain ⟨x_eq, y_eq⟩ := tagged_eq
  obtain rfl : x = (b, 1) := by
    rcases members x (by simp) with rfl | isSecond
    · exact absurd x_eq.symm distinct
    · exact isSecond
  obtain rfl : y = (a, 0) := by
    rcases members y (by simp) with isFirst | rfl
    · exact isFirst
    · exact absurd y_eq distinct
  have inOrder := (pairwise_cons.mp pairwise).1 (a, 0) (by simp)
  by_contra notStrict
  have tie := inOrder.2 (by simpa using notStrict)
  exact absurd tie (by simp)

end Stability

end AntRuntime.Sorting
