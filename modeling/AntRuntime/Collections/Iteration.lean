import AntRuntime.Collections.HashTable
import AntRuntime.Machine.Runs
import Mathlib.Data.List.Induction

/-!
# Iterating over a collection that changes

An iterator keeps a pointer to the entry it will yield next, and so does `forEach`
while its callback runs. The pointer is right as long as no operation frees that entry
and none adds an entry when there is no next one.
-/

namespace AntRuntime.Collections

open List Machine

variable {κ ν : Type} {hash : UtHash κ}

section Model

/-- What a step of an iteration does; the address tells entries apart. -/
inductive StepResult (κ ν : Type) where
  | fault
  | finished
  | yielded (a : Nat) (entry : Entry κ ν)
deriving DecidableEq, Repr

/-- `advance_map` and `advance_set`: the result and the new `current`. Reading a freed
entry is a fault. -/
def advance (collection : Collection hash ν) : Option Nat → StepResult κ ν × Option Nat
  | none => (.finished, none)
  | some a =>
    match collection.heap a with
    | none => (.fault, some a)
    | some entry => (.yielded a entry, hash.next collection.table a)

/-- A turn of the loop of `map_forEach` and `set_forEach` up to the call of the
callback, from the `tmp` of the turn before, whose `hh.next` is read first. -/
def forEachTurn (collection : Collection hash ν) (tmp : Option Nat) :
    StepResult κ ν × Option Nat :=
  if tmp.any fun a => (collection.heap a).isNone then (.fault, tmp)
  else
    match hash.iterNext collection.table tmp with
    | (none, _) => (.finished, none)
    | (some el, tmp) =>
      match collection.heap el with
      | none => (.fault, tmp)
      | some entry => (.yielded el entry, tmp)

/-- The two ways to go through a collection. -/
inductive Traversal where
  | iterator
  | forEach
deriving DecidableEq, Repr

/-- One step. -/
def Traversal.turn :
    Traversal → Collection hash ν → Option Nat → StepResult κ ν × Option Nat
  | .iterator => advance
  | .forEach => forEachTurn

/-- What happens while a traversal is going on. -/
inductive Action (κ ν : Type) where
  | op (op : Op κ ν)
  | step
deriving DecidableEq, Repr

end Model

section History

/-- The entries of the collection, the addresses yielded so far, and whether the end
was reported. -/
structure History (κ ν : Type) where
  contents : Contents κ ν
  fresh : Nat
  yielded : List Nat
  finished : Bool

/-- Note the result of a step. -/
def History.record (history : History κ ν) : StepResult κ ν → History κ ν
  | .fault => history
  | .finished => { history with finished := true }
  | .yielded a _ => { history with yielded := history.yielded ++ [a] }

/-- A collection with a traversal and its history. -/
structure System (hash : UtHash κ) (ν : Type) where
  collection : Collection hash ν
  cursor : Option Nat
  history : History κ ν

/-- `create_map_iterator` and `create_set_iterator`, or the start of `HASH_ITER`. -/
def System.start (system : System hash ν) : System hash ν :=
  { system with cursor := hash.head system.collection.table }

/-- The entries that come after every yielded one. -/
def History.pending (history : History κ ν) : Contents κ ν :=
  history.contents.filter fun entry => history.yielded.all (· < entry.1)

/-- What a live iteration asks of a step: an entry that is there, behind everything
yielded before, with nothing left out; and the end only after every entry. -/
def LiveStep (history : History κ ν) : StepResult κ ν → Prop
  | .fault => False
  | .finished => history.finished = true ∨ ∀ a ∈ addresses history.contents, a ∈ history.yielded
  | .yielded a entry =>
    history.finished = false ∧ (a, entry) ∈ history.contents ∧ (∀ y ∈ history.yielded, y < a) ∧
      ∀ b ∈ addresses history.contents, b < a → b ∈ history.yielded

/-- The next step of the traversal is as it should be. -/
def System.Live (traversal : Traversal) (system : System hash ν) : Prop :=
  LiveStep system.history (traversal.turn system.collection system.cursor).1

variable [DecidableEq κ]

/-- The history after an operation. -/
def History.act (kind : Kind) (history : History κ ν) (op : Op κ ν) : History κ ν :=
  { history with
    contents := contentsAct kind history.contents history.fresh op
    fresh := freshAct history.contents history.fresh op }

/-- One action. -/
def System.act (kind : Kind) (traversal : Traversal) (system : System hash ν) :
    Action κ ν → System hash ν
  | .op op =>
    { system with
      collection := system.collection.act kind op
      history := system.history.act kind op }
  | .step =>
    { system with
      cursor := (traversal.turn system.collection system.cursor).2
      history := system.history.record (traversal.turn system.collection system.cursor).1 }

/-- A collection built by operations, without a traversal. -/
def built (hash : UtHash κ) (kind : Kind) (ops : List (Op κ ν)) : System hash ν :=
  ops.foldl (fun system op => system.act kind .iterator (.op op))
    ⟨⟨hash.empty, fun _ => none, 0⟩, none, ⟨[], 0, [], false⟩⟩

/-- The operation does not remove the next entry, and adds none when there is no
next one. -/
def Allowed (history : History κ ν) : Action κ ν → Prop
  | .op (.store entry) =>
    history.finished = true ∨ findKey history.contents entry.key ≠ none ∨ history.pending ≠ []
  | .op (.delete key) =>
    history.finished = true ∨ ∀ next, history.pending.head? = some next → next.2.key ≠ key
  | .op .clear => history.finished = true ∨ history.pending = []
  | .step => True

/-- A sequence of actions. -/
def System.run (kind : Kind) (traversal : Traversal) (system : System hash ν)
    (actions : List (Action κ ν)) : System hash ν :=
  actions.foldl (System.act kind traversal) system

/-- Every action of a sequence is allowed when it happens. -/
def AllowedRun (kind : Kind) (traversal : Traversal) :
    System hash ν → List (Action κ ν) → Prop
  | _, [] => True
  | system, action :: actions =>
    Allowed system.history action ∧ AllowedRun kind traversal
      (system.act kind traversal action) actions

end History

section Turns

theorem forEachTurn_eq (collection : Collection hash ν) (tmp : Option Nat) :
    forEachTurn collection tmp = advance collection tmp := by
  rw [forEachTurn, hash.iterNext_eq]
  cases tmp with
  | none => rfl
  | some a => cases stored : collection.heap a <;> simp [advance, stored]

/-- A callback of `forEach` sees what an iterator would. -/
theorem turn_eq (traversal : Traversal) (collection : Collection hash ν) (cursor : Option Nat) :
    traversal.turn collection cursor = advance collection cursor := by
  cases traversal with
  | iterator => rfl
  | forEach => exact forEachTurn_eq collection cursor

end Turns

section Pending

variable {history : History κ ν}

theorem mem_pending {entry : Nat × Entry κ ν} :
    entry ∈ history.pending ↔ entry ∈ history.contents ∧ ∀ y ∈ history.yielded, y < entry.1 := by
  simp [History.pending]

theorem addresses_pending (history : History κ ν) :
    addresses history.pending =
      (addresses history.contents).filter fun a => history.yielded.all (· < a) := by
  rw [addresses, addresses, filter_map]
  rfl

/-- What is behind a point of the contents, when the point is behind the yielded
entries. -/
theorem pending_eq {passed after : Contents κ ν} (contentsEq : history.contents = passed ++ after)
    (isPassed : ∀ entry ∈ passed, ∃ y ∈ history.yielded, entry.1 ≤ y)
    (isAfter : ∀ entry ∈ after, ∀ y ∈ history.yielded, y < entry.1) :
    history.pending = after := by
  have passedNone : passed.filter (fun entry => history.yielded.all (· < entry.1)) = [] := by
    rw [filter_eq_nil_iff]
    intro entry isIn allBelow
    obtain ⟨y, yIn, le⟩ := isPassed entry isIn
    have below := all_eq_true.mp allBelow y yIn
    exact absurd (of_decide_eq_true below) (Nat.not_lt.mpr le)
  have afterAll : after.filter (fun entry => history.yielded.all (· < entry.1)) = after := by
    rw [filter_eq_self]
    intro entry isIn
    exact all_eq_true.mpr fun y yIn => decide_eq_true (isAfter entry isIn y yIn)
  rw [History.pending, contentsEq, filter_append, passedNone, afterAll, nil_append]

/-- The pending entries are the last ones. -/
theorem exists_passed (increasing : (addresses history.contents).Pairwise (· < ·)) :
    ∃ passed, history.contents = passed ++ history.pending ∧
      ∀ entry ∈ passed, ∃ y ∈ history.yielded, entry.1 ≤ y := by
  obtain ⟨contents, fresh, yielded, finished⟩ := history
  change ∃ passed, contents = passed ++ contents.filter (fun entry => yielded.all (· < entry.1)) ∧ _
  induction contents with
  | nil => exact ⟨[], rfl, fun entry isIn => absurd isIn not_mem_nil⟩
  | cons first rest ih =>
    obtain ⟨firstBelow, restIncreasing⟩ := pairwise_cons.mp increasing
    by_cases isPending : yielded.all (· < first.1) = true
    · -- Everything behind a pending entry is pending.
      have restPending : rest.filter (fun entry => yielded.all (· < entry.1)) = rest := by
        rw [filter_eq_self]
        intro entry isIn
        refine all_eq_true.mpr fun y yIn => decide_eq_true ?_
        exact Nat.lt_trans (of_decide_eq_true (all_eq_true.mp isPending y yIn))
          (firstBelow entry.1 (mem_map_of_mem isIn))
      refine ⟨[], ?_, fun entry isIn => absurd isIn not_mem_nil⟩
      rw [filter_cons, if_pos isPending, restPending, nil_append]
    · obtain ⟨passed, restEq, arePassed⟩ := ih restIncreasing
      refine ⟨first :: passed, ?_, ?_⟩
      · rw [filter_cons, if_neg isPending, cons_append, ← restEq]
      · intro entry isIn
        rcases mem_cons.mp isIn with rfl | isIn
        · simpa using isPending
        · exact arePassed entry isIn

end Pending

section Invariant

variable {rest : Contents κ ν} {entry : Entry κ ν}

/-- The pointer of the traversal is at the first pending entry. -/
structure Sound (system : System hash ν) : Prop where
  represents : Represents system.collection system.history.contents
  fresh : system.collection.fresh = system.history.fresh
  cursor : system.cursor = if system.history.finished then none else headOf system.history.pending
  below : ∀ y ∈ system.history.yielded, y < system.history.fresh
  covered : ∀ a ∈ addresses system.history.contents,
    a ∈ system.history.yielded ∨ ∀ y ∈ system.history.yielded, y < a

variable {system : System hash ν}

/-- The end is reported when nothing is pending. -/
theorem LiveStep.of_pending_nil (sound : Sound system) (nothing : system.history.pending = []) :
    ∀ a ∈ addresses system.history.contents, a ∈ system.history.yielded := by
  intro a isIn
  refine (sound.covered a isIn).resolve_right fun behind => ?_
  obtain ⟨entry, entryIn⟩ := mem_addresses.mp isIn
  have isPending : (a, entry) ∈ system.history.pending := mem_pending.mpr ⟨entryIn, behind⟩
  rw [nothing] at isPending
  exact not_mem_nil isPending

/-- The pending entry that comes next: where it is, and how the others lie around it. -/
theorem Sound.next
    (sound : Sound system) (pendingEq : system.history.pending = (a, entry) :: rest) :
    (system.collection.heap a = some entry ∧ hash.next system.collection.table a = headOf rest) ∧
      ∃ passed, system.history.contents = passed ++ (a, entry) :: rest ∧
        (∀ other ∈ passed, other.1 < a ∧ other.1 ∈ system.history.yielded) ∧
        ∀ other ∈ rest, a < other.1 := by
  obtain ⟨passed, contentsEq, arePassed⟩ := exists_passed sound.represents.increasing
  rw [pendingEq] at contentsEq
  have represents := sound.represents
  rw [contentsEq] at represents
  have ordered := represents.increasing
  rw [addresses_append, pairwise_append] at ordered
  obtain ⟨-, fromHere, passedBefore⟩ := ordered
  have stored := represents.stored (a, entry) (mem_append_right _ mem_cons_self)
  refine ⟨⟨stored, represents.next⟩, passed, contentsEq, ?_, ?_⟩
  · intro other isIn
    refine ⟨passedBefore other.1 (mem_map_of_mem isIn) a mem_cons_self, ?_⟩
    have otherIn : other.1 ∈ addresses system.history.contents := by
      rw [contentsEq, addresses_append]
      exact mem_append_left _ (mem_map_of_mem isIn)
    refine (sound.covered other.1 otherIn).resolve_right fun behind => ?_
    obtain ⟨y, yIn, le⟩ := arePassed other isIn
    exact absurd (behind y yIn) (Nat.not_lt.mpr le)
  · intro other isIn
    exact (pairwise_cons.mp fromHere).1 other.1 (mem_map_of_mem isIn)

/-- Yielding the next entry leaves the entries behind it. -/
theorem Sound.pending_record
    (sound : Sound system) (pendingEq : system.history.pending = (a, entry) :: rest) :
    (system.history.record (.yielded a entry)).pending = rest := by
  obtain ⟨-, passed, contentsEq, passedBefore, restBehind⟩ := sound.next pendingEq
  have split : (system.history.record (.yielded a entry)).contents =
      (passed ++ [(a, entry)]) ++ rest := by
    rw [append_assoc]
    exact contentsEq
  apply pending_eq split
  · intro other isIn
    refine ⟨a, mem_append_right _ (mem_singleton_self a), ?_⟩
    rcases mem_append.mp isIn with isPassed | isHere
    · exact Nat.le_of_lt (passedBefore other isPassed).1
    · exact Nat.le_of_eq (congrArg Prod.fst (mem_singleton.mp isHere))
  · intro other isIn y yIn
    rcases mem_append.mp yIn with isOld | isNew
    · have isPending : other ∈ system.history.pending := by
        rw [pendingEq]
        exact mem_cons_of_mem _ isIn
      exact (mem_pending.mp isPending).2 y isOld
    · rw [mem_singleton.mp isNew]
      exact restBehind other isIn

/-- The step to take with some pending entries, and the pointer after it. -/
def nextStep : Contents κ ν → StepResult κ ν × Option Nat
  | [] => (.finished, none)
  | (a, entry) :: rest => (.yielded a entry, headOf rest)

/-- What a step of a sound system does. -/
theorem Sound.turn (sound : Sound system) (traversal : Traversal) :
    traversal.turn system.collection system.cursor =
      if system.history.finished then (.finished, none)
      else nextStep system.history.pending := by
  rw [turn_eq, sound.cursor]
  split_ifs with isFinished
  · rfl
  · cases pendingEq : system.history.pending with
    | nil => rfl
    | cons next rest =>
      obtain ⟨⟨stored, behind⟩, -⟩ := sound.next pendingEq
      have isHead : headOf (next :: rest) = some next.1 := rfl
      rw [isHead, advance, stored, nextStep]
      exact congrArg _ behind

/-- A step is as it should be, and the pointer moves to the next pending entry. -/
theorem Sound.step [DecidableEq κ] (kind : Kind) (traversal : Traversal) (sound : Sound system) :
    system.Live traversal ∧ Sound (system.act kind traversal .step) := by
  unfold System.Live System.act
  rw [sound.turn]
  cases isFinished : system.history.finished with
  | true => exact ⟨Or.inl isFinished, { sound with cursor := rfl }⟩
  | false =>
    rw [if_neg Bool.false_ne_true]
    cases pendingEq : system.history.pending with
    | nil => exact ⟨Or.inr (LiveStep.of_pending_nil sound pendingEq), { sound with cursor := rfl }⟩
    | cons next rest =>
      obtain ⟨a, entry⟩ := next
      obtain ⟨-, passed, contentsEq, passedBefore, restBehind⟩ := sound.next pendingEq
      have isPending : (a, entry) ∈ system.history.pending := by
        rw [pendingEq]
        exact mem_cons_self
      obtain ⟨isIn, behind⟩ := mem_pending.mp isPending
      -- An address of the contents is before, at or behind the yielded one.
      have place : ∀ b ∈ addresses system.history.contents,
          b ∈ system.history.yielded ∨ b = a ∨ a < b := by
        intro b bIn
        obtain ⟨other, otherIn⟩ := mem_addresses.mp bIn
        rw [contentsEq] at otherIn
        rcases mem_append.mp otherIn with isPassed | fromHere
        · exact Or.inl (passedBefore _ isPassed).2
        · rcases mem_cons.mp fromHere with isHere | isLater
          · exact Or.inr (Or.inl (Prod.mk.inj isHere).1)
          · exact Or.inr (Or.inr (restBehind _ isLater))
      refine ⟨⟨isFinished, isIn, behind, ?_⟩, sound.represents, sound.fresh, ?_, ?_, ?_⟩
      · intro b bIn less
        refine (place b bIn).resolve_right fun notBefore => ?_
        omega
      · change headOf rest = if system.history.finished then none
          else headOf (system.history.record (.yielded a entry)).pending
        rw [sound.pending_record pendingEq, isFinished]
        rfl
      · intro y yIn
        rcases mem_append.mp yIn with isOld | isNew
        · exact sound.below y isOld
        · rw [mem_singleton.mp isNew]
          exact sound.fresh ▸ sound.represents.below a (mem_map_of_mem isIn)
      · intro b bIn
        rcases place b bIn with isOld | rfl | later
        · exact Or.inl (mem_append_left _ isOld)
        · exact Or.inl (mem_append_right _ (mem_singleton_self b))
        · refine Or.inr fun y yIn => ?_
          rcases mem_append.mp yIn with isOld | isNew
          · exact Nat.lt_trans (behind y isOld) later
          · rw [mem_singleton.mp isNew]
            exact later

end Invariant

section Operations

variable [DecidableEq κ] {system : System hash ν} {history : History κ ν} {entry : Entry κ ν}

/-- The addresses after an operation. -/
theorem mem_addresses_contentsAct
    {kind : Kind} {contents : Contents κ ν} {op : Op κ ν}
    (isIn : a ∈ addresses (contentsAct kind contents fresh op)) :
    a ∈ addresses contents ∨ a = fresh := by
  cases op with
  | store entry =>
    rw [contentsAct] at isIn
    cases found : findKey contents entry.key with
    | none =>
      rw [found, addresses_append] at isIn
      exact (mem_append.mp isIn).imp_right mem_singleton.mp
    | some b =>
      rw [found] at isIn
      cases kind with
      | map =>
        rw [addresses_replaceData] at isIn
        exact Or.inl isIn
      | set => exact Or.inl isIn
  | delete key => exact Or.inl ((filter_sublist.map Prod.fst).subset isIn)
  | clear => exact absurd isIn not_mem_nil

theorem le_freshAct (contents : Contents κ ν) (fresh : Nat) (op : Op κ ν) :
    fresh ≤ freshAct contents fresh op := by
  cases op with
  | store entry =>
    rw [freshAct]
    split_ifs <;> omega
  | delete key | clear => exact Nat.le_refl _

/-- An operation keeps the system sound exactly if the pointer stays right. -/
theorem Sound.act (sound : Sound system) (kind : Kind) (traversal : Traversal) (op : Op κ ν)
    (pointer : system.cursor = if system.history.finished then none else
      headOf (system.history.act kind op).pending) :
    Sound (system.act kind traversal (.op op)) := by
  obtain ⟨represents, freshEq⟩ := sound.represents.act kind op
  rw [sound.fresh] at represents freshEq
  refine ⟨represents, freshEq, pointer, ?_, ?_⟩
  · intro y yIn
    exact Nat.lt_of_lt_of_le (sound.below y yIn) (le_freshAct _ _ op)
  · intro a isIn
    rcases mem_addresses_contentsAct isIn with isOld | rfl
    · exact sound.covered a isOld
    · exact Or.inr sound.below

/-- A pointer to a freed entry makes the next step a fault. -/
theorem Sound.not_live_of_freed
    (sound : Sound system) (kind : Kind) (traversal : Traversal) (op : Op κ ν)
    (cursorEq : system.cursor = some a)
    (freed : a ∉ addresses (system.history.act kind op).contents) :
    ¬ (system.act kind traversal (.op op)).Live traversal := by
  have represents := (sound.represents.act kind op).1
  rw [sound.fresh] at represents
  have notStored : (system.collection.act kind op).heap a = none := by
    by_contra stored
    exact freed (represents.live a stored)
  have fault : traversal.turn (system.collection.act kind op) system.cursor = (.fault, some a) := by
    rw [turn_eq, cursorEq]
    simp [advance, notStored]
  unfold System.Live System.act
  rw [fault]
  exact id

/-- What is pending after a new entry was added. -/
theorem pending_store_new (kind : Kind) (below : ∀ y ∈ history.yielded, y < history.fresh)
    (isNew : findKey history.contents entry.key = none) :
    (history.act kind (.store entry)).pending = history.pending ++ [(history.fresh, entry)] := by
  have behind : history.yielded.all (· < history.fresh) = true :=
    all_eq_true.mpr fun y yIn => decide_eq_true (below y yIn)
  simp only [History.pending, History.act, contentsAct, isNew]
  rw [filter_append, filter_cons, if_pos behind, filter_nil]

/-- Overwriting an entry moves nothing. -/
theorem headOf_pending_store (kind : Kind) (isOld : findKey history.contents entry.key ≠ none) :
    headOf (history.act kind (.store entry)).pending = headOf history.pending := by
  obtain ⟨a, found⟩ := Option.ne_none_iff_exists'.mp isOld
  have addressesEq : addresses (history.act kind (.store entry)).contents =
      addresses history.contents := by
    simp only [History.act, contentsAct, found]
    cases kind with
    | map => exact addresses_replaceData _ a entry
    | set => rfl
  rw [headOf, headOf, addresses_pending, addresses_pending, addressesEq]
  rfl

/-- A deletion takes the entry out of the pending ones. -/
theorem pending_delete (history : History κ ν) (kind : Kind) (key : κ) :
    (history.act kind (.delete key)).pending =
      history.pending.filter fun entry => decide (entry.2.key ≠ key) :=
  filter_comm _ _ _

/-- An allowed operation keeps the pointer right. -/
theorem Sound.op (sound : Sound system) (kind : Kind) (traversal : Traversal) {op : Op κ ν}
    (allowed : Allowed system.history (.op op)) :
    Sound (system.act kind traversal (.op op)) := by
  apply sound.act kind traversal op
  rw [sound.cursor]
  cases isFinished : system.history.finished with
  | true => rfl
  | false =>
    have notFinished : ¬ system.history.finished = true := by
      rw [isFinished]
      exact Bool.false_ne_true
    rw [if_neg Bool.false_ne_true]
    cases op with
    | store entry =>
      by_cases isNew : findKey system.history.contents entry.key = none
      · have some := (allowed.resolve_left notFinished).resolve_left (absurd isNew)
        rw [pending_store_new kind sound.below isNew]
        cases pendingEq : system.history.pending with
        | nil => exact absurd pendingEq some
        | cons next rest => rfl
      · exact (headOf_pending_store kind isNew).symm
    | delete key =>
      have kept := allowed.resolve_left notFinished
      rw [pending_delete]
      cases pendingEq : system.history.pending with
      | nil => rfl
      | cons next rest =>
        rw [pendingEq] at kept
        rw [filter_cons, if_pos (decide_eq_true (kept next rfl))]
        rfl
    | clear =>
      rw [allowed.resolve_left notFinished]
      rfl

/-- After any other operation the next step is wrong. -/
theorem Sound.not_live (sound : Sound system) (kind : Kind) (traversal : Traversal) {op : Op κ ν}
    (notAllowed : ¬ Allowed system.history (.op op)) :
    ¬ (system.act kind traversal (.op op)).Live traversal := by
  have pointer := sound.cursor
  cases op with
  | store entry =>
    -- The pointer is null, and the traversal ends without the new entry.
    rw [Allowed, not_or, not_or, not_not, not_not] at notAllowed
    obtain ⟨notFinished, isNew, nothing⟩ := notAllowed
    rw [if_neg notFinished, nothing] at pointer
    have isDone : traversal.turn (system.collection.act kind (.store entry)) system.cursor =
        (.finished, none) := by
      rw [turn_eq, pointer]
      rfl
    unfold System.Live System.act
    rw [isDone]
    rintro (finished | allYielded)
    · exact notFinished finished
    · have added : system.history.fresh ∈
          addresses (system.history.act kind (.store entry)).contents := by
        simp [History.act, contentsAct, isNew, addresses]
      exact absurd (sound.below _ (allYielded _ added)) (Nat.lt_irrefl _)
  | delete key =>
    rw [Allowed, not_or] at notAllowed
    obtain ⟨notFinished, removes⟩ := notAllowed
    rw [if_neg notFinished] at pointer
    push Not at removes
    obtain ⟨next, isNext, sameKey⟩ := removes
    have cursorEq : system.cursor = some next.1 := by
      rw [pointer, headOf, addresses, head?_map, isNext]
      rfl
    apply sound.not_live_of_freed kind traversal (.delete key) cursorEq
    intro isLeft
    obtain ⟨other, otherIn⟩ := mem_addresses.mp isLeft
    obtain ⟨otherIn, otherKey⟩ := mem_filter.mp otherIn
    have nextIn := (mem_pending.mp (mem_of_mem_head? isNext)).1
    have same : (next.1, other) = next :=
      inj_on_of_nodup_map sound.represents.distinct otherIn nextIn rfl
    rw [same] at otherKey
    exact of_decide_eq_true otherKey sameKey
  | clear =>
    rw [Allowed, not_or] at notAllowed
    obtain ⟨notFinished, some⟩ := notAllowed
    rw [if_neg notFinished] at pointer
    cases pendingEq : system.history.pending with
    | nil => exact absurd pendingEq some
    | cons next rest =>
      rw [pendingEq] at pointer
      exact sound.not_live_of_freed kind traversal .clear pointer not_mem_nil

end Operations

section Runs

variable [DecidableEq κ]

/-- Without a traversal the contents follow the operations. -/
theorem built_spec (hash : UtHash κ) (kind : Kind) (ops : List (Op κ ν)) :
    Represents (built hash kind ops).collection (built hash kind ops).history.contents ∧
      (built hash kind ops).collection.fresh = (built hash kind ops).history.fresh ∧
      (built hash kind ops).history.yielded = [] ∧ (built hash kind ops).history.finished =
        false := by
  induction ops using reverseRecOn with
  | nil => exact ⟨represents_empty, rfl, rfl, rfl⟩
  | append_singleton ops op ih =>
    obtain ⟨represents, freshEq, yieldedEq, finishedEq⟩ := ih
    have step : built hash kind (ops ++ [op]) = (built hash kind ops).act kind .iterator
        (.op op) := by
      rw [built, foldl_append]
      rfl
    rw [step]
    obtain ⟨actRepresents, actFresh⟩ := represents.act kind op
    rw [freshEq] at actRepresents actFresh
    exact ⟨actRepresents, actFresh, yieldedEq, finishedEq⟩

/-- A new traversal points to the first entry. -/
theorem sound_start (hash : UtHash κ) (kind : Kind) (ops : List (Op κ ν)) :
    Sound (built hash kind ops).start := by
  obtain ⟨represents, freshEq, yieldedEq, finishedEq⟩ := built_spec hash kind ops
  have allPending : (built hash kind ops).history.pending =
      (built hash kind ops).history.contents := by
    rw [History.pending, yieldedEq, filter_eq_self]
    exact fun entry _ => rfl
  refine ⟨represents, freshEq, ?_, ?_, ?_⟩
  · change hash.head (built hash kind ops).collection.table =
      if (built hash kind ops).history.finished then none else headOf
        (built hash kind ops).history.pending
    rw [finishedEq, allPending, represents.head]
    rfl
  · intro y yIn
    change y ∈ (built hash kind ops).history.yielded at yIn
    rw [yieldedEq] at yIn
    exact absurd yIn not_mem_nil
  · intro a isIn
    refine Or.inr fun y yIn => ?_
    change y ∈ (built hash kind ops).history.yielded at yIn
    rw [yieldedEq] at yIn
    exact absurd yIn not_mem_nil

/-- A run from a sound system. -/
theorem Sound.run {system : System hash ν} (sound : Sound system) (kind : Kind)
    (traversal : Traversal)
    (actions : List (Action κ ν)) :
    (∀ done rest, actions = done ++ rest →
        (system.run kind traversal done).Live traversal) ↔
      AllowedRun kind traversal system actions := by
  have allowedRun (system : System hash ν) : AllowedRun kind traversal system actions ↔
      EachInOrder (fun action system => system.act kind traversal action)
        (fun action system => Allowed system.history action) actions system := by
    induction actions generalizing system with
    | nil => exact iff_of_true trivial eachInOrder_nil
    | cons action actions ih =>
      rw [eachInOrder_cons, ← ih]
      rfl
  rw [allowedRun, ← throughout_iff_of_sound Sound
    (fun system sound => (sound.step kind traversal).1) ?_ ?_ actions sound]
  · exact throughout_iff_split.symm
  · intro action system sound allowed
    cases action with
    | op op => exact sound.op kind traversal allowed
    | step => exact (sound.step kind traversal).2
  · intro action system sound notAllowed
    cases action with
    | op op => exact sound.not_live kind traversal notAllowed
    | step => exact absurd trivial notAllowed

/-- Going through a map or a set with an iterator or with `forEach`, whatever the script
does to the collection: every step is live exactly if no operation before the end was
reported frees the next entry, or adds one when there is no next entry. -/
theorem liveIteration_iff
    (hash : UtHash κ) (kind : Kind) (traversal : Traversal) (ops : List (Op κ ν))
    (actions : List (Action κ ν)) :
    (∀ done rest, actions = done ++ rest →
        ((built hash kind ops).start.run kind traversal done).Live traversal) ↔
      AllowedRun kind traversal (built hash kind ops).start actions :=
  (sound_start hash kind ops).run kind traversal actions

/-- Two entries in a map, one of them yielded: deleting the other makes the next step
read a freed entry. With one entry, an entry added after it was yielded is left out. -/
theorem liveIteration_wrong :
    (Traversal.iterator.turn
        ((built listHash .map [.store ⟨1, "a", "x"⟩, .store ⟨2, "b", "y"⟩]).start.run .map .iterator
          [.step, .op (.delete 2)]).collection
        ((built listHash .map [.store ⟨1, "a", "x"⟩, .store ⟨2, "b", "y"⟩]).start.run .map .iterator
          [.step, .op (.delete 2)]).cursor).1 = StepResult.fault ∧
      ¬ ((built listHash .map [.store ⟨1, "a", "x"⟩, .store ⟨2, "b", "y"⟩]).start.run .map .iterator
        [.step, .op (.delete 2)]).Live .iterator ∧
      ¬ ((built listHash .set [.store ⟨1, "a", "a"⟩]).start.run .set .iterator
        [.step, .op (.store ⟨2, "b", "b"⟩)]).Live .iterator := by
  refine ⟨rfl, id, ?_⟩
  rintro (finished | allYielded)
  · exact Bool.false_ne_true finished
  · exact absurd (allYielded 1 (by decide)) (by decide)

end Runs

end AntRuntime.Collections
