import AntRuntime.Machine.Runs
import Mathlib.Data.List.Nodup
import Mathlib.Logic.Function.Basic

/-!
# Unhandled rejections

A rejected promise is reported at the next check unless it has a rejection handler. The flag
for that is set by a rejection callback, an `await` or an adoption, and it is passed on to the
promises from which the handled one was derived; a promise derived from one with the flag is not
reported either. The reports are the promises to which nothing was applied exactly if these two
rules say so for every promise that was rejected since the last check.
-/

namespace AntRuntime.Promises

open List
namespace Rejections

section Model

inductive Settlement where
  | pending
  | fulfilled
  | rejected
deriving DecidableEq

/-- The part of `ant_promise_state_t` that the reports depend on. -/
structure PromiseState where
  state : Settlement
  triggerParent : Option Nat
  hasRejectionHandler : Bool
  unhandledReported : Bool

/-- A promise whose rejection is taken care of. -/
def PromiseState.handled (data : PromiseState) : PromiseState :=
  { data with hasRejectionHandler := true, unhandledReported := false }

def PromiseState.settled (isRejected : Bool) (data : PromiseState) : PromiseState :=
  if isRejected then { data with state := .rejected, unhandledReported := false }
  else { data with state := .fulfilled }

/-- A promise that was reported. -/
def PromiseState.reported (data : PromiseState) : PromiseState :=
  { data with unhandledReported := true }

/-- The promises, numbered as they are made, and the rejections to check. -/
structure Runtime where
  count : Nat
  promises : Nat → PromiseState
  pendingRejections : List Nat
  /-- The promises for which `rejectionhandled` was fired. -/
  rejectionHandled : List Nat

variable (runtime : Runtime)

def Runtime.update (p : Nat) (change : PromiseState → PromiseState) : Runtime :=
  { runtime with
    promises := Function.update runtime.promises p (change (runtime.promises p)) }

/-- `js_mkpromise`, with the promise from which the new one is derived. -/
def Runtime.mkpromise (parent : Option Nat) : Runtime :=
  { runtime with
    count := runtime.count + 1
    promises := Function.update runtime.promises runtime.count ⟨.pending, parent, false, false⟩ }

/-- One turn of `js_mark_promise_rejection_handled_chain`. -/
def Runtime.markHandled (p : Nat) : Runtime :=
  { runtime.update p PromiseState.handled with
    rejectionHandled :=
      if (runtime.promises p).unhandledReported then p :: runtime.rejectionHandled
      else runtime.rejectionHandled }

/-- `js_mark_promise_rejection_handled_chain`. A parent has a smaller number, so that a bound
above the number of the promise is enough. -/
def Runtime.markChain : Nat → Nat → Runtime → Runtime
  | 0, _, runtime => runtime
  | bound + 1, p, runtime =>
    match (runtime.promises p).triggerParent with
    | some parent => markChain bound parent (runtime.markHandled p)
    | none => runtime.markHandled p

/-- `js_reject_promise`, and the end of `js_resolve_promise`. -/
def Runtime.settle (p : Nat) (isRejected : Bool) : Runtime :=
  if (runtime.promises p).state = .pending then
    { runtime.update p (PromiseState.settled isRejected) with
      pendingRejections :=
        if isRejected then runtime.pendingRejections ++ [p] else runtime.pendingRejections }
  else runtime

/-- Whether `js_check_unhandled_rejections` reports a promise. -/
def Runtime.isReported (p : Nat) : Bool :=
  !(runtime.promises p).hasRejectionHandler && !(runtime.promises p).unhandledReported &&
    !(runtime.promises p).triggerParent.any fun parent =>
      (runtime.promises parent).hasRejectionHandler

/-- The loop of `js_check_unhandled_rejections`: the reports, and the marks it leaves. -/
def Runtime.checkLoop : List Nat → Runtime → List Nat × Runtime
  | [], runtime => ([], runtime)
  | p :: rest, runtime =>
    if runtime.isReported p then
      let (reports, after) := checkLoop rest (runtime.update p PromiseState.reported)
      (p :: reports, after)
    else checkLoop rest runtime

/-- `js_check_unhandled_rejections`. -/
def Runtime.checkUnhandledRejections : List Nat × Runtime :=
  let (reports, after) := Runtime.checkLoop runtime.pendingRejections runtime
  (reports, { after with pendingRejections := [] })

end Model

section Histories

/-- What happens to promises: `then` and `catch` make a promise and may be given a rejection
callback, `await` and the adoption by another promise only register. -/
inductive Event where
  | make
  | then_ (p : Nat) (callable : Bool)
  | await (p : Nat)
  | settle (p : Nat) (isRejected : Bool)
  | check

/-- The runtime, and what was done so far: the promises to which `then`, `catch` or `await` was
applied, those where the rejection was taken care of, those that were checked, and the reports. -/
structure World where
  runtime : Runtime
  applied : List Nat
  guards : List Nat
  checked : List Nat
  reported : List Nat

def initial : World :=
  ⟨⟨0, fun _ => ⟨.pending, none, false, false⟩, [], []⟩, [], [], [], []⟩

/-- An event; what is not a promise is left alone. -/
def step : Event → World → World
  | .make, world => { world with runtime := world.runtime.mkpromise none }
  | .then_ p callable, world =>
    if p < world.runtime.count then
      let derived := world.runtime.mkpromise (some p)
      { world with
        runtime := if callable then derived.markChain (p + 1) p else derived
        applied := p :: world.applied
        guards := if callable then p :: world.guards else world.guards }
    else world
  | .await p, world =>
    if p < world.runtime.count then
      { world with
        runtime := world.runtime.markChain (p + 1) p
        applied := p :: world.applied
        guards := p :: world.guards }
    else world
  | .settle p isRejected, world =>
    if p < world.runtime.count then
      { world with runtime := world.runtime.settle p isRejected }
    else world
  | .check, world =>
    let (reports, after) := world.runtime.checkUnhandledRejections
    { world with
      runtime := after
      checked := world.checked ++ world.runtime.pendingRejections
      reported := world.reported ++ reports }

variable (world : World)

/-- The rejection of a promise, or of one derived from it, was taken care of. -/
inductive Guarded : Nat → Prop where
  | here {p : Nat} (isIn : p ∈ world.guards) : Guarded p
  | derived {child p : Nat} (guarded : Guarded child)
      (parent : (world.runtime.promises child).triggerParent = some p) : Guarded p

/-- The reports of a check are the rejected promises to which nothing was applied and that were
not reported before. -/
def ChecksExactly : Event → World → Prop
  | .check, world => ∀ p, p ∈ world.runtime.checkUnhandledRejections.1 ↔
      (world.runtime.promises p).state = .rejected ∧ p ∉ world.applied ∧ p ∉ world.reported
  | _, _ => True

/-- A promise was derived from one whose rejection was taken care of. -/
def ParentGuarded (p : Nat) : Prop :=
  ∃ parent, (world.runtime.promises p).triggerParent = some parent ∧ Guarded world parent

/-- A promise rejected since the last check, or its parent, is guarded if something was applied
to it, and its parent is not guarded otherwise. -/
def GuardsMeet : Event → World → Prop
  | .check, world => ∀ p ∈ world.runtime.pendingRejections,
      (p ∈ world.applied → Guarded world p ∨ ParentGuarded world p) ∧
        (p ∉ world.applied → ¬ ParentGuarded world p)
  | _, _ => True

end Histories

section Invariant

variable {runtime : Runtime} {world : World} {gap : Option Nat}

/-- What the flags and lists say about what was done. While the flag is passed on to the parents,
the next one of them is still to be marked. -/
structure Linked (gap : Option Nat) (world : World) : Prop where
  fresh : ∀ p, world.runtime.count ≤ p → (world.runtime.promises p).state = .pending ∧
    (world.runtime.promises p).triggerParent = none ∧
      (world.runtime.promises p).hasRejectionHandler = false
  parents : ∀ child p, (world.runtime.promises child).triggerParent = some p →
    p < child ∧ p ∈ world.applied
  guards : ∀ p ∈ world.guards, p ∈ world.applied ∧
    ((world.runtime.promises p).hasRejectionHandler = true ∨ gap = some p)
  closed : ∀ child p, (world.runtime.promises child).hasRejectionHandler = true →
    (world.runtime.promises child).triggerParent = some p →
      (world.runtime.promises p).hasRejectionHandler = true ∨ gap = some p
  guarded : ∀ p, (world.runtime.promises p).hasRejectionHandler = true → Guarded world p
  rejected : ∀ p, (world.runtime.promises p).state = .rejected →
    p ∈ world.runtime.pendingRejections ∨ p ∈ world.checked
  pending : ∀ p ∈ world.runtime.pendingRejections, (world.runtime.promises p).state = .rejected ∧
      (world.runtime.promises p).unhandledReported = false ∧ p ∉ world.reported
  reported : ∀ p ∈ world.reported, (world.runtime.promises p).state = .rejected
  pendingNodup : world.runtime.pendingRejections.Nodup
  reportedNodup : world.reported.Nodup

attribute [grind] PromiseState.handled PromiseState.settled PromiseState.reported

@[grind =]
theorem promises_update (p x : Nat) (change : PromiseState → PromiseState) :
    (runtime.update p change).promises x =
      if x = p then change (runtime.promises p) else runtime.promises x :=
  Function.update_apply ..

theorem Guarded.mono
    {after : World} (guarded : Guarded world p) (guards : ∀ p ∈ world.guards, p ∈ after.guards)
    (parents : ∀ child p, (world.runtime.promises child).triggerParent = some p →
      (after.runtime.promises child).triggerParent = some p) :
    Guarded after p := by
  induction guarded with
  | here isIn => exact .here (guards _ isIn)
  | derived _ parent ih => exact .derived ih (parents _ _ parent)

/-- The flag is set exactly for the promises whose rejection was taken care of. -/
theorem Linked.hasRejectionHandler_iff (linked : Linked none world) :
    (world.runtime.promises p).hasRejectionHandler = true ↔ Guarded world p := by
  refine ⟨linked.guarded p, fun guarded => ?_⟩
  induction guarded with
  | here isIn => simpa using (linked.guards _ isIn).2
  | derived _ parent ih => simpa using linked.closed _ _ ih parent

theorem Linked.applied_of_guarded (linked : Linked gap world) (guarded : Guarded world p) :
    p ∈ world.applied := by
  cases guarded with
  | here isIn => exact (linked.guards _ isIn).1
  | derived _ parent => exact (linked.parents _ _ parent).2

/-- What is applied to a promise, and a guard that is still to be marked. -/
theorem Linked.apply (linked : Linked none world) (p : Nat) (isGuard : Bool) :
    Linked (if isGuard then some p else none) { world with
      applied := p :: world.applied
      guards := if isGuard then p :: world.guards else world.guards } := by
  refine { linked with
    parents := fun child x isParent =>
      (linked.parents child x isParent).imp_right (mem_cons_of_mem p)
    guards := fun x isIn => ?_
    closed := fun child x flagged isParent => ?_
    guarded := fun x flagged => (linked.guarded x flagged).mono (fun x isIn => ?_) fun _ _ => id }
  · have := linked.guards x
    grind
  · have := linked.closed child x flagged isParent
    grind
  · grind

/-- A new promise changes nothing for the others. -/
theorem Linked.mkpromise (linked : Linked gap world) {parent : Option Nat}
    (known : ∀ p ∈ parent, p < world.runtime.count ∧ p ∈ world.applied) :
    Linked gap { world with runtime := world.runtime.mkpromise parent } := by
  have new := linked.fresh _ (Nat.le_refl _)
  have promises_eq (x : Nat) : (world.runtime.mkpromise parent).promises x =
      if x = world.runtime.count then ⟨.pending, parent, false, false⟩
      else world.runtime.promises x := Function.update_apply ..
  refine ⟨fun x above => ?_, fun child x isParent => ?_, fun x isIn => ?_,
    fun child x flagged isParent => ?_, fun x flagged => ?_, fun x isRejected => ?_,
    fun x isIn => ?_, fun x isIn => ?_, linked.pendingNodup, linked.reportedNodup⟩
  · have above : world.runtime.count + 1 ≤ x := above
    have := linked.fresh x (by omega)
    grind
  · have := linked.parents child x
    grind
  · have := linked.guards x isIn
    grind
  · have := linked.closed child x
    grind
  · have isOld : (world.runtime.promises x).hasRejectionHandler = true := by grind
    refine (linked.guarded x isOld).mono (fun _ isIn => isIn) fun child x isParent => ?_
    grind
  · exact linked.rejected x (by grind)
  · have := linked.pending x isIn
    grind
  · have := linked.reported x isIn
    grind

/-- One turn of the walk along the parents. -/
theorem Linked.markHandled
    (linked : Linked (some p) world) (known : p < world.runtime.count) (guarded : Guarded world p) :
    Linked (world.runtime.promises p).triggerParent
      { world with runtime := world.runtime.markHandled p } := by
  have promises_eq (x : Nat) : (world.runtime.markHandled p).promises x = _ :=
    promises_update p x PromiseState.handled
  have kept (x : Nat) : ((world.runtime.markHandled p).promises x).triggerParent =
        (world.runtime.promises x).triggerParent ∧
      ((world.runtime.markHandled p).promises x).state = (world.runtime.promises x).state := by
    grind
  refine ⟨fun x above => ?_, fun child x => ?_, fun x isIn => ?_, fun child x flagged => ?_,
    fun x flagged => ?_, fun x => ?_, fun x isIn => ?_, fun x => ?_, linked.pendingNodup,
    linked.reportedNodup⟩
  · have := linked.fresh x above
    have above : world.runtime.count ≤ x := above
    grind
  · simpa only [kept] using linked.parents child x
  · have := linked.guards x isIn
    grind
  · have := linked.closed child x
    grind
  · have isOld : Guarded world x := by
      have := linked.guarded x
      grind
    exact isOld.mono (fun _ isIn => isIn) fun child x => by simp only [kept, imp_self]
  · rw [(kept x).2]
    exact linked.rejected x
  · have := linked.pending x isIn
    grind
  · simpa only [kept] using linked.reported x

theorem Linked.markChain (below : p < bound) (linked : Linked (some p) world)
    (known : p < world.runtime.count) (guarded : Guarded world p) :
    Linked none { world with runtime := world.runtime.markChain bound p } := by
  induction bound generalizing p world with
  | zero => omega
  | succ bound ih =>
    have marked := linked.markHandled known guarded
    rw [Runtime.markChain]
    cases isParent : (world.runtime.promises p).triggerParent with
    | none => rwa [isParent] at marked
    | some parent =>
      have smaller := (linked.parents p parent isParent).1
      rw [isParent] at marked
      refine ih (by omega) marked (smaller.trans known) ?_
      refine .derived (marked.guarded p ?_) ?_ <;>
        simp [Runtime.markHandled, Runtime.update, PromiseState.handled, isParent]

theorem Linked.settle
    (linked : Linked none world) (known : p < world.runtime.count) (isRejected : Bool) :
    Linked none { world with runtime := world.runtime.settle p isRejected } := by
  by_cases isPending : (world.runtime.promises p).state = .pending
  · rw [Runtime.settle, if_pos isPending]
    have pending := linked.pending p
    refine ⟨fun x above => ?_, fun child x isParent => ?_, fun x isIn => ?_,
      fun child x flagged isParent => ?_, fun x flagged => ?_, fun x isRejected => ?_,
      fun x isIn => ?_, fun x isIn => ?_, ?_, linked.reportedNodup⟩
    · have := linked.fresh x above
      have above : world.runtime.count ≤ x := above
      grind
    · exact linked.parents child x (by grind)
    · have := linked.guards x isIn
      grind
    · have := linked.closed child x
      grind
    · refine (linked.guarded x (by grind)).mono (fun _ isIn => isIn)
        fun child x isParent => ?_
      grind
    · have := linked.rejected x
      grind
    · have := linked.pending x
      have := linked.reported p
      grind
    · have := linked.reported x isIn
      grind
    · have := linked.pendingNodup
      grind [nodup_append]
  · rwa [Runtime.settle, if_neg isPending]

/-- The loop keeps what the flags say. -/
theorem checkLoop_spec (items : List Nat) (nodup : items.Nodup) :
    (Runtime.checkLoop items runtime).1 = items.filter runtime.isReported ∧
      (Runtime.checkLoop items runtime).2.count = runtime.count ∧
      ∀ x, ((Runtime.checkLoop items runtime).2.promises x).state = (runtime.promises x).state ∧
        ((Runtime.checkLoop items runtime).2.promises x).triggerParent =
          (runtime.promises x).triggerParent ∧
        ((Runtime.checkLoop items runtime).2.promises x).hasRejectionHandler =
          (runtime.promises x).hasRejectionHandler := by
  induction items generalizing runtime with
  | nil => simp [Runtime.checkLoop]
  | cons p items ih =>
    obtain ⟨notIn, nodup⟩ := nodup_cons.mp nodup
    by_cases isReported : runtime.isReported p = true
    · have others : items.filter (runtime.update p PromiseState.reported).isReported =
          items.filter runtime.isReported := by
        refine filter_congr fun x isIn => ?_
        have flag (x : Nat) :
            ((runtime.update p PromiseState.reported).promises x).hasRejectionHandler =
              (runtime.promises x).hasRejectionHandler := by
          grind
        simp only [Runtime.isReported, flag]
        rw [promises_update, if_neg (ne_of_mem_of_not_mem isIn notIn)]
      rw [Runtime.checkLoop, if_pos isReported, filter_cons_of_pos isReported]
      obtain ⟨reports, count, kept⟩ := @ih (runtime.update p PromiseState.reported) nodup
      refine ⟨by simp only [reports, others], count, fun x => ?_⟩
      grind
    · rw [Runtime.checkLoop, if_neg isReported, filter_cons_of_neg isReported]
      exact ih nodup

theorem Linked.check (linked : Linked none world) : Linked none (step .check world) := by
  obtain ⟨reports, count, kept⟩ := @checkLoop_spec world.runtime _ linked.pendingNodup
  have pending (x : Nat)
      (isIn : x ∈ world.runtime.pendingRejections.filter world.runtime.isReported) :=
    linked.pending x (mem_filter.mp isIn).1
  simp only [Rejections.step, Runtime.checkUnhandledRejections, reports]
  refine ⟨fun x above => ?_, fun child x => ?_, fun x => ?_, fun child x => ?_,
    fun x flagged => ?_, fun x isRejected => .inr (mem_append.mpr ?_), fun x isIn => ?_,
    fun x isIn => ?_, nodup_nil, ?_⟩
  · simpa only [kept] using linked.fresh x (by rwa [← count])
  · simpa only [kept] using linked.parents child x
  · simpa only [kept] using linked.guards x
  · simpa only [kept] using linked.closed child x
  · exact (linked.guarded x (by rwa [← (kept x).2.2])).mono (fun _ isIn => isIn)
      fun child x => by simp only [kept, imp_self]
  · exact (linked.rejected x (by rwa [← (kept x).1])).symm
  · cases isIn
  · rw [(kept x).1]
    exact (mem_append.mp isIn).elim (linked.reported x) fun isNew => (pending x isNew).1
  · exact nodup_append'.mpr ⟨linked.reportedNodup, linked.pendingNodup.filter _,
      fun x isOld isNew => (pending x isNew).2.2 isOld⟩

theorem Linked.step (linked : Linked none world) (event : Event) :
    Linked none (step event world) := by
  cases event with
  | make => exact linked.mkpromise (by simp)
  | then_ p callable =>
    have applied := linked.apply p callable
    rw [Rejections.step]
    split_ifs with known isCallable
    · have derived := @Linked.mkpromise _ _ applied (some p) (by simpa using known)
      rw [isCallable] at derived
      exact derived.markChain (Nat.lt_succ_self p) (Nat.lt_succ_of_lt known) (.here mem_cons_self)
    · rw [if_neg isCallable, if_neg isCallable] at applied
      exact applied.mkpromise (by simpa using known)
    · exact linked
  | await p =>
    rw [Rejections.step]
    split_ifs with known
    · exact (linked.apply p true).markChain (Nat.lt_succ_self p) known (.here mem_cons_self)
    · exact linked
  | settle p isRejected =>
    rw [Rejections.step]
    split_ifs with known
    · exact linked.settle known isRejected
    · exact linked
  | check => exact linked.check

theorem linked_initial : Linked none initial := by
  constructor <;> simp [initial]

theorem linked_run (events : List Event) (linked : Linked none world) :
    Linked none (Machine.run step events world) := by
  exact events.foldlRecOn _ linked fun _ linked event _ => linked.step event

end Invariant

section Exactness

variable {world : World}

/-- Every promise that was checked and to which nothing was applied is reported. -/
def Complete (world : World) : Prop :=
  ∀ p ∈ world.checked, p ∉ world.applied → p ∈ world.reported

/-- What a check reports. -/
theorem Linked.mem_reports (linked : Linked none world) :
    p ∈ world.runtime.checkUnhandledRejections.1 ↔
      p ∈ world.runtime.pendingRejections ∧ ¬ Guarded world p ∧ ¬ ParentGuarded world p := by
  have silent (isIn : p ∈ world.runtime.pendingRejections) := (linked.pending p isIn).2.1
  have parent : (world.runtime.promises p).triggerParent.any
      (fun parent => (world.runtime.promises parent).hasRejectionHandler) = true ↔
        ParentGuarded world p := by
    simp only [Option.any_eq_true, linked.hasRejectionHandler_iff, ParentGuarded]
  simp only [Runtime.checkUnhandledRejections,
    (@checkLoop_spec world.runtime _ linked.pendingNodup).1, mem_filter, Runtime.isReported,
    ← linked.hasRejectionHandler_iff]
  grind

/-- A check reports what it should exactly if the guards are where something was applied. -/
theorem checksExactly_iff (linked : Linked none world) (complete : Complete world) (event : Event) :
    ChecksExactly event world ↔ GuardsMeet event world := by
  cases event with
  | check =>
    simp only [ChecksExactly, GuardsMeet, linked.mem_reports]
    constructor
    · intro exact p isIn
      have := linked.pending p isIn
      grind
    · intro meets p
      have := linked.pending p
      have := linked.rejected p
      have := complete p
      have := @Linked.applied_of_guarded world none p linked
      grind
  | _ => rfl

/-- A check that reports what it should leaves nothing out. -/
theorem Complete.step (linked : Linked none world) (complete : Complete world) (event : Event)
    (exact : ChecksExactly event world) :
    Complete (step event world) := by
  cases event with
  | check =>
    intro x isChecked notApplied
    refine mem_append.mpr ?_
    rcases mem_append.mp isChecked with isOld | isNew
    · exact .inl (complete x isOld notApplied)
    · obtain ⟨isRejected, -, notReported⟩ := linked.pending x isNew
      exact .inr ((exact x).mpr ⟨isRejected, notApplied, notReported⟩)
  | _ =>
    intro x
    have := complete x
    grind [Rejections.step]

/-- Along every history no promise is reported twice, and every check reports the rejected promises
to which nothing was applied exactly if the guards are right at every check. -/
theorem checksExactly_iff_guardsMeet (events : List Event) :
    (Machine.run step events initial).reported.Nodup ∧
      (Machine.EachInOrder step ChecksExactly events initial ↔
        Machine.EachInOrder step GuardsMeet events initial) := by
  refine ⟨(linked_run events linked_initial).reportedNodup,
    Machine.eachInOrder_iff_of_sound (fun world => Linked none world ∧ Complete world) ?_ ?_ events
      ⟨linked_initial, ?_⟩⟩
  · exact fun event world sound => checksExactly_iff sound.1 sound.2 event
  · exact fun event world sound exact => ⟨sound.1.step event, sound.2.step sound.1 event exact⟩
  · rintro p ⟨⟩

/-- A promise with `then` is reported if the callback for rejections is missing, and one derived
from a promise that also has a `catch` is not. -/
theorem not_checksExactly :
    ¬ Machine.EachInOrder step ChecksExactly
        [.make, .then_ 0 false, .settle 0 true, .settle 1 true, .check] initial ∧
      ¬ Machine.EachInOrder step ChecksExactly
        [.make, .then_ 0 false, .then_ 0 true, .settle 0 true, .settle 1 true, .settle 2 false,
          .check] initial := by
  constructor
  · intro each
    have exact := each [.make, .then_ 0 false, .settle 0 true, .settle 1 true] .check
      (prefix_refl _) 0
    exact absurd (exact.mp (by decide)).2.1 (by decide)
  · intro each
    have exact := each [.make, .then_ 0 false, .then_ 0 true, .settle 0 true, .settle 1 true,
      .settle 2 false] .check (prefix_refl _) 1
    exact absurd (exact.mpr (by decide)) (by decide)

end Exactness

end Rejections
end AntRuntime.Promises
