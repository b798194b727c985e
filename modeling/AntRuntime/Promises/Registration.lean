import AntRuntime.Promises.Flattening

/-!
# Registering and settling

What triggering a promise, registering a handler and settling a promise do to
the list of jobs. A handler registered on a settled promise becomes the last job
only under `InOrder`: while the trigger of the promise is queued, the handler
joins the jobs of that trigger.
-/

namespace AntRuntime.Promises

open List Function
namespace TriggerQueue

section Operations

variable {status : Nat → Status} {queue : TriggerQueue}

/-- Marking a trigger as queued changes no handlers. -/
theorem content_update_triggerQueued
    (data : Nat → PromiseData) (promise other : Nat) (isQueued : Bool) :
    (update data promise
        { data promise with triggerQueued := isQueued } other).content =
      (data other).content := by
  by_cases same : other = promise
  · subst same
    rw [update_self]
    rfl
  · rw [update_of_ne same]

/-- Two queues with the same handlers and the same batch have the same handlers
waiting and in work. -/
theorem waiting_working_congr {first second : TriggerQueue} (sameBatch : first.batch = second.batch)
    (sameContent : ∀ promise,
      (first.data promise).content = (second.data promise).content) :
    first.waiting = second.waiting ∧ first.working = second.working := by
  refine ⟨?_, ?_⟩
  · funext promise
    simp only [waiting, sameBatch, sameContent]
  · simp only [working, sameBatch, sameContent]

/-- A batch in work stays sound while no handlers are taken off. -/
theorem BatchSound.mono
    {batch : Batch} (batchSound : BatchSound status queue.data batch) {data : Nat → PromiseData}
    (longer : ∀ promise, (queue.data promise).handlerCount ≤ (data promise).handlerCount) :
    BatchSound status data batch := by
  obtain ⟨status_eq, isSettled, index_le, single, several⟩ := batchSound
  refine ⟨status_eq, isSettled, index_le, single, ?_⟩
  intro inlineNone
  exact ⟨(several inlineNone).1, Nat.le_trans (several inlineNone).2 (longer batch.promise)⟩

/-- Replacing the data of a promise by valid data that has no fewer handlers. -/
theorem Coherent.replace
    (coherent : Coherent status queue) {data : PromiseData} (valid : data.Valid)
    (longer : (queue.data promise).handlerCount ≤ data.handlerCount)
    (queued_eq : data.triggerQueued = (queue.data promise).triggerQueued) :
    Coherent status { queue with data := update queue.data promise data } := by
  refine ⟨?_, ?_, coherent.once, coherent.triggered, ?_⟩
  · exact (forall_update_iff _ fun _ => PromiseData.Valid).mpr
      ⟨valid, fun other _ => coherent.valid other⟩
  · refine (forall_update_iff _ fun other (data : PromiseData) =>
      data.triggerQueued = true ↔ other ∈ triggers queue.entries).mpr ⟨?_, ?_⟩
    · rw [queued_eq]
      exact coherent.queued promise
    · intro other _
      exact coherent.queued other
  · intro batch isBatch
    refine (coherent.batch_sound batch isBatch).mono ?_
    exact (forall_update_iff _ fun other (data : PromiseData) =>
      (queue.data other).handlerCount ≤ data.handlerCount).mpr
      ⟨longer, fun other _ => Nat.le_refl _⟩

/-- Triggering a promise changes no handlers. -/
theorem queueTrigger_kept (queue : TriggerQueue) (promise : Nat) :
    (queue.queueTrigger promise).batch = queue.batch ∧
      ∀ other, ((queue.queueTrigger promise).data other).content =
        (queue.data other).content := by
  by_cases isQueued : (queue.data promise).triggerQueued = true
  · simp [queueTrigger, isQueued]
  · simp [queueTrigger, isQueued, content_update_triggerQueued]

/-- Triggering a settled promise queues all its waiting handlers, unless its
trigger is queued already. -/
theorem queueTrigger_spec (coherent : Coherent status queue) (settled : status promise ≠ .pending) :
    Coherent status (queue.queueTrigger promise) ∧
      (queue.queueTrigger promise).waiting = queue.waiting ∧
      (∀ other, other ∈ triggers (queue.queueTrigger promise).entries ↔
        other ∈ triggers queue.entries ∨ other = promise) ∧
      (queue.queueTrigger promise).jobs status =
        queue.jobs status ++
          if promise ∈ triggers queue.entries then []
          else entryJobs status queue.waiting (.trigger promise) := by
  by_cases isQueued : (queue.data promise).triggerQueued = true
  · have member := (coherent.queued promise).mp isQueued
    have same : queue.queueTrigger promise = queue := by simp [queueTrigger, isQueued]
    rw [same, if_pos member, append_nil]
    refine ⟨coherent, rfl, ?_, rfl⟩
    intro other
    constructor
    · exact Or.inl
    · rintro (known | rfl)
      · exact known
      · exact member
  · have absent : promise ∉ triggers queue.entries :=
      fun member => isQueued ((coherent.queued promise).mpr member)
    have entries_eq :
        (queue.queueTrigger promise).entries = queue.entries ++ [.trigger promise] := by
      simp [queueTrigger, isQueued, entries]
    obtain ⟨batch_eq, content_eq⟩ := queueTrigger_kept queue promise
    have data_eq :
        (queue.queueTrigger promise).data = update queue.data promise
            { queue.data promise with triggerQueued := true } := by
      simp [queueTrigger, isQueued]
    obtain ⟨waiting_eq, working_eq⟩ :
        (queue.queueTrigger promise).waiting = queue.waiting ∧
          (queue.queueTrigger promise).working = queue.working :=
      waiting_working_congr batch_eq content_eq
    have members : ∀ other, other ∈ triggers (queue.queueTrigger promise).entries ↔
          other ∈ triggers queue.entries ∨ other = promise := by
      intro other
      simp [entries_eq, triggers]
    refine ⟨⟨?_, ?_, ?_, ?_, ?_⟩, waiting_eq, members, ?_⟩
    · rw [data_eq]
      exact (forall_update_iff _ fun _ => PromiseData.Valid).mpr
        ⟨(coherent.valid promise).triggerQueued true, fun other _ => coherent.valid other⟩
    · intro other
      rw [members, data_eq]
      by_cases same : other = promise
      · subst same
        simp
      · rw [update_of_ne same, coherent.queued]
        simp [same]
    · rw [entries_eq, triggers_append]
      exact nodup_append.mpr ⟨coherent.once, by simp [triggers], by
        rintro known isKnown _ isPromise rfl
        simp only [triggers, mem_singleton] at isPromise
        exact absent (isPromise ▸ isKnown)⟩
    · intro other isTrigger
      rcases (members other).mp isTrigger with known | rfl
      · exact coherent.triggered other known
      · exact settled
    · intro batch isBatch
      rw [batch_eq] at isBatch
      refine (coherent.batch_sound batch isBatch).mono ?_
      rw [data_eq]
      exact (forall_update_iff _ fun other (data : PromiseData) =>
        (queue.data other).handlerCount ≤ data.handlerCount).mpr
        ⟨Nat.le_refl _, fun other _ => Nat.le_refl _⟩
    · rw [if_neg absent, jobs, jobs, entries_eq, waiting_eq, working_eq]
      simp

/-- A queue with one more handler of a promise. -/
def appendHandler (queue : TriggerQueue) (promise : Nat) (handler : Handler) : TriggerQueue :=
  { queue with
    data :=
      update queue.data promise ((queue.data promise).append handler) }

/-- The handlers of a promise, without those of the batch in work that count as
processed. -/
def unprocessed (processed : Batch → Nat) (queue : TriggerQueue) (promise : Nat) : List Handler :=
  match queue.batch with
  | some batch =>
    if batch.promise = promise ∧ batch.inlineHandler = none then
      (queue.data promise).content.drop (processed batch)
    else (queue.data promise).content
  | none => (queue.data promise).content

section

variable (coherent : Coherent status queue)
include coherent

theorem unprocessed_appendHandler {processed : Batch → Nat}
    (within : ∀ batch, queue.batch = some batch → processed batch ≤ batch.len)
    (room : (queue.data promise).handlerCount + 1 < 2 ^ 16) (handler : Handler) :
    (queue.appendHandler promise handler).unprocessed processed =
      update (queue.unprocessed processed) promise
        (queue.unprocessed processed promise ++ [handler]) := by
  have valid := coherent.valid promise
  have content_eq := PromiseData.content_append valid room handler
  funext other
  by_cases same : other = promise
  · subst same
    simp only [unprocessed, appendHandler, update_self, content_eq]
    cases isBatch : queue.batch with
    | none => rfl
    | some batch =>
      simp only
      split_ifs with inBatch
      · obtain ⟨rfl, inlineNone⟩ := inBatch
        have several := ((coherent.batch_sound batch isBatch).several inlineNone).2
        rw [drop_append_of_le_length]
        rw [valid.length]
        exact Nat.le_trans (within batch isBatch) several
      · rfl
  · simp only [unprocessed, appendHandler, update_of_ne same]

/-- A handler appended to a promise waits behind those of the promise. -/
theorem appendHandler_spec
    (room : (queue.data promise).handlerCount + 1 < 2 ^ 16) (handler : Handler) :
    Coherent status (queue.appendHandler promise handler) ∧
      (queue.appendHandler promise handler).waiting =
        update queue.waiting promise
          (queue.waiting promise ++ [handler]) ∧
      (queue.appendHandler promise handler).working = queue.working := by
  have valid := coherent.valid promise
  have content_eq := PromiseData.content_append valid room handler
  have longer := PromiseData.handlerCount_append room handler
  refine ⟨?_, ?_, ?_⟩
  · exact coherent.replace (valid.append room handler) (by omega)
      (PromiseData.triggerQueued_append _ handler)
  · exact unprocessed_appendHandler coherent (fun _ _ => Nat.le_refl _) room handler
  · simp only [working, appendHandler]
    cases isBatch : queue.batch with
    | none => rfl
    | some batch =>
      cases isInline : batch.inlineHandler with
      | some single => simp only [isInline]
      | none =>
        simp only [isInline]
        by_cases same : batch.promise = promise
        · have within := ((coherent.batch_sound batch isBatch).several isInline).2
          rw [same, ← valid.length] at within
          rw [same, update_self, content_eq, take_append_of_le_length within]
        · rw [update_of_ne same]

/-- A promise that settles has no trigger queued and no handler in work. -/
theorem Coherent.update_status (pending : status promise = .pending) (outcome : Status) :
    Coherent (update status promise outcome) queue ∧
      queue.jobs (update status promise outcome) = queue.jobs status ∧
      promise ∉ triggers queue.entries := by
  have absent : promise ∉ triggers queue.entries :=
    fun member => coherent.triggered promise member pending
  have elsewhere : ∀ other ∈ triggers queue.entries,
      update status promise outcome other = status other := by
    intro other isTrigger
    rw [update_of_ne]
    rintro rfl
    exact absent isTrigger
  refine ⟨{ coherent with triggered := ?_, batch_sound := ?_ }, ?_, absent⟩
  · intro other isTrigger
    rw [elsewhere other isTrigger]
    exact coherent.triggered other isTrigger
  · intro batch isBatch
    obtain ⟨status_eq, isSettled, index_le, single, several⟩ := coherent.batch_sound batch isBatch
    have different : batch.promise ≠ promise := by
      intro same
      rw [same] at isSettled
      exact isSettled pending
    refine ⟨?_, ?_, index_le, single, several⟩
    · rw [update_of_ne different]
      exact status_eq
    · rw [update_of_ne different]
      exact isSettled
  · rw [jobs, jobs, entriesJobs_congr elsewhere (fun _ _ => rfl)]

end

/-- A handler registered now takes the place ECMAScript gives it: the counter
of the promise has room, and if the promise has settled and its trigger is
queued, no job waits behind the trigger. -/
def InOrder (status : Nat → Status) (queue : TriggerQueue) (promise : Nat) : Prop :=
  (queue.data promise).handlerCount + 1 < 2 ^ 16 ∧ (status promise ≠ .pending →
      (queue.data promise).triggerQueued = true →
      entriesJobs status queue.waiting (behindTrigger promise queue.entries) = [])

instance (status : Nat → Status) (queue : TriggerQueue) (promise : Nat) :
    Decidable (InOrder status queue promise) :=
  inferInstanceAs (Decidable (_ ∧ (_ → _ → _)))

/-- A handler registered on a pending promise waits there. -/
theorem register_pending_spec (sound : Sound status queue) (pending : status promise = .pending)
    (room : (queue.data promise).handlerCount + 1 < 2 ^ 16) (handler : Handler) :
    let after := queue.register promise .pending handler
    Sound status after ∧ after.jobs status = queue.jobs status ∧ after.waiting =
        update queue.waiting promise (queue.waiting promise ++ [handler]) := by
  intro after
  obtain ⟨coherent, waiting_eq, working_eq⟩ := appendHandler_spec sound.toCoherent room handler
  have absent : promise ∉ triggers queue.entries :=
    fun member => sound.triggered promise member pending
  refine ⟨⟨coherent, ?_⟩, ?_, waiting_eq⟩
  · intro other settled waits
    have different : other ≠ promise := by
      rintro rfl
      exact settled pending
    change (queue.appendHandler promise handler).waiting other ≠ [] at waits
    rw [waiting_eq, update_of_ne different] at waits
    exact sound.waits other settled waits
  · change (queue.appendHandler promise handler).working ++
      entriesJobs status (queue.appendHandler promise handler).waiting queue.entries = _
    rw [working_eq, waiting_eq, entriesJobs_update_of_notMem absent, jobs]

theorem register_of_settled (settled : status promise ≠ .pending) (handler : Handler) :
    queue.register promise (status promise) handler =
      (queue.appendHandler promise handler).queueTrigger promise := by
  simp [register, settled, appendHandler]

/-- A handler registered on a settled promise waits behind its trigger. -/
theorem register_settled_sound (sound : Sound status queue) (settled : status promise ≠ .pending)
    (room : (queue.data promise).handlerCount + 1 < 2 ^ 16) (handler : Handler) :
    let after := queue.register promise (status promise) handler
    Sound status after ∧ ∀ other, other ≠ promise → after.waiting other = queue.waiting other := by
  intro after
  obtain ⟨appended, appended_waiting, -⟩ := appendHandler_spec sound.toCoherent room handler
  obtain ⟨coherent, waiting_eq, members, -⟩ := queueTrigger_spec appended settled
  rw [← register_of_settled settled] at coherent waiting_eq members
  have waiting_other : ∀ other, other ≠ promise → after.waiting other = queue.waiting other := by
    intro other different
    rw [waiting_eq, appended_waiting, update_of_ne different]
  refine ⟨⟨coherent, ?_⟩, waiting_other⟩
  intro other isSettled waits
  rw [members]
  by_cases same : other = promise
  · exact Or.inr same
  · rw [waiting_other other same] at waits
    exact Or.inl (sound.waits other isSettled waits)

/-- A handler registered in order on a settled promise is the last job. -/
theorem register_settled_spec (sound : Sound status queue) (settled : status promise ≠ .pending)
    (inOrder : InOrder status queue promise) (handler : Handler) :
    let after := queue.register promise (status promise) handler
    Sound status after ∧ after.jobs status =
        queue.jobs status ++ [.reaction handler (status promise)] ∧
      ∀ other, other ≠ promise → after.waiting other = queue.waiting other := by
  intro after
  obtain ⟨soundAfter, waiting_other⟩ := register_settled_sound sound settled inOrder.1 handler
  obtain ⟨appended, appended_waiting, appended_working⟩ :=
    appendHandler_spec sound.toCoherent inOrder.1 handler
  obtain ⟨-, -, -, jobs_eq⟩ := queueTrigger_spec appended settled
  have same_entries : (queue.appendHandler promise handler).entries = queue.entries := rfl
  rw [← register_of_settled settled] at jobs_eq
  refine ⟨soundAfter, ?_, waiting_other⟩
  · rw [jobs_eq, jobs, same_entries, appended_waiting, appended_working, jobs]
    by_cases isQueued : promise ∈ triggers queue.entries
    · -- the trigger is queued: the handler joins the jobs behind it
      have last := inOrder.2 settled ((sound.queued promise).mpr isQueued)
      rw [if_pos isQueued, append_nil,
        entriesJobs_update_waiting isQueued sound.once last, append_assoc]
    · -- no trigger is queued: no handler waits, and a trigger is added
      have nothing : queue.waiting promise = [] := by
        by_contra waits
        exact isQueued (sound.waits promise settled waits)
      rw [if_neg isQueued, entriesJobs_update_of_notMem isQueued]
      simp [entryJobs, nothing]

/-- A promise that settles queues its handlers in order. -/
theorem settled_spec
    (sound : Sound status queue) (pending : status promise = .pending) {outcome : Status}
    (isSettled : outcome ≠ .pending) :
    let after := queue.settled promise outcome
    let statusAfter := update status promise outcome
    Sound statusAfter after ∧ after.jobs statusAfter = queue.jobs status ++
          (queue.waiting promise).map (fun handler => .reaction handler outcome) ∧
      after.waiting = queue.waiting := by
  intro after statusAfter
  obtain ⟨coherent, jobs_eq, absent⟩ := sound.toCoherent.update_status pending outcome
  have status_self : statusAfter promise = outcome := update_self ..
  have settledNow : statusAfter promise ≠ .pending := by
    rw [status_self]
    exact isSettled
  have knownBefore : ∀ other, other ≠ promise → statusAfter other ≠ .pending →
      queue.waiting other ≠ [] → other ∈ triggers queue.entries := by
    intro other different otherSettled waits
    refine sound.waits other ?_ waits
    rwa [show statusAfter other = status other from
      update_of_ne different ..] at otherSettled
  have triggering : after = queue.queueTrigger promise → Sound statusAfter after ∧
        after.jobs statusAfter = queue.jobs status ++
            (queue.waiting promise).map (fun handler => .reaction handler outcome) ∧
        after.waiting = queue.waiting := by
    intro after_eq
    obtain ⟨triggered, waiting_eq, members, triggeredJobs⟩ := queueTrigger_spec coherent settledNow
    rw [← after_eq] at triggered waiting_eq members triggeredJobs
    refine ⟨⟨triggered, ?_⟩, ?_, waiting_eq⟩
    · intro other otherSettled waits
      rw [members]
      rw [waiting_eq] at waits
      by_cases same : other = promise
      · exact Or.inr same
      · exact Or.inl (knownBefore other same otherSettled waits)
    · rw [triggeredJobs, jobs_eq, if_neg absent, entryJobs, update_self]
  cases outcome with
  | pending => exact absurd rfl isSettled
  | rejected reason => exact triggering rfl
  | fulfilled value =>
    by_cases unused : (queue.data promise).handlerCount = 0
    · have after_eq : after = queue := by simp [after, settled, unused]
      have nothing : queue.waiting promise = [] := by
        have noHandlers : (queue.data promise).content = [] := by
          apply eq_nil_of_length_eq_zero
          rw [(sound.valid promise).length, unused]
        simp only [waiting, noHandlers]
        cases queue.batch <;> simp
      rw [after_eq]
      refine ⟨⟨coherent, ?_⟩, ?_, rfl⟩
      · intro other otherSettled waits
        have different : other ≠ promise := by
          rintro rfl
          exact waits nothing
        exact knownBefore other different otherSettled waits
      · rw [jobs_eq, nothing, map_nil, append_nil]
    · refine triggering ?_
      simp [after, settled, unused]

end Operations

end TriggerQueue
end AntRuntime.Promises
