import AntRuntime.Promises.Registration

/-!
# Taking the next job

The event loop passes over triggers without handlers, starts and ends batches of
handlers, and takes the handlers of a batch one by one. Each of these either
leaves the list of jobs as it is or takes its first job off.
-/

namespace AntRuntime.Promises

open List Function
namespace TriggerQueue

/-- Going from one queue to another takes the given job, if any, off the front
of the list, and leaves the handlers of pending promises alone. -/
structure Delivers
    (status : Nat → Status) (before : TriggerQueue) (job : Option Job)
    (after : TriggerQueue) : Prop where
  sound : Sound status after
  jobs_eq : before.jobs status = job.toList ++ after.jobs status
  waiting_eq : ∀ promise, status promise = .pending → after.waiting promise = before.waiting promise

/-- The handlers of a promise that have not been run. -/
def outstanding : TriggerQueue → Nat → List Handler :=
  unprocessed Batch.index

/-- The handler of a promise that a job runs, with the state it is given; the batch is the one
in work when the job has been taken. -/
def served : Option Job → Option Batch → Nat → List (Handler × Status)
  | some (.reaction handler status), some batch, promise =>
    if batch.promise = promise then [(handler, status)] else []
  | _, _, _ => []

/-- In addition, a handler that is run is the first one of its promise that has not been run, and
it is given the state of its promise. -/
structure Takes
    (status : Nat → Status) (before : TriggerQueue) (job : Option Job)
    (after : TriggerQueue) : Prop extends Delivers status before job after where
  taken_eq : ∀ promise, (before.outstanding promise).map (·, status promise) =
      served job after.batch promise ++ (after.outstanding promise).map (·, status promise)

section Delivery

variable {status : Nat → Status} {queue : TriggerQueue} {batch : Batch}

theorem Takes.trans
    {first second third : TriggerQueue} {job : Option Job} (passed : Takes status first none second)
    (taken : Takes status second job third) :
    Takes status first job third where
  sound := taken.sound
  jobs_eq := by
    rw [passed.jobs_eq, taken.jobs_eq]
    rfl
  waiting_eq := by
    intro promise pending
    rw [taken.waiting_eq promise pending, passed.waiting_eq promise pending]
  taken_eq := by
    intro promise
    rw [passed.taken_eq promise, taken.taken_eq promise]
    rfl

variable {data : Nat → PromiseData}
variable {microtasks processing rest : List Entry}

/-- The first entry is a job. -/
theorem takes_other
    {job : Job} (sound : Sound status ⟨data, microtasks, .other job :: rest, none⟩) :
    Takes status ⟨data, microtasks, .other job :: rest, none⟩ (some job)
      ⟨data, microtasks, rest, none⟩ where
  sound :=
    { sound with batch_sound := by simp }
  jobs_eq := rfl
  waiting_eq := fun _ _ => rfl
  taken_eq := by simp [served, outstanding, unprocessed]

section

variable (sound : Sound status ⟨data, microtasks, .trigger promise :: rest, none⟩)
include sound

/-- Taking the trigger of a promise off the queue: its handlers are run or get into work. -/
theorem Sound.dequeue
    {taken : PromiseData} (valid : taken.Valid) (cleared : taken.triggerQueued = false)
    {batch : Option Batch}
    (batch_sound : ∀ current, batch = some current →
      BatchSound status (update data promise taken) current)
    (waiting_other : ∀ other, other ≠ promise →
      waiting ⟨update data promise taken, microtasks, rest, batch⟩ other =
        (data other).content)
    (waiting_self :
      waiting ⟨update data promise taken, microtasks, rest, batch⟩
        promise = [])
    {job : Option Job}
    (started :
      (data promise).content.map (fun handler => Job.reaction handler (status promise)) =
        job.toList ++
          working ⟨update data promise taken, microtasks, rest, batch⟩) :
    Delivers status ⟨data, microtasks, .trigger promise :: rest, none⟩ job
      ⟨update data promise taken, microtasks, rest, batch⟩ := by
  have once := sound.once
  simp only [entries, cons_append, triggers, nodup_cons] at once
  have members : ∀ other, other ≠ promise →
      (other ∈ triggers (.trigger promise :: rest ++ microtasks) ↔
        other ∈ triggers (rest ++ microtasks)) := by
    intro other different
    simp [triggers, different]
  refine ⟨⟨⟨?_, ?_, once.2, ?_, batch_sound⟩, ?_⟩, ?_, ?_⟩
  · exact (forall_update_iff _ fun _ => PromiseData.Valid).mpr
      ⟨valid, fun other _ => sound.valid other⟩
  · refine (forall_update_iff _ fun other (after : PromiseData) =>
      after.triggerQueued = true ↔ other ∈ triggers (rest ++ microtasks)).mpr ⟨?_, ?_⟩
    · simpa [cleared] using once.1
    · intro other different
      exact (sound.queued other).trans (members other different)
  · intro other isTrigger
    refine sound.triggered other ?_
    simp only [entries, cons_append, triggers, mem_cons]
    exact Or.inr isTrigger
  · intro other settled waits
    have different : other ≠ promise := by
      rintro rfl
      exact waits waiting_self
    rw [waiting_other other different] at waits
    exact (members other different).mp (sound.waits other settled waits)
  · have later :
        entriesJobs status (waiting ⟨update data promise taken, microtasks, rest, batch⟩)
            (rest ++ microtasks) =
          entriesJobs status (fun other => (data other).content) (rest ++ microtasks) := by
      refine entriesJobs_congr (fun _ _ => rfl) ?_
      intro other isTrigger
      refine waiting_other other ?_
      rintro rfl
      exact once.1 isTrigger
    simp only [jobs, entries, later, ← append_assoc]
    rw [← started]
    rfl
  · intro other pending
    refine waiting_other other ?_
    rintro rfl
    exact sound.triggered other (by simp [entries, triggers]) pending

/-- A trigger without handlers is passed over. -/
theorem takes_unused (unused : (data promise).content = []) :
    Takes status ⟨data, microtasks, .trigger promise :: rest, none⟩ none
      ⟨update data promise { data promise with triggerQueued := false },
        microtasks, rest, none⟩ := by
  have waiting_eq : ∀ other, waiting ⟨update data promise
          { data promise with triggerQueued := false }, microtasks, rest, none⟩ other =
        (data other).content := by
    intro other
    exact content_update_triggerQueued data promise other false
  refine ⟨sound.dequeue ((sound.valid promise).triggerQueued false) rfl (by simp)
    (fun other _ => waiting_eq other) ((waiting_eq promise).trans unused)
    (by rw [unused]; rfl), ?_⟩
  intro other
  exact congrArg _ (waiting_eq other).symm

/-- A single handler is copied, taken off and run. -/
theorem takes_single {handler : Handler} (single : (data promise).content = [handler]) :
    Takes status ⟨data, microtasks, .trigger promise :: rest, none⟩
      (some (.reaction handler (status promise)))
      ⟨update data promise
          ({ data promise with triggerQueued := false } : PromiseData).clear,
        microtasks, rest, some ⟨promise, status promise, 1, 1, some handler⟩⟩ := by
  have settled : status promise ≠ .pending := sound.triggered promise (by simp [entries, triggers])
  refine ⟨sound.dequeue (PromiseData.valid_clear { data promise with triggerQueued := false }) rfl
    ?_ ?_ (by simp [waiting]) (by rw [single]; rfl), ?_⟩
  · rintro _ ⟨⟩
    exact ⟨rfl, settled, Nat.le_refl _, fun _ => rfl, by simp⟩
  · intro other different
    simp [waiting, update_of_ne different]
  · intro other
    by_cases same : other = promise
    · subst same
      simp [served, outstanding, unprocessed, single]
    · simp [served, outstanding, unprocessed, update_of_ne same, Ne.symm same]

/-- Several handlers become the handlers in work. -/
theorem takes_several (several : 2 ≤ (data promise).handlerCount) :
    Takes status ⟨data, microtasks, .trigger promise :: rest, none⟩ none
      ⟨update data promise { data promise with triggerQueued := false },
        microtasks, rest,
        some ⟨promise, status promise, (data promise).handlerCount, 0, none⟩⟩ := by
  have settled : status promise ≠ .pending := sound.triggered promise (by simp [entries, triggers])
  have length : (data promise).content.length = (data promise).handlerCount :=
    (sound.valid promise).length
  refine ⟨sound.dequeue ((sound.valid promise).triggerQueued false) rfl ?_ ?_ ?_ ?_, ?_⟩
  · rintro _ ⟨⟩
    refine ⟨rfl, settled, Nat.zero_le _, by simp, fun _ => ⟨several, ?_⟩⟩
    simp
  · intro other different
    simp [waiting, update_of_ne different, different.symm]
  · simp only [waiting, and_self, if_true, content_update_triggerQueued]
    rw [← length, drop_length]
  · simp only [working, content_update_triggerQueued]
    rw [← length, take_length]
    rfl
  · intro other
    simp [served, outstanding, unprocessed, content_update_triggerQueued]

end

/-- The next handler in work is run. -/
theorem takes_handler (sound : Sound status queue) (inWork : queue.batch = some batch)
    (unfinished : batch.index < batch.len) :
    ∃ handler,
      (∀ remaining, nextHandler (queue.data batch.promise) batch (remaining + 1) =
        some (handler, { batch with index := batch.index + 1 })) ∧
      Takes status queue (some (.reaction handler batch.status))
        { queue with batch := some { batch with index := batch.index + 1 } } := by
  obtain ⟨status_eq, settled, index_le, single, several⟩ := sound.batch_sound batch inWork
  have inlineNone : batch.inlineHandler = none := by
    by_contra isInline
    have := single isInline
    omega
  have valid := sound.valid batch.promise
  have bound : batch.index < (queue.data batch.promise).content.length := by
    rw [valid.length]
    have := (several inlineNone).2
    omega
  refine ⟨(queue.data batch.promise).content[batch.index], ?_, ?_⟩
  · intro remaining
    simp only [nextHandler, inlineNone, PromiseData.handlerAt_eq valid, getElem?_eq_getElem bound]
  · have waiting_eq :
        waiting { queue with batch := some { batch with index := batch.index + 1 } } =
          queue.waiting := by
      funext promise
      simp only [waiting, inWork]
    refine ⟨⟨⟨⟨sound.valid, sound.queued, sound.once, sound.triggered, ?_⟩, ?_⟩, ?_, ?_⟩, ?_⟩
    · rintro _ ⟨⟩
      exact ⟨status_eq, settled, unfinished, fun isInline => absurd inlineNone isInline, several⟩
    · rw [waiting_eq]
      exact sound.waits
    · have taken : batch.index < ((queue.data batch.promise).content.take batch.len).length := by
        rw [length_take]
        omega
      simp only [jobs, waiting_eq]
      simp only [working, inWork, inlineNone, drop_eq_getElem_cons taken, getElem_take]
      rfl
    · intro promise _
      rw [waiting_eq]
    · intro promise
      by_cases same : batch.promise = promise
      · subst same
        simp only [served, outstanding, unprocessed, inWork, inlineNone,
          status_eq, drop_eq_getElem_cons bound]
        rfl
      · simp [served, outstanding, unprocessed, inWork, same]

section

variable (sound : Sound status ⟨data, microtasks, processing, some batch⟩)
include sound

/-- Ending a batch leaves the handlers that wait. -/
theorem endBatch_spec :
    (∀ promise, (endBatch data batch promise).Valid) ∧
      (∀ promise, (endBatch data batch promise).triggerQueued =
        (data promise).triggerQueued) ∧
      (∀ promise, (endBatch data batch promise).content =
        waiting ⟨data, microtasks, processing, some batch⟩ promise) := by
  cases isInline : batch.inlineHandler with
  | some single =>
    simp only [endBatch, isInline, waiting]
    refine ⟨sound.valid, ?_, ?_⟩ <;> simp
  | none =>
    obtain ⟨several, within⟩ := (sound.batch_sound batch rfl).several isInline
    obtain ⟨content_eq, valid, queued_eq⟩ :=
      PromiseData.content_discardPrefix (sound.valid batch.promise) several within
    simp only [endBatch, isInline]
    refine ⟨?_, ?_, ?_⟩
    · exact (forall_update_iff _ fun _ => PromiseData.Valid).mpr
        ⟨valid, fun promise _ => sound.valid promise⟩
    · exact (forall_update_iff _ fun promise (after : PromiseData) =>
        after.triggerQueued = (data promise).triggerQueued).mpr ⟨queued_eq, fun _ _ => rfl⟩
    · refine (forall_update_iff _ fun promise (after : PromiseData) =>
        after.content = waiting ⟨data, microtasks, processing, some batch⟩ promise).mpr ⟨?_, ?_⟩
      · simpa [waiting, isInline, and_self] using content_eq
      · intro promise different
        simp [waiting, different.symm]

/-- A finished batch is ended: its handlers are taken off. -/
theorem takes_endBatch (finished : batch.index = batch.len) :
    Takes status ⟨data, microtasks, processing, some batch⟩ none
      ⟨endBatch data batch, microtasks, processing, none⟩ := by
  obtain ⟨valid, queued_eq, content_eq⟩ := endBatch_spec sound
  have waiting_eq :
      waiting ⟨endBatch data batch, microtasks, processing, none⟩ =
        waiting ⟨data, microtasks, processing, some batch⟩ := by
    funext promise
    exact content_eq promise
  refine ⟨⟨⟨⟨valid, ?_, sound.once, sound.triggered, by simp⟩, ?_⟩, ?_, ?_⟩, ?_⟩
  · intro promise
    simp only [queued_eq]
    exact sound.queued promise
  · rw [waiting_eq]
    exact sound.waits
  · have workingNil :
        working ⟨data, microtasks, processing, some batch⟩ = [] := by
      simp only [working, finished]
      cases batch.inlineHandler <;> simp
    simp only [jobs, waiting_eq, workingNil]
    rfl
  · intro promise _
    rw [waiting_eq]
  · intro promise
    simp only [outstanding, unprocessed, content_eq, finished]
    rfl

end

/-- The microtasks queued since become the batch in work. -/
theorem takes_rotated (sound : Sound status ⟨data, microtasks, [], none⟩) :
    Takes status ⟨data, microtasks, [], none⟩ none ⟨data, [], microtasks, none⟩ := by
  have entries_eq :
      entries ⟨data, [], microtasks, none⟩ = entries ⟨data, microtasks, [], none⟩ := by
    simp [entries]
  refine ⟨⟨⟨⟨sound.valid, ?_, ?_, ?_, by simp⟩, ?_⟩, ?_, fun _ _ => rfl⟩, fun _ => rfl⟩
  · rw [entries_eq]
    exact sound.queued
  · rw [entries_eq]
    exact sound.once
  · rw [entries_eq]
    exact sound.triggered
  · rw [entries_eq]
    exact sound.waits
  · rw [jobs, jobs, entries_eq]
    rfl

/-- What the search through a list of entries has found. -/
def EntryTakes (status : Nat → Status) (before : TriggerQueue) (microtasks : List Entry) :
    (Nat → PromiseData) × Option (Job × Option Batch × List Entry) → Prop
  | (after, some (job, batch, rest)) =>
    Takes status before (some job) ⟨after, microtasks, rest, batch⟩
  | (after, none) => Takes status before none ⟨after, microtasks, [], none⟩

theorem Takes.entry_trans {first second : TriggerQueue} (passed : Takes status first none second)
    {found : (Nat → PromiseData) × Option (Job × Option Batch × List Entry)}
    (taken : EntryTakes status second microtasks found) :
    EntryTakes status first microtasks found := by
  rcases found with ⟨after, _ | ⟨job, batch, rest⟩⟩
  · exact passed.trans taken
  · exact passed.trans taken

section

variable (sound : Sound status ⟨data, microtasks, processing, none⟩)
include sound

/-- The search through a list of entries takes the first job. -/
theorem nextEntry_spec :
    EntryTakes status ⟨data, microtasks, processing, none⟩ microtasks
      (nextEntry status data processing) := by
  induction processing generalizing data with
  | nil => exact ⟨⟨sound, rfl, fun _ _ => rfl⟩, fun _ => rfl⟩
  | cons entry rest ih =>
    cases entry with
    | other job => exact takes_other sound
    | trigger promise =>
      have length : (data promise).content.length =
          (data promise).handlerCount := (sound.valid promise).length
      rcases count : (data promise).handlerCount with _ | _ | more
      · have passed := takes_unused sound (eq_nil_of_length_eq_zero (length.trans count))
        simp only [nextEntry, update_self]
        rw [if_pos count]
        exact passed.entry_trans (ih passed.sound)
      · obtain ⟨handler, single⟩ := length_eq_one_iff.mp (length.trans count)
        have inlined : (data promise).inlineHandler = some handler := by
          simpa [PromiseData.content, count] using single
        simp only [nextEntry, startBatch, update_self, update_idem, count, inlined]
        have taken := takes_single sound single
        exact taken
      · have passed := takes_several sound (by omega)
        obtain ⟨handler, first, taken⟩ := takes_handler passed.sound rfl (by simp only; omega)
        have found := first (more + 1)
        simp only [update_self, count] at found
        simp only [nextEntry, startBatch, update_self, count]
        rw [if_neg (by omega), if_neg (by omega)]
        simp only [update_self, found]
        have whole := passed.trans taken
        simp only [count] at whole
        exact whole

/-- The search through the batch of microtasks in work and those queued since
takes the first job. -/
theorem nextJob_spec :
    Takes status ⟨data, microtasks, processing, none⟩
      (nextJob status data processing microtasks).1
      (nextJob status data processing microtasks).2 := by
  have current := nextEntry_spec sound
  unfold nextJob
  generalize nextEntry status data processing = found at current ⊢
  rcases found with ⟨after, _ | ⟨job, batch, rest⟩⟩
  · have passed := Takes.trans current (takes_rotated current.sound)
    have later := nextEntry_spec passed.sound
    simp only
    generalize nextEntry status after microtasks = foundLater at later ⊢
    rcases foundLater with ⟨last, _ | ⟨job, batch, rest⟩⟩
    · exact passed.trans later
    · exact passed.trans later
  · exact current

end

/-- The event loop takes the first job. -/
theorem next_spec (sound : Sound status queue) :
    Takes status queue (next status queue).1 (next status queue).2 := by
  obtain ⟨data, microtasks, processing, batch⟩ := queue
  cases batch with
  | none => exact nextJob_spec sound
  | some batch =>
    by_cases unfinished : batch.index < batch.len
    · obtain ⟨handler, first, taken⟩ := takes_handler sound rfl unfinished
      have found := first (batch.len - batch.index - 1)
      rw [show batch.len - batch.index - 1 + 1 = batch.len - batch.index by omega] at found
      simp only [next, found]
      exact taken
    · have finished : batch.index = batch.len := by
        have := (sound.batch_sound batch rfl).index_le
        omega
      have ended := takes_endBatch sound finished
      simp only [next, finished, Nat.sub_self]
      exact ended.trans (nextJob_spec ended.sound)

theorem nextJob_of_none (isNone : (nextJob status data processing microtasks).1 = none) :
    ∃ after, (nextJob status data processing microtasks).2 = ⟨after, [], [], none⟩ := by
  unfold nextJob at isNone ⊢
  generalize nextEntry status data processing = found at isNone ⊢
  rcases found with ⟨after, _ | ⟨job, batch, rest⟩⟩
  · simp only at isNone ⊢
    generalize nextEntry status after microtasks = foundLater at isNone ⊢
    rcases foundLater with ⟨last, _ | ⟨job, batch, rest⟩⟩
    · exact ⟨last, rfl⟩
    · simp at isNone
  · simp at isNone

/-- If the event loop finds no job, nothing is queued or in work. -/
theorem next_of_none (isNone : (next status queue).1 = none) :
    ∃ after, (next status queue).2 = ⟨after, [], [], none⟩ := by
  obtain ⟨data, microtasks, processing, _ | batch⟩ := queue
  · exact nextJob_of_none isNone
  · simp only [next] at isNone ⊢
    generalize nextHandler (data batch.promise) batch (batch.len - batch.index) = found at isNone ⊢
    rcases found with _ | ⟨handler, advanced⟩
    · exact nextJob_of_none isNone
    · simp at isNone

/-- If the event loop finds no job, there is none. -/
theorem jobs_next_of_none (isNone : (next status queue).1 = none) :
    (next status queue).2.jobs status = [] := by
  obtain ⟨after, after_eq⟩ := next_of_none isNone
  rw [after_eq]
  rfl

end Delivery

end TriggerQueue
end AntRuntime.Promises
