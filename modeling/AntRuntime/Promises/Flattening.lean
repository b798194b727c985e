import AntRuntime.Promises.Handlers
import AntRuntime.Promises.JobQueue

/-!
# The trigger queue as a job queue

Expanding every queued trigger into the handlers that wait behind it gives the
list of jobs the runtime is going to run. `Sound` collects what keeps this list
meaningful, and the lemmas say how each operation of the queue changes it.
-/

namespace AntRuntime.Promises

open List

/-- The promises whose triggers are among the entries. -/
def triggers : List Entry → List Nat
  | [] => []
  | .trigger promise :: rest => promise :: triggers rest
  | .other _ :: rest => triggers rest

@[simp] theorem triggers_append (first second : List Entry) :
    triggers (first ++ second) = triggers first ++ triggers second := by
  induction first with
  | nil => rfl
  | cons entry rest ih =>
    cases entry <;> simp [triggers, ih]

/-- The jobs of an entry, given the handlers waiting at each promise. -/
def entryJobs
    (status : Nat → Status)
    (waiting : Nat → List Handler) : Entry → List Job
  | .trigger promise => (waiting promise).map fun handler => .reaction handler (status promise)
  | .other job => [job]

/-- The jobs of a list of entries. -/
def entriesJobs (status : Nat → Status) (waiting : Nat → List Handler)
    (entries : List Entry) : List Job :=
  entries.flatMap (entryJobs status waiting)

section Entries

variable {status otherStatus : Nat → Status}
variable {waiting otherWaiting : Nat → List Handler} {entries : List Entry}

@[simp] theorem entriesJobs_nil : entriesJobs status waiting [] = [] := rfl

@[simp] theorem entriesJobs_cons (entry : Entry) (rest : List Entry) :
    entriesJobs status waiting (entry :: rest) =
      entryJobs status waiting entry ++ entriesJobs status waiting rest := rfl

@[simp] theorem entriesJobs_append (first second : List Entry) :
    entriesJobs status waiting (first ++ second) =
      entriesJobs status waiting first ++ entriesJobs status waiting second :=
  flatMap_append

/-- The jobs of entries depend on the promises they trigger only. -/
theorem entriesJobs_congr
    (sameStatus : ∀ promise ∈ triggers entries,
      status promise = otherStatus promise)
    (sameWaiting : ∀ promise ∈ triggers entries,
      waiting promise = otherWaiting promise) :
    entriesJobs status waiting entries = entriesJobs otherStatus otherWaiting entries := by
  induction entries with
  | nil => rfl
  | cons entry rest ih =>
    cases entry with
    | other job =>
      rw [entriesJobs_cons, ih sameStatus sameWaiting]
      rfl
    | trigger promise =>
      simp only [triggers, forall_mem_cons] at sameStatus sameWaiting
      rw [entriesJobs_cons, entriesJobs_cons, ih sameStatus.2 sameWaiting.2]
      simp only [entryJobs, sameStatus.1, sameWaiting.1]

/-- Handlers that no trigger among the entries reaches add no jobs. -/
theorem entriesJobs_update_of_notMem (absent : promise ∉ triggers entries)
    (handlers : List Handler) :
    entriesJobs status (Function.update waiting promise handlers) entries =
      entriesJobs status waiting entries := by
  refine entriesJobs_congr (fun _ _ => rfl) ?_
  intro other isTrigger
  rw [Function.update_of_ne]
  rintro rfl
  exact absent isTrigger

/-- The entries behind the trigger of a promise. -/
def behindTrigger (promise : Nat) : List Entry → List Entry
  | [] => []
  | entry :: rest =>
    if entry = .trigger promise then rest else behindTrigger promise rest

/-- A handler added behind a queued trigger is last if nothing waits behind the
trigger. -/
theorem entriesJobs_update_waiting (queued : promise ∈ triggers entries)
    (once : (triggers entries).Nodup)
    (last : entriesJobs status waiting (behindTrigger promise entries) = []) (handler : Handler) :
    entriesJobs status
        (Function.update waiting promise (waiting promise ++ [handler])) entries =
      entriesJobs status waiting entries ++
        [.reaction handler (status promise)] := by
  induction entries with
  | nil => simp [triggers] at queued
  | cons entry rest ih =>
    by_cases here : entry = .trigger promise
    · subst here
      simp only [triggers, nodup_cons] at once
      simp only [behindTrigger, if_true] at last
      rw [entriesJobs_cons, entriesJobs_cons, entriesJobs_update_of_notMem once.1, last]
      simp [entryJobs]
    · simp only [behindTrigger, here] at last
      have deeper : promise ∈ triggers rest ∧ (triggers rest).Nodup := by
        cases entry with
        | other job => exact ⟨queued, once⟩
        | trigger other =>
          simp only [triggers, nodup_cons, mem_cons] at once queued
          refine ⟨queued.resolve_left ?_, once.2⟩
          rintro rfl
          exact here rfl
      have first : entryJobs status
          (Function.update waiting promise (waiting promise ++ [handler])) entry =
            entryJobs status waiting entry := by
        cases entry with
        | other job => rfl
        | trigger other =>
          have different : other ≠ promise := by
            rintro rfl
            exact here rfl
          simp [entryJobs, Function.update_of_ne different]
      rw [entriesJobs_cons, entriesJobs_cons, first, ih deeper.1 deeper.2 last, append_assoc]

end Entries

namespace TriggerQueue

variable (queue : TriggerQueue)

/-- All entries in order. -/
def entries : List Entry :=
  queue.processing ++ queue.microtasks

/-- The handlers of a promise that wait for a trigger: those in work do not. -/
def waiting (promise : Nat) : List Handler :=
  match queue.batch with
  | some batch =>
    if batch.promise = promise ∧ batch.inlineHandler = none then
      (queue.data promise).content.drop batch.len
    else (queue.data promise).content
  | none => (queue.data promise).content

/-- The jobs of the handlers in work. -/
def working : List Job :=
  match queue.batch with
  | some batch =>
    match batch.inlineHandler with
    | some _ => []
    | none =>
      (((queue.data batch.promise).content.take batch.len).drop
        batch.index).map fun handler => .reaction handler batch.status
  | none => []

/-- The jobs the runtime is going to run, in order. -/
def jobs (status : Nat → Status) : List Job :=
  queue.working ++ entriesJobs status queue.waiting queue.entries

/-- A batch in work on a settled promise. -/
structure BatchSound
    (status : Nat → Status) (data : Nat → PromiseData)
    (batch : Batch) : Prop where
  status_eq : batch.status = status batch.promise
  settled : status batch.promise ≠ .pending
  index_le : batch.index ≤ batch.len
  single : batch.inlineHandler ≠ none → batch.index = batch.len
  several :
    batch.inlineHandler = none → 2 ≤ batch.len ∧ batch.len ≤ (data batch.promise).handlerCount

/-- The queue and the promises agree: each trigger is queued once and for a
settled promise. -/
structure Coherent (status : Nat → Status) (queue : TriggerQueue) : Prop where
  valid : ∀ promise, (queue.data promise).Valid
  queued : ∀ promise, (queue.data promise).triggerQueued = true ↔ promise ∈ triggers queue.entries
  once : (triggers queue.entries).Nodup
  triggered : ∀ promise ∈ triggers queue.entries, status promise ≠ .pending
  batch_sound : ∀ batch, queue.batch = some batch → BatchSound status queue.data batch

/-- In addition, a settled promise with waiting handlers has its trigger
queued. -/
structure Sound (status : Nat → Status) (queue : TriggerQueue) : Prop
    extends Coherent status queue where
  waits : ∀ promise, status promise ≠ .pending → queue.waiting promise ≠ [] →
    promise ∈ triggers queue.entries

theorem sound_empty : Sound (fun _ => .pending) empty where
  valid := fun _ => PromiseData.valid_empty
  queued := by simp [empty, entries, triggers, PromiseData.empty]
  once := by simp [empty, entries, triggers]
  triggered := by simp [empty, entries, triggers]
  waits := by simp
  batch_sound := by simp [empty]

section Operations

variable {status : Nat → Status} {queue : TriggerQueue}

/-- Queueing a job adds it at the end. -/
theorem enqueue_spec (sound : Sound status queue) (job : Job) :
    Sound status (queue.enqueue job) ∧
      (queue.enqueue job).jobs status = queue.jobs status ++ [job] := by
  have entries_eq : (queue.enqueue job).entries = queue.entries ++ [.other job] := by
    simp [enqueue, entries]
  have triggers_eq :
      triggers (queue.enqueue job).entries = triggers queue.entries := by
    simp [entries_eq, triggers]
  refine ⟨⟨⟨sound.valid, ?_, ?_, ?_, sound.batch_sound⟩, ?_⟩, ?_⟩
  · intro promise
    rw [triggers_eq]
    exact sound.queued promise
  · rw [triggers_eq]
    exact sound.once
  · rw [triggers_eq]
    exact sound.triggered
  · rw [triggers_eq]
    exact sound.waits
  · rw [jobs, entries_eq, entriesJobs_append, ← append_assoc]
    rfl

end Operations

end TriggerQueue

end AntRuntime.Promises
