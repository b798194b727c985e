import AntRuntime.Promises.Machine

/-!
# The runtime's queue of promise triggers

The runtime queues one trigger per promise, which runs all its handlers
together, and queues no second trigger while one is queued. The handlers of a
promise are kept in one inline slot while there is one, and in an array from
the second on; their number is a 16-bit counter.
-/

namespace AntRuntime.Promises

/-- The fields of `ant_promise_state_t` that hold its handlers. -/
structure PromiseData where
  handlerCount : Nat
  inlineHandler : Option Handler
  handlers : List Handler
  triggerQueued : Bool

namespace PromiseData

/-- A new promise. -/
def empty : PromiseData :=
  ⟨0, none, [], false⟩

variable (data : PromiseData)

/-- `promise_handler_append`; the counter is a `uint16_t`. -/
def append (handler : Handler) : PromiseData :=
  match data.handlerCount with
  | 0 => { data with inlineHandler := some handler, handlerCount := 1 }
  | 1 =>
    { data with
      handlers := data.handlers ++ data.inlineHandler.toList ++ [handler]
      handlerCount := 2 }
  | count =>
    { data with
      handlers := data.handlers ++ [handler]
      handlerCount := (count + 1) % 2 ^ 16 }

/-- `promise_handler_at`. -/
def handlerAt (index : Nat) : Option Handler :=
  if data.handlerCount ≤ index then none
  else if data.handlerCount = 1 then data.inlineHandler
  else data.handlers[index]?

/-- `promise_handlers_clear`. -/
def clear : PromiseData :=
  { data with handlerCount := 0, inlineHandler := none, handlers := [] }

/-- `promise_handlers_discard_processed_prefix`. -/
def discardPrefix (count : Nat) : PromiseData :=
  if count = data.handlerCount then data.clear
  else if data.handlerCount - count = 1 then
    { data with
      handlerCount := 1
      inlineHandler := (data.handlers.drop count).head?
      handlers := [] }
  else
    { data with
      handlerCount := data.handlerCount - count
      inlineHandler := none
      handlers := data.handlers.drop count }

end PromiseData

/-- `microtask_entry_t`: a promise trigger, or an entry that is a job. -/
inductive Entry
  | trigger (promise : Nat)
  | other (job : Job)
  deriving DecidableEq, Repr

/-- The loop of `js_process_promise_handlers`: the promise with the status read
at the start, the number of handlers at the start, the index of the next one,
and the copy of a single handler. -/
structure Batch where
  promise : Nat
  status : Status
  len : Nat
  index : Nat
  inlineHandler : Option Handler

/-- The handlers of the promises, the microtasks queued since the batch of
microtasks in work was taken, that batch, and the handlers in work. -/
structure TriggerQueue where
  data : Nat → PromiseData
  microtasks : List Entry
  processing : List Entry
  batch : Option Batch

namespace TriggerQueue

/-- The queue before any promise is made. -/
def empty : TriggerQueue :=
  ⟨fun _ => .empty, [], [], none⟩

variable (queue : TriggerQueue)

/-- `queue_promise_trigger`. -/
def queueTrigger (promise : Nat) : TriggerQueue :=
  let data := queue.data promise
  if data.triggerQueued then queue
  else
    { queue with
      data := Function.update queue.data promise { data with triggerQueued := true }
      microtasks := queue.microtasks ++ [.trigger promise] }

/-- `promise_handler_append`, and the trigger if the promise has settled. -/
def register (promise : Nat) (status : Status) (handler : Handler) : TriggerQueue :=
  let appended :=
    { queue with
      data :=
        Function.update queue.data promise ((queue.data promise).append handler) }
  if status = .pending then appended else appended.queueTrigger promise

/-- The end of `js_resolve_promise` and of `js_reject_promise`: a fulfilled
promise is triggered if it has handlers, a rejected one in any case. -/
def settled (promise : Nat) (status : Status) : TriggerQueue :=
  match status with
  | .pending => queue
  | .fulfilled _ =>
    if (queue.data promise).handlerCount = 0 then queue
    else queue.queueTrigger promise
  | .rejected _ => queue.queueTrigger promise

/-- `queue_microtask_entry`. -/
def enqueue (job : Job) : TriggerQueue :=
  { queue with microtasks := queue.microtasks ++ [.other job] }

/-- The next handler of a batch at or after its index; `remaining` bounds the
handlers left. -/
def nextHandler
    (data : PromiseData) (batch : Batch) : Nat → Option (Handler × Batch)
  | 0 => none
  | remaining + 1 =>
    let advanced := { batch with index := batch.index + 1 }
    let handler :=
      match batch.inlineHandler with
      | some single => some single
      | none => data.handlerAt batch.index
    match handler with
    | some found => some (found, advanced)
    | none => nextHandler data advanced remaining

/-- The start of `js_process_promise_handlers`: a single handler is copied and
taken off, several stay until the batch ends. -/
def startBatch (data : Nat → PromiseData) (promise : Nat)
    (status : Status) : (Nat → PromiseData) × Batch :=
  let current := data promise
  if current.handlerCount = 1 then
    (Function.update data promise current.clear, ⟨promise, status, 1, 0, current.inlineHandler⟩)
  else (data, ⟨promise, status, current.handlerCount, 0, none⟩)

/-- The end of `js_process_promise_handlers`. -/
def endBatch (data : Nat → PromiseData) (batch : Batch) : Nat → PromiseData :=
  match batch.inlineHandler with
  | some _ => data
  | none => Function.update data batch.promise ((data batch.promise).discardPrefix batch.len)

/-- `process_microtask_batch` up to the next job: triggers without handlers are
passed over. -/
def nextEntry (status : Nat → Status) (data : Nat → PromiseData) :
    List Entry →
      (Nat → PromiseData) × Option (Job × Option Batch × List Entry)
  | [] => (data, none)
  | .other job :: rest => (data, some (job, none, rest))
  | .trigger promise :: rest =>
    let dequeued := Function.update data promise { data promise with triggerQueued := false }
    if (dequeued promise).handlerCount = 0 then nextEntry status dequeued rest
    else
      let (started, batch) := startBatch dequeued promise (status promise)
      match nextHandler (started promise) batch batch.len with
      | some (handler, advanced) =>
        (started, some (.reaction handler batch.status, some advanced, rest))
      | none => nextEntry status (endBatch started batch) rest

/-- The next job among the entries of the batch of microtasks in work, or else
of the microtasks queued since. -/
def nextJob (status : Nat → Status) (data : Nat → PromiseData)
    (processing microtasks : List Entry) : Option Job × TriggerQueue :=
  match nextEntry status data processing with
  | (after, some (job, batch, rest)) => (some job, ⟨after, microtasks, rest, batch⟩)
  | (after, none) =>
    match nextEntry status after microtasks with
    | (last, some (job, batch, rest)) => (some job, ⟨last, [], rest, batch⟩)
    | (last, none) => (none, ⟨last, [], [], none⟩)

/-- `process_microtasks_internal` up to the next job. -/
def next (status : Nat → Status) (queue : TriggerQueue) : Option Job × TriggerQueue :=
  match queue.batch with
  | none => nextJob status queue.data queue.processing queue.microtasks
  | some batch =>
    match nextHandler (queue.data batch.promise) batch (batch.len - batch.index) with
    | some (handler, advanced) =>
      (some (.reaction handler batch.status),
        { queue with batch := some advanced })
    | none => nextJob status (endBatch queue.data batch) queue.processing queue.microtasks

end TriggerQueue

/-- The runtime's scheduler. -/
def triggerScheduler : Scheduler TriggerQueue where
  register := TriggerQueue.register
  settled := TriggerQueue.settled
  enqueue := TriggerQueue.enqueue
  next := TriggerQueue.next

end AntRuntime.Promises
