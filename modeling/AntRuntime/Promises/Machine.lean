import Mathlib.Algebra.Group.Nat.Defs
import Mathlib.Logic.Function.Basic

/-!
# Promises over a scheduler

The parts of the promise machinery that do not depend on how jobs are queued:
resolving and rejecting, thenable jobs, `then` and `await`, and what happens
when a callback returns. How a reaction gets its turn is left to a scheduler;
the runtime's queue of triggers and the job queue of ECMAScript are two of
them.

A program is a sequence of events: the calls that running code makes, the
return of the running callback, and the ticks at which the event loop takes the
next job. A tick tells which job it starts, so that two schedulers can be
compared on everything a program can see.
-/

namespace AntRuntime.Promises

/-- JavaScript values, as far as promises look into them: promises, other
objects with a callable `then`, errors made by the engine, and the rest. -/
inductive Value
  | data (tag : Nat)
  | promise (id : Nat)
  | thenable (id : Nat)
  | error (message : String)
  deriving DecidableEq, Repr

/-- `state` and `value` of a promise. -/
inductive Status
  | pending
  | fulfilled (value : Value)
  | rejected (reason : Value)
  deriving DecidableEq, Repr

/-- `promise_handler_t`. -/
structure Handler where
  onFulfilled : Option Nat
  onRejected : Option Nat
  nextPromise : Option Nat
  awaitCoro : Option Nat
  deriving DecidableEq, Repr

/-- A job of the event loop. -/
inductive Job
  /-- Run a handler of a promise that has settled so. -/
  | reaction (handler : Handler) (status : Status)
  /-- Run a callback given to `queueMicrotask`. -/
  | callback (id : Nat)
  /-- Let a promise follow a thenable. -/
  | thenable (promise : Nat) (value : Value)
  /-- Resume a coroutine that awaited a plain value. -/
  | resume (coroutine : Nat) (value : Value)
  deriving DecidableEq, Repr

/-- What the promise machinery needs from a queue of type `Queue`. -/
structure Scheduler (Queue : Type) where
  /-- A handler is registered on a promise with the given status. -/
  register : Queue → Nat → Status → Handler → Queue
  /-- A promise has just settled. -/
  settled : Queue → Nat → Status → Queue
  /-- A job that is not a reaction is queued. -/
  enqueue : Queue → Job → Queue
  /-- The next job to run, given the status of each promise. -/
  next : (Nat → Status) → Queue → Option Job × Queue

/-- The code that is running, and what is owed to it when it returns. -/
inductive Running
  | idle
  /-- A callback or a coroutine whose result nobody waits for. -/
  | plain
  /-- A reaction whose result settles a promise. -/
  | reaction (nextPromise : Option Nat)
  /-- A thenable's `then`, called with a pair of resolving functions. -/
  | thenCall (pair : Nat)
  deriving DecidableEq, Repr

/-- A pair of resolving functions: its promise, and whether one of the two has
been called. -/
structure Resolvers where
  promise : Nat
  called : Bool
  deriving DecidableEq, Repr

/-- The state of the promise machinery. Promises and pairs of resolving
functions are numbered in order of creation. -/
structure State (Queue : Type) where
  promises : Nat
  status : Nat → Status
  pairs : List Resolvers
  running : Running
  queue : Queue

/-- How the running code ended. -/
inductive Ending
  | returned (value : Value)
  | threw (error : Value)
  deriving DecidableEq, Repr

/-- What running code can do, and what the event loop does. -/
inductive Event
  /-- `new Promise`: a promise with a pair of resolving functions. -/
  | create
  | resolve (pair : Nat) (value : Value)
  | reject (pair : Nat) (reason : Value)
  /-- `promise.then(onFulfilled, onRejected)`; `catch` leaves the first out. -/
  | registerThen (promise : Nat) (onFulfilled onRejected : Option Nat)
  | await (coroutine : Nat) (value : Value)
  | queueMicrotask (callback : Nat)
  /-- The running code returns to the event loop. -/
  | finish (ending : Ending)
  /-- The event loop takes the next job. -/
  | tick
  deriving DecidableEq, Repr

section Operations

variable (scheduler : Scheduler Queue) (state : State Queue)

/-- Register a handler. -/
def registerHandler (promise : Nat) (handler : Handler) : State Queue :=
  { state with
    queue :=
      scheduler.register state.queue promise (state.status promise) handler }

/-- Queue a job. -/
def enqueueJob (job : Job) : State Queue :=
  { state with queue := scheduler.enqueue state.queue job }

/-- Settle a pending promise. -/
def settle (promise : Nat) (status : Status) : State Queue :=
  if state.status promise = .pending then
    { state with
      status := Function.update state.status promise status
      queue := scheduler.settled state.queue promise status }
  else state

/-- `js_reject_promise`. -/
def rejectPromise (promise : Nat) (reason : Value) : State Queue :=
  settle scheduler state promise (.rejected reason)

/-- `js_resolve_promise`. -/
def resolvePromise (promise : Nat) (value : Value) : State Queue :=
  if state.status promise = .pending then
    match value with
    | .promise other =>
      if other = promise then
        rejectPromise scheduler state promise (.error "TypeError: Chaining cycle")
      else enqueueJob scheduler state (.thenable promise value)
    | .thenable _ => enqueueJob scheduler state (.thenable promise value)
    | .data _ | .error _ => settle scheduler state promise (.fulfilled value)
  else state

/-- `js_mkpromise`. -/
def newPromise : State Queue :=
  { state with promises := state.promises + 1 }

/-- `make_promise_resolving_functions`. -/
def newResolvers (promise : Nat) : State Queue :=
  { state with pairs := state.pairs ++ [⟨promise, false⟩] }

/-- `builtin_resolve_internal` and `builtin_reject_internal`: the first call of
a pair acts on its promise. -/
def callResolver (pair : Nat) (act : State Queue → Nat → State Queue) : State Queue :=
  match state.pairs[pair]? with
  | some ⟨promise, false⟩ =>
    act { state with pairs := state.pairs.set pair ⟨promise, true⟩ } promise
  | _ => state

/-- `sv_await_value`: a plain value resumes the coroutine by a job of its own,
anything else is awaited as a promise. -/
def awaitValue (coroutine : Nat) (value : Value) : State Queue :=
  let handler : Handler := ⟨none, none, none, some coroutine⟩
  match value with
  | .data _ | .error _ => enqueueJob scheduler state (.resume coroutine value)
  | .promise promise => registerHandler scheduler state promise handler
  | .thenable _ =>
    let promise := state.promises
    let created := resolvePromise scheduler (newPromise state) promise value
    registerHandler scheduler created promise handler

/-- The promise a handler settles, if it has one. -/
def onNextPromise (nextPromise : Option Nat)
    (act : State Queue → Nat → State Queue) : State Queue :=
  match nextPromise with
  | some promise => act state promise
  | none => state

/-- `js_process_promise_handlers` for one handler, up to the call of its
callback. -/
def startReaction (handler : Handler) (status : Status) : State Queue :=
  match handler.awaitCoro with
  | some _ => { state with running := .plain }
  | none =>
    match status with
    | .fulfilled value =>
      match handler.onFulfilled with
      | some _ => { state with running := .reaction handler.nextPromise }
      | none =>
        onNextPromise state handler.nextPromise fun state promise =>
          resolvePromise scheduler state promise value
    | .rejected reason =>
      match handler.onRejected with
      | some _ => { state with running := .reaction handler.nextPromise }
      | none =>
        onNextPromise state handler.nextPromise fun state promise =>
          rejectPromise scheduler state promise reason
    | .pending => state

/-- `process_microtask_entry`, up to the call of user code. -/
def startJob : Job → State Queue
  | .reaction handler status => startReaction scheduler state handler status
  | .callback _ => { state with running := .plain }
  | .resume _ _ => { state with running := .plain }
  | .thenable promise (.promise source) =>
    registerHandler scheduler state source ⟨none, none, some promise, none⟩
  | .thenable promise _ =>
    { newResolvers state promise with running := .thenCall state.pairs.length }

/-- What the return of the running code settles. -/
def finishRunning (ending : Ending) : State Queue :=
  let idle := { state with running := .idle }
  match state.running, ending with
  | .reaction nextPromise, .returned value =>
    onNextPromise idle nextPromise fun state promise =>
      resolvePromise scheduler state promise value
  | .reaction nextPromise, .threw error =>
    onNextPromise idle nextPromise fun state promise =>
      rejectPromise scheduler state promise error
  | .thenCall pair, .threw error =>
    callResolver idle pair fun state promise =>
      rejectPromise scheduler state promise error
  | _, _ => idle

/-- One event; a tick tells the job it starts. A tick while code is running
does nothing. -/
def step : Event → Option Job × State Queue
  | .create => (none, newResolvers (newPromise state) state.promises)
  | .resolve pair value =>
    (none, callResolver state pair fun state promise =>
      resolvePromise scheduler state promise value)
  | .reject pair reason =>
    (none, callResolver state pair fun state promise =>
      rejectPromise scheduler state promise reason)
  | .registerThen promise onFulfilled onRejected =>
    (none, registerHandler scheduler (newPromise state) promise
      ⟨onFulfilled, onRejected, some state.promises, none⟩)
  | .await coroutine value => (none, awaitValue scheduler state coroutine value)
  | .queueMicrotask callback => (none, enqueueJob scheduler state (.callback callback))
  | .finish ending => (none, finishRunning scheduler state ending)
  | .tick =>
    if state.running = .idle then
      match scheduler.next state.status state.queue with
      | (none, queue) => (none, { state with queue })
      | (some job, queue) => (some job, startJob scheduler { state with queue } job)
    else (none, state)

/-- The jobs that the ticks of a sequence of events start. -/
def jobsRun : State Queue → List Event → List (Option Job)
  | _, [] => []
  | state, event :: rest =>
    let (job, next) := step scheduler state event
    job :: jobsRun next rest

/-- The state before any promise is made. -/
def initialState (queue : Queue) : State Queue :=
  ⟨0, fun _ => .pending, [], .idle, queue⟩

end Operations

end AntRuntime.Promises
