import AntRuntime.Machine.Runs
import AntRuntime.Promises.Delivery

/-!
# Every handler runs once

Handlers are registered, awaits are cancelled and promises settle in any order,
also between the handlers of a batch. What the event loop has run of a promise and
what the promise still holds are the handlers registered, in order, as long as
the 16-bit counter of handlers has room for each of them.
-/

namespace AntRuntime.Promises

open List Function Machine

/-- A handler after `js_promise_clear_await_coroutine`. -/
def Handler.clearAwait (coroutine : Nat) (handler : Handler) : Handler :=
  if handler.awaitCoro = some coroutine then { handler with awaitCoro := none } else handler

namespace PromiseData

/-- `js_promise_clear_await_coroutine`. -/
def clearAwaitCoroutine (data : PromiseData) (coroutine : Nat) : PromiseData :=
  match data.handlerCount with
  | 0 => data
  | 1 => { data with inlineHandler := data.inlineHandler.map (·.clearAwait coroutine) }
  | _ => { data with handlers := data.handlers.map (·.clearAwait coroutine) }

variable {data : PromiseData} (coroutine : Nat)

@[simp] theorem handlerCount_clearAwaitCoroutine :
    (data.clearAwaitCoroutine coroutine).handlerCount = data.handlerCount := by
  unfold clearAwaitCoroutine
  split <;> rfl

@[simp] theorem triggerQueued_clearAwaitCoroutine :
    (data.clearAwaitCoroutine coroutine).triggerQueued = data.triggerQueued := by
  unfold clearAwaitCoroutine
  split <;> rfl

/-- Cancelling an await changes the handlers in place, and none is lost. -/
@[simp] theorem content_clearAwaitCoroutine :
    (data.clearAwaitCoroutine coroutine).content =
      data.content.map (·.clearAwait coroutine) := by
  rcases count : data.handlerCount with _ | _ | more
  · simp [content, count]
  · cases stored : data.inlineHandler <;> simp [clearAwaitCoroutine, content, count, stored]
  · simp [clearAwaitCoroutine, content, count]

/-- Cancelling an await keeps the data of a promise valid. -/
theorem Valid.clearAwaitCoroutine (valid : data.Valid) :
    (data.clearAwaitCoroutine coroutine).Valid := by
  refine ⟨by simpa using valid.bound, by simpa using valid.length, ?_⟩
  intro atMostOne
  rw [handlerCount_clearAwaitCoroutine] at atMostOne
  have nothing := valid.stored atMostOne
  unfold PromiseData.clearAwaitCoroutine
  split <;> simp [nothing]

/-- The counter of a promise with 65,535 handlers wraps around. -/
theorem content_append_of_full
    (valid : data.Valid) (full : ¬ data.handlerCount + 1 < 2 ^ 16) (handler : Handler) :
    (data.append handler).content = [] := by
  have bound := valid.bound
  have count : data.handlerCount = 65535 := by omega
  simp [append, content, count]

end PromiseData

namespace TriggerQueue

/-- The queue after an await is cancelled. -/
def cancelAwait (queue : TriggerQueue) (promise coroutine : Nat) : TriggerQueue :=
  { queue with
    data := update queue.data promise
      ((queue.data promise).clearAwaitCoroutine coroutine) }

section Operations

variable {status : Nat → Status} {queue : TriggerQueue}

/-- A trigger for a promise does not change what is still to be run. -/
theorem outstanding_queueTrigger : (queue.queueTrigger promise).outstanding =
    queue.outstanding := by
  obtain ⟨batch_eq, content_eq⟩ := queueTrigger_kept queue promise
  funext other
  simp only [outstanding, unprocessed, batch_eq, content_eq]

/-- Settling a promise does not change what is still to be run. -/
theorem outstanding_settled (outcome : Status) :
    (queue.settled promise outcome).outstanding = queue.outstanding := by
  cases outcome with
  | pending => rfl
  | rejected reason => exact outstanding_queueTrigger
  | fulfilled value =>
    simp only [settled]
    split_ifs
    · rfl
    · exact outstanding_queueTrigger

/-- A registration adds what an appended handler adds. -/
theorem outstanding_register (handler : Handler) :
    (queue.register promise (status promise) handler).outstanding =
      (queue.appendHandler promise handler).outstanding := by
  by_cases pending : status promise = .pending
  · simp [register, pending, appendHandler]
  · rw [register_of_settled pending, outstanding_queueTrigger]

/-- Cancelling an await changes the handlers of its promise that are still to be run, and no
others. -/
theorem unprocessed_cancelAwait (processed : Batch → Nat) (coroutine : Nat) :
    (queue.cancelAwait promise coroutine).unprocessed processed =
      update (queue.unprocessed processed) promise
        ((queue.unprocessed processed promise).map (·.clearAwait coroutine)) := by
  funext other
  by_cases same : other = promise
  · subst same
    simp only [update_self, unprocessed, cancelAwait, PromiseData.content_clearAwaitCoroutine]
    cases queue.batch with
    | none => rfl
    | some batch =>
      simp only
      split_ifs
      · rw [map_drop]
      · rfl
  · simp only [update_of_ne same, unprocessed, cancelAwait]

/-- A handler is run with the final state of its promise. -/
theorem Takes.served_status
    {after : TriggerQueue} {job : Option Job} (takes : Takes status queue job after)
    {reaction : Handler × Status} (isServed : reaction ∈ served job after.batch promise) :
    reaction.2 = status promise ∧ status promise ≠ .pending := by
  constructor
  · have isTaken := mem_append_left ((after.outstanding promise).map (·, status promise)) isServed
    rw [← takes.taken_eq promise] at isTaken
    obtain ⟨handler, -, rfl⟩ := mem_map.mp isTaken
    rfl
  · unfold served at isServed
    split at isServed
    · rename_i handler given batch inWork
      split_ifs at isServed with here
      · exact here ▸ (takes.sound.batch_sound batch inWork).settled
      · cases isServed
    · cases isServed

variable (sound : Sound status queue)
include sound

/-- Cancelling an await keeps the queue sound. -/
theorem Sound.cancelAwait (coroutine : Nat) :
    Sound status (queue.cancelAwait promise coroutine) := by
  refine ⟨?_, ?_⟩
  · exact sound.toCoherent.replace ((sound.valid promise).clearAwaitCoroutine coroutine)
      (by simp) (by simp)
  · intro other settled waits
    refine sound.waits other settled ?_
    change unprocessed Batch.len _ other ≠ [] at waits ⊢
    rw [unprocessed_cancelAwait] at waits
    by_cases same : other = promise
    · subst same
      simpa using waits
    · rwa [update_of_ne same] at waits

/-- A registration keeps the queue sound as long as the counter of the promise has room. -/
theorem Sound.register (room : (queue.data promise).handlerCount + 1 < 2 ^ 16) (handler : Handler) :
    Sound status (queue.register promise (status promise) handler) := by
  by_cases pending : status promise = .pending
  · rw [pending]
    exact (register_pending_spec sound pending room handler).1
  · exact (register_settled_sound sound pending room handler).1

/-- An appended handler is the last of those still to be run for its promise. -/
theorem outstanding_appendHandler
    (room : (queue.data promise).handlerCount + 1 < 2 ^ 16) (handler : Handler) :
    (queue.appendHandler promise handler).outstanding =
      update queue.outstanding promise (queue.outstanding promise ++ [handler]) :=
  unprocessed_appendHandler sound.toCoherent
    (fun batch inWork => (sound.batch_sound batch inWork).index_le) room handler

/-- With the counter full, the promise no longer shows any handler. -/
theorem outstanding_appendHandler_of_full
    (full : ¬ (queue.data promise).handlerCount + 1 < 2 ^ 16) (handler : Handler) :
    (queue.appendHandler promise handler).outstanding promise = [] := by
  have content_eq := PromiseData.content_append_of_full (sound.valid promise) full handler
  simp only [outstanding, unprocessed, appendHandler, update_self, content_eq]
  cases queue.batch <;> simp

/-- If the event loop finds no job, no handler of a settled promise is left. -/
theorem outstanding_of_none
    (isNone : (next status queue).1 = none) (settled : status promise ≠ .pending) :
    queue.outstanding promise = [] := by
  have takes := next_spec sound
  have soundAfter := takes.sound
  have taken := takes.taken_eq promise
  obtain ⟨data, after_eq⟩ := next_of_none isNone
  rw [after_eq] at soundAfter taken
  by_contra left
  have stillLeft : (data promise).content ≠ [] := by
    intro isEmpty
    refine left (map_eq_nil_iff.mp (taken.trans ?_))
    simp [served, outstanding, unprocessed, isEmpty]
  simpa [entries, triggers] using soundAfter.waits promise settled stillLeft

end Operations

end TriggerQueue

namespace Reactions

open TriggerQueue

/-- The promises and their queue, with the handlers registered on each promise and the handlers
run for it, each with the state it was given. -/
structure World where
  status : Nat → Status
  queue : TriggerQueue
  registered : Nat → List Handler
  ran : Nat → List (Handler × Status)

/-- The world before any promise is made. -/
def World.initial : World :=
  ⟨fun _ => .pending, .empty, fun _ => [], fun _ => []⟩

/-- What running code does, and what the event loop does. -/
inductive Action
  | register (promise : Nat) (handler : Handler)
  | cancel (promise coroutine : Nat)
  | settle (promise : Nat) (outcome : Status)
  | enqueue (job : Job)
  | tick

/-- One action; a cancelled await concerns the handlers that have not been run. -/
def step : Action → World → World
  | .register promise handler, world =>
    { world with
      queue := world.queue.register promise (world.status promise) handler
      registered :=
        update world.registered promise (world.registered promise ++ [handler]) }
  | .cancel promise coroutine, world =>
    let count := (world.ran promise).length
    { world with
      queue := world.queue.cancelAwait promise coroutine
      registered :=
        update world.registered promise ((world.registered promise).take count ++
            ((world.registered promise).drop count).map (·.clearAwait coroutine)) }
  | .settle promise outcome, world =>
    if world.status promise = .pending ∧ outcome ≠ .pending then
      { world with
        status := update world.status promise outcome
        queue := world.queue.settled promise outcome }
    else world
  | .enqueue job, world => { world with queue := world.queue.enqueue job }
  | .tick, world =>
    let (job, queue) := world.queue.next world.status
    { world with
      queue
      ran := fun promise => world.ran promise ++ served job queue.batch promise }

/-- What has been run of each promise and what it still holds are the handlers registered, in
order, and those that have been run were given its final state. -/
structure Kept (world : World) : Prop where
  kept : ∀ promise, (world.ran promise).map Prod.fst ++ world.queue.outstanding promise =
      world.registered promise
  final : ∀ promise, ∀ reaction ∈ world.ran promise,
    reaction.2 = world.status promise ∧ world.status promise ≠ .pending

/-- In addition, once no job is left, all handlers of a settled promise have been run. -/
structure Delivered (world : World) : Prop extends Kept world where
  drained : (world.queue.next world.status).1 = none →
    ∀ promise, world.status promise ≠ .pending →
      (world.ran promise).map Prod.fst = world.registered promise

/-- The counter of a promise has room for a handler that is registered. -/
def HasRoom : Action → World → Prop
  | .register promise _, world => (world.queue.data promise).handlerCount + 1 < 2 ^ 16
  | _, _ => True

/-- What every action in order keeps. -/
structure Accounted (world : World) : Prop extends Kept world where
  sound : Sound world.status world.queue

section Steps

variable {world : World}

/-- Nothing is owed at the start. -/
theorem accounted_initial : Accounted .initial :=
  ⟨⟨fun _ => rfl, by simp [World.initial]⟩, sound_empty⟩

variable (accounted : Accounted world)
include accounted

/-- What is accounted for is delivered. -/
theorem Accounted.delivered : Delivered world := by
  refine ⟨accounted.toKept, ?_⟩
  intro isNone promise settled
  have kept := accounted.kept promise
  rwa [outstanding_of_none accounted.sound isNone settled, append_nil] at kept

/-- A registration is accounted for as long as the counter of the promise has room. -/
theorem Accounted.register (room : (world.queue.data promise).handlerCount + 1 < 2 ^ 16)
    (handler : Handler) :
    Accounted (step (.register promise handler) world) := by
  refine ⟨⟨?_, accounted.final⟩, accounted.sound.register room handler⟩
  intro other
  simp only [step]
  rw [outstanding_register, outstanding_appendHandler accounted.sound room]
  by_cases same : other = promise
  · subst same
    rw [update_self, update_self, ← accounted.kept, append_assoc]
  · rw [update_of_ne same, update_of_ne same, accounted.kept]

/-- A cancelled await is accounted for. -/
theorem Accounted.cancel (promise coroutine : Nat) :
    Accounted (step (.cancel promise coroutine) world) := by
  refine ⟨⟨?_, accounted.final⟩, accounted.sound.cancelAwait coroutine⟩
  intro other
  simp only [step, outstanding, unprocessed_cancelAwait]
  by_cases same : other = promise
  · subst same
    rw [update_self, update_self, ← accounted.kept]
    rw [take_left' (by simp), drop_left' (by simp)]
    rfl
  · rw [update_of_ne same, update_of_ne same]
    exact accounted.kept other

/-- The settling of a promise is accounted for. -/
theorem Accounted.settle (promise : Nat) (outcome : Status) :
    Accounted (step (.settle promise outcome) world) := by
  simp only [step]
  split_ifs with settles
  · refine ⟨⟨?_, ?_⟩, (settled_spec accounted.sound settles.1 settles.2).1⟩
    · intro other
      simp only [outstanding_settled]
      exact accounted.kept other
    · intro other reaction isRan
      obtain ⟨given, settledBefore⟩ := accounted.final other reaction isRan
      have different : other ≠ promise := by
        rintro rfl
        exact settledBefore settles.1
      simp only [update_of_ne different]
      exact ⟨given, settledBefore⟩
  · exact accounted

/-- A turn of the event loop is accounted for. -/
theorem Accounted.tick : Accounted (step .tick world) := by
  have takes := next_spec accounted.sound
  refine ⟨⟨?_, ?_⟩, takes.sound⟩
  · intro promise
    have taken := congrArg (map Prod.fst) (takes.taken_eq promise)
    simp only [map_append, map_map, comp_def, map_id'] at taken
    simp only [step, map_append, append_assoc]
    rw [← taken, accounted.kept]
  · intro promise reaction isRan
    rcases mem_append.mp isRan with earlier | isServed
    · exact accounted.final promise reaction earlier
    · exact takes.served_status isServed

/-- Every action for which there is room is accounted for. -/
theorem Accounted.step (action : Action) (room : HasRoom action world) :
    Accounted (step action world) := by
  cases action with
  | register promise handler => exact accounted.register room handler
  | cancel promise coroutine => exact accounted.cancel promise coroutine
  | settle promise outcome => exact accounted.settle promise outcome
  | enqueue job => exact ⟨⟨accounted.kept, accounted.final⟩, (enqueue_spec accounted.sound job).1⟩
  | tick => exact accounted.tick

/-- A handler registered with the counter full is lost, with all that wait. -/
theorem Accounted.not_delivered_of_full (action : Action) (full : ¬ HasRoom action world) :
    ¬ Delivered (Reactions.step action world) := by
  intro delivered
  cases action with
  | register promise handler =>
    have keptBefore := accounted.kept promise
    have keptAfter := delivered.kept promise
    simp only [Reactions.step] at keptAfter
    rw [outstanding_register, outstanding_appendHandler_of_full accounted.sound full,
      update_self, ← keptBefore] at keptAfter
    have lengths := congrArg length keptAfter
    simp only [length_append, length_singleton, length_nil] at lengths
    omega
  | cancel | settle | enqueue | tick => exact full trivial

end Steps

/-- Every handler is run once, in order and with the final state of its promise, exactly when no
promise holds 65,535 handlers when another one is registered. -/
theorem delivered_iff_hasRoom (actions : List Action) :
    Throughout step Delivered actions .initial ↔ EachInOrder step HasRoom actions .initial :=
  throughout_iff_of_sound Accounted (fun _ => Accounted.delivered)
    (fun action _ accounted => accounted.step action)
    (fun action _ accounted => accounted.not_delivered_of_full action) actions accounted_initial

/-- The counter after a number of handlers have been registered on one promise. -/
theorem run_replicate_register (handler : Handler) (count : Nat) :
    ∃ data registered,
      run step (replicate count (.register 0 handler)) .initial =
          ⟨fun _ => .pending, ⟨data, [], [], none⟩, registered, fun _ => []⟩ ∧
        PromiseData.handlerCount (data 0) = count % 2 ^ 16 ∧ (registered 0).length = count := by
  induction count with
  | zero => exact ⟨fun _ => .empty, fun _ => [], rfl, rfl, rfl⟩
  | succ count ih =>
    obtain ⟨data, registered, run_eq, counted, length⟩ := ih
    refine ⟨update data 0 ((data 0).append handler),
      update registered 0 (registered 0 ++ [handler]), ?_, ?_, ?_⟩
    · rw [replicate_succ', run_append, run_eq]
      rfl
    · simp only [update_self, PromiseData.append]
      split <;> simp only <;> omega
    · simp [length]

/-- All 65,536 handlers of a promise are lost when it settles. -/
theorem not_delivered :
    ¬ Throughout step Delivered
        (replicate (2 ^ 16) (.register 0 ⟨some 0, none, some 1, none⟩) ++
          [.settle 0 (.fulfilled (.data 0))]) .initial := by
  intro always
  obtain ⟨data, registered, run_eq, counted, length⟩ :=
    run_replicate_register ⟨some 0, none, some 1, none⟩ (2 ^ 16)
  have delivered := always _ prefix_rfl
  rw [run_append, run_eq, run_cons] at delivered
  have unused : (data 0).handlerCount = 0 := counted
  simp only [step, TriggerQueue.settled, unused] at delivered
  have nothing : [] = registered 0 := delivered.drained rfl 0 (by simp)
  rw [← nothing] at length
  cases length

end Reactions
end AntRuntime.Promises
