import AntRuntime.Promises.Delivery

/-!
# The order of promise jobs

The runtime's trigger queue simulates the job queue of ECMAScript as long as
handlers are registered in order. A run of the runtime whose registrations are
all in order therefore starts the same jobs at the same ticks.
-/

namespace AntRuntime.Promises

open Function TriggerQueue

/-- The runtime and the standard agree on everything a program can see, and the
standard's queue holds the jobs and the reactions of the runtime's. -/
structure Simulates
    (runtime : State TriggerQueue)
    (standard : State JobQueue) : Prop where
  promises_eq : standard.promises = runtime.promises
  status_eq : standard.status = runtime.status
  pairs_eq : standard.pairs = runtime.pairs
  running_eq : standard.running = runtime.running
  sound : runtime.queue.Sound runtime.status
  jobs_eq : standard.queue.jobs = runtime.queue.jobs runtime.status
  reactions_eq : ∀ promise, runtime.status promise = .pending →
    standard.queue.reactions promise = runtime.queue.waiting promise

/-- Runtime and standard start in states that correspond. -/
theorem simulates_initialState :
    Simulates (initialState .empty) (initialState .empty) where
  promises_eq := rfl
  status_eq := rfl
  pairs_eq := rfl
  running_eq := rfl
  sound := sound_empty
  jobs_eq := rfl
  reactions_eq := fun _ _ => rfl

/-- The job taken from the queue, if it lets a promise follow another one,
registers its handler in order. -/
def StartsInOrder (status : Nat → Status) : Option Job × TriggerQueue → Prop
  | (some (.thenable _ (.promise source)), queue) => InOrder status queue source
  | _ => True

/-- Every registration an event makes is in order. -/
def RegistersInOrder (state : State TriggerQueue) : Event → Prop
  | .registerThen promise _ _ => InOrder state.status state.queue promise
  | .await _ (.promise promise) => InOrder state.status state.queue promise
  | .await _ (.thenable _) => InOrder state.status state.queue state.promises
  | .tick => StartsInOrder state.status (next state.status state.queue)
  | _ => True

/-- Every event of a run of the runtime registers in order. -/
def RunsInOrder (state : State TriggerQueue) : List Event → Prop
  | [] => True
  | event :: rest =>
    RegistersInOrder state event ∧ RunsInOrder (step triggerScheduler state event).2 rest

instance decidableStartsInOrder (status : Nat → Status) :
    (found : Option Job × TriggerQueue) → Decidable (StartsInOrder status found)
  | (some (.thenable _ (.promise source)), queue) =>
    inferInstanceAs (Decidable (InOrder status queue source))
  | (none, _) => isTrue trivial
  | (some (.reaction _ _), _) => isTrue trivial
  | (some (.callback _), _) => isTrue trivial
  | (some (.resume _ _), _) => isTrue trivial
  | (some (.thenable _ (.data _)), _) => isTrue trivial
  | (some (.thenable _ (.thenable _)), _) => isTrue trivial
  | (some (.thenable _ (.error _)), _) => isTrue trivial

instance decidableRegistersInOrder (state : State TriggerQueue) :
    (event : Event) → Decidable (RegistersInOrder state event)
  | .registerThen promise _ _ => inferInstanceAs (Decidable (InOrder _ _ promise))
  | .await _ (.promise promise) => inferInstanceAs (Decidable (InOrder _ _ promise))
  | .await _ (.thenable _) => inferInstanceAs (Decidable (InOrder _ _ state.promises))
  | .tick => inferInstanceAs (Decidable (StartsInOrder _ _))
  | .await _ (.data _) => isTrue trivial
  | .await _ (.error _) => isTrue trivial
  | .create => isTrue trivial
  | .resolve _ _ => isTrue trivial
  | .reject _ _ => isTrue trivial
  | .queueMicrotask _ => isTrue trivial
  | .finish _ => isTrue trivial

instance decidableRunsInOrder :
    (state : State TriggerQueue) → (events : List Event) →
      Decidable (RunsInOrder state events)
  | _, [] => isTrue trivial
  | state, event :: rest =>
    have := decidableRunsInOrder (step triggerScheduler state event).2 rest
    inferInstanceAs (Decidable (RegistersInOrder state event ∧ _))

section Simulation

variable {runtime : State TriggerQueue} {standard : State JobQueue}

section

variable (simulates : Simulates runtime standard)
include simulates

/-- A registration in order keeps the states in step. -/
theorem Simulates.registerHandler (inOrder : InOrder runtime.status runtime.queue promise)
    (handler : Handler) :
    Simulates
      (registerHandler triggerScheduler runtime promise handler)
      (registerHandler ecmaScheduler standard promise handler) := by
  by_cases pending : runtime.status promise = .pending
  · obtain ⟨sound, jobs_eq, waiting_eq⟩ :=
      register_pending_spec simulates.sound pending inOrder.1 handler
    have queue_eq :
        (Promises.registerHandler triggerScheduler runtime promise handler).queue =
          runtime.queue.register promise .pending handler := by
      simp only [Promises.registerHandler, triggerScheduler, pending]
    have standard_eq :
        (Promises.registerHandler ecmaScheduler standard promise handler).queue =
          standard.queue.register promise .pending handler := by
      simp only [Promises.registerHandler, ecmaScheduler, simulates.status_eq, pending]
    refine { simulates with sound := ?_, jobs_eq := ?_, reactions_eq := ?_ }
    · rw [queue_eq]
      exact sound
    · rw [queue_eq, standard_eq]
      exact simulates.jobs_eq.trans jobs_eq.symm
    · intro other otherPending
      rw [queue_eq, standard_eq, waiting_eq]
      simp only [JobQueue.register]
      by_cases same : other = promise
      · subst same
        rw [update_self, update_self, simulates.reactions_eq other pending]
      · rw [update_of_ne same, update_of_ne same]
        exact simulates.reactions_eq other otherPending
  · obtain ⟨sound, jobs_eq, waiting_eq⟩ :=
      register_settled_spec simulates.sound pending inOrder handler
    have standard_eq :
        (Promises.registerHandler ecmaScheduler standard promise handler).queue =
          { standard.queue with
            jobs :=
              standard.queue.jobs ++ [.reaction handler (runtime.status promise)] } := by
      simp only [Promises.registerHandler, ecmaScheduler, simulates.status_eq, JobQueue.register]
    refine { simulates with sound, jobs_eq := ?_, reactions_eq := ?_ }
    · rw [standard_eq]
      exact (congrArg (· ++ _) simulates.jobs_eq).trans jobs_eq.symm
    · intro other otherPending
      rw [standard_eq]
      have different : other ≠ promise := by
        rintro rfl
        exact pending otherPending
      exact (simulates.reactions_eq other otherPending).trans (waiting_eq other different).symm

/-- A job put at the end of the queue keeps the states in step. -/
theorem Simulates.enqueueJob (job : Job) :
    Simulates
      (enqueueJob triggerScheduler runtime job)
      (enqueueJob ecmaScheduler standard job) := by
  obtain ⟨sound, jobs_eq⟩ := enqueue_spec simulates.sound job
  refine { simulates with sound, jobs_eq := ?_ }
  exact (congrArg (· ++ [job]) simulates.jobs_eq).trans jobs_eq.symm

/-- Settling a promise keeps the states in step: its handlers become jobs in the same order. -/
theorem Simulates.settle (promise : Nat) {outcome : Status} (isSettled : outcome ≠ .pending) :
    Simulates
      (settle triggerScheduler runtime promise outcome)
      (settle ecmaScheduler standard promise outcome) := by
  unfold Promises.settle
  rw [simulates.status_eq]
  by_cases pending : runtime.status promise = .pending
  · rw [if_pos pending, if_pos pending]
    obtain ⟨sound, jobs_eq, waiting_eq⟩ := settled_spec simulates.sound pending isSettled
    refine { simulates with status_eq := rfl, sound, jobs_eq := ?_, reactions_eq := ?_ }
    · change standard.queue.jobs ++ (standard.queue.reactions promise).map _ =
        (runtime.queue.settled promise outcome).jobs _
      rw [jobs_eq, simulates.jobs_eq, simulates.reactions_eq promise pending]
    · intro other otherPending
      have different : other ≠ promise := by
        rintro rfl
        simp only [update_self] at otherPending
        exact isSettled otherPending
      simp only [update_of_ne different] at otherPending
      change update standard.queue.reactions promise [] other =
        (runtime.queue.settled promise outcome).waiting other
      rw [waiting_eq, update_of_ne different]
      exact simulates.reactions_eq other otherPending
  · rw [if_neg pending, if_neg pending]
    exact simulates

/-- A rejection keeps the states in step. -/
theorem Simulates.rejectPromise (promise : Nat) (reason : Value) :
    Simulates
      (rejectPromise triggerScheduler runtime promise reason)
      (rejectPromise ecmaScheduler standard promise reason) :=
  simulates.settle promise (by simp)

/-- A resolution keeps the states in step, whether the value is one to wait for or not. -/
theorem Simulates.resolvePromise (promise : Nat) (value : Value) :
    Simulates
      (resolvePromise triggerScheduler runtime promise value)
      (resolvePromise ecmaScheduler standard promise value) := by
  unfold Promises.resolvePromise
  rw [simulates.status_eq]
  by_cases pending : runtime.status promise = .pending
  · rw [if_pos pending, if_pos pending]
    cases value with
    | promise other =>
      simp only
      by_cases itself : other = promise
      · rw [if_pos itself, if_pos itself]
        exact simulates.rejectPromise promise _
      · rw [if_neg itself, if_neg itself]
        exact simulates.enqueueJob _
    | thenable id => exact simulates.enqueueJob _
    | data tag | error message => exact simulates.settle promise (by simp)
  · rw [if_neg pending, if_neg pending]
    exact simulates

theorem Simulates.newPromise : Simulates (newPromise runtime) (newPromise standard) :=
  { simulates with promises_eq := congrArg (· + 1) simulates.promises_eq }

theorem Simulates.newResolvers (promise : Nat) :
    Simulates (newResolvers runtime promise) (newResolvers standard promise) :=
  { simulates with pairs_eq := congrArg (· ++ _) simulates.pairs_eq }

theorem Simulates.setRunning (running : Running) :
    Simulates { runtime with running } { standard with running } :=
  { simulates with running_eq := rfl }

end

/-- An action on a promise that both machines do alike. -/
def Preserves (act : State TriggerQueue → Nat → State TriggerQueue)
    (standardAct : State JobQueue → Nat → State JobQueue) : Prop :=
  ∀ {runtime standard}, Simulates runtime standard →
    ∀ promise, Simulates (act runtime promise) (standardAct standard promise)

theorem preserves_resolvePromise (value : Value) :
    Preserves
      (fun state promise => resolvePromise triggerScheduler state promise value)
      (fun state promise => resolvePromise ecmaScheduler state promise value) :=
  fun simulates promise => simulates.resolvePromise promise value

theorem preserves_rejectPromise (reason : Value) :
    Preserves
      (fun state promise => rejectPromise triggerScheduler state promise reason)
      (fun state promise => rejectPromise ecmaScheduler state promise reason) :=
  fun simulates promise => simulates.rejectPromise promise reason

section Actions

variable {act : State TriggerQueue → Nat → State TriggerQueue}
variable {standardAct : State JobQueue → Nat → State JobQueue}

/-- A resolving function acts at most once on either side. -/
theorem Simulates.callResolver
    (simulates : Simulates runtime standard) (preserves : Preserves act standardAct) (pair : Nat) :
    Simulates (callResolver runtime pair act) (callResolver standard pair standardAct) := by
  unfold Promises.callResolver
  rw [simulates.pairs_eq]
  rcases runtime.pairs[pair]? with _ | ⟨promise, _ | _⟩
  · exact simulates
  · refine preserves ?_ promise
    exact { simulates with pairs_eq := rfl }
  · exact simulates

/-- What happens to the promise behind a handler keeps the states in step. -/
theorem Simulates.onNextPromise
    (simulates : Simulates runtime standard) (preserves : Preserves act standardAct)
    (nextPromise : Option Nat) :
    Simulates (onNextPromise runtime nextPromise act)
      (onNextPromise standard nextPromise standardAct) := by
  cases nextPromise with
  | none => exact simulates
  | some promise => exact preserves simulates promise

end Actions

section

variable (simulates : Simulates runtime standard)
include simulates

/-- The start of a reaction keeps the states in step. -/
theorem Simulates.startReaction (handler : Handler) (status : Status) :
    Simulates
      (startReaction triggerScheduler runtime handler status)
      (startReaction ecmaScheduler standard handler status) := by
  unfold Promises.startReaction
  cases handler.awaitCoro with
  | some coroutine => exact simulates.setRunning _
  | none =>
    cases status with
    | pending => exact simulates
    | fulfilled value =>
      cases handler.onFulfilled with
      | some callback => exact simulates.setRunning _
      | none => exact simulates.onNextPromise (preserves_resolvePromise value) _
    | rejected reason =>
      cases handler.onRejected with
      | some callback => exact simulates.setRunning _
      | none => exact simulates.onNextPromise (preserves_rejectPromise reason) _

/-- The end of a handler keeps the states in step. -/
theorem Simulates.finishRunning (ending : Ending) :
    Simulates
      (finishRunning triggerScheduler runtime ending)
      (finishRunning ecmaScheduler standard ending) := by
  have idle := simulates.setRunning .idle
  unfold Promises.finishRunning
  rw [simulates.running_eq]
  cases runtime.running with
  | idle | plain => exact idle
  | reaction nextPromise =>
    cases ending with
    | returned value => exact idle.onNextPromise (preserves_resolvePromise value) _
    | threw error => exact idle.onNextPromise (preserves_rejectPromise error) _
  | thenCall pair =>
    cases ending with
    | returned value => exact idle
    | threw error => exact idle.callResolver (preserves_rejectPromise error) _

/-- An `await` that registers in order keeps the states in step. -/
theorem Simulates.awaitValue (coroutine : Nat) {value : Value}
    (inOrder : RegistersInOrder runtime (.await coroutine value)) :
    Simulates
      (awaitValue triggerScheduler runtime coroutine value)
      (awaitValue ecmaScheduler standard coroutine value) := by
  cases value with
  | data tag | error message => exact simulates.enqueueJob _
  | promise promise => exact simulates.registerHandler inOrder _
  | thenable id =>
    simp only [Promises.awaitValue, simulates.promises_eq]
    refine (simulates.newPromise.resolvePromise _ _).registerHandler ?_ _
    by_cases pending : runtime.status runtime.promises = .pending
    · -- the new promise only waits for the thenable, its handlers are the same
      simp only [Promises.resolvePromise, Promises.newPromise, pending]
      exact ⟨inOrder.1, fun settled => absurd pending settled⟩
    · simp only [Promises.resolvePromise, Promises.newPromise, pending]
      exact inOrder

/-- The start of a job keeps the states in step if the handlers it registers are in order. -/
theorem Simulates.startJob {job : Job}
    (inOrder : ∀ promise source, job = .thenable promise (.promise source) →
      InOrder runtime.status runtime.queue source) :
    Simulates (startJob triggerScheduler runtime job) (startJob ecmaScheduler standard job) := by
  cases job with
  | reaction handler status => exact simulates.startReaction handler status
  | callback id | resume coroutine value => exact simulates.setRunning _
  | thenable promise value =>
    cases value with
    | promise source => exact simulates.registerHandler (inOrder promise source rfl) _
    | data tag | thenable id | error message =>
      simp only [Promises.startJob, simulates.pairs_eq]
      exact (simulates.newResolvers promise).setRunning _

/-- A tick of the event loop takes the same job from both queues. -/
theorem Simulates.tick (inOrder : RegistersInOrder runtime .tick) :
    (step ecmaScheduler standard .tick).1 = (step triggerScheduler runtime .tick).1 ∧
      Simulates (step triggerScheduler runtime .tick).2
        (step ecmaScheduler standard .tick).2 := by
  have running_eq := simulates.running_eq
  simp only [step, triggerScheduler, ecmaScheduler]
  by_cases idle : runtime.running = .idle
  swap
  · rw [if_neg idle, if_neg (running_eq ▸ idle)]
    exact ⟨rfl, simulates⟩
  rw [if_pos idle, if_pos (running_eq.trans idle)]
  have delivers := next_spec simulates.sound
  have none_spec := @jobs_next_of_none runtime.status runtime.queue
  rw [RegistersInOrder] at inOrder
  generalize next runtime.status runtime.queue = found
    at delivers none_spec inOrder ⊢
  obtain ⟨job, queue⟩ := found
  have jobs_eq := simulates.jobs_eq.trans delivers.jobs_eq
  have reactions_eq : ∀ promise, runtime.status promise = .pending →
      standard.queue.reactions promise = queue.waiting promise := by
    intro promise pending
    exact (simulates.reactions_eq promise pending).trans (delivers.waiting_eq promise pending).symm
  cases job with
  | none =>
    have noJobs : standard.queue.jobs = [] := jobs_eq.trans (none_spec rfl)
    simp only [JobQueue.next, noJobs]
    exact ⟨trivial, { simulates with sound := delivers.sound, jobs_eq, reactions_eq }⟩
  | some job =>
    simp only [Option.toList_some, List.singleton_append] at jobs_eq
    simp only [JobQueue.next, jobs_eq]
    refine ⟨trivial, ?_⟩
    have taken :
        Simulates { runtime with queue }
          { standard with
            queue := { standard.queue with jobs := queue.jobs runtime.status } } :=
      { simulates with sound := delivers.sound, jobs_eq := rfl, reactions_eq }
    refine taken.startJob ?_
    rintro promise source rfl
    exact inOrder

/-- One event that registers in order: the jobs started agree. -/
theorem Simulates.step {event : Event} (inOrder : RegistersInOrder runtime event) :
    (step ecmaScheduler standard event).1 = (step triggerScheduler runtime event).1 ∧
      Simulates (step triggerScheduler runtime event).2
        (step ecmaScheduler standard event).2 := by
  cases event with
  | create =>
    refine ⟨rfl, ?_⟩
    simp only [Promises.step, simulates.promises_eq]
    exact simulates.newPromise.newResolvers _
  | resolve pair value => exact ⟨rfl, simulates.callResolver (preserves_resolvePromise value) pair⟩
  | reject pair reason => exact ⟨rfl, simulates.callResolver (preserves_rejectPromise reason) pair⟩
  | registerThen promise onFulfilled onRejected =>
    refine ⟨rfl, ?_⟩
    simp only [Promises.step, simulates.promises_eq]
    exact simulates.newPromise.registerHandler inOrder _
  | await coroutine value => exact ⟨rfl, simulates.awaitValue coroutine inOrder⟩
  | queueMicrotask callback => exact ⟨rfl, simulates.enqueueJob _⟩
  | finish ending => exact ⟨rfl, simulates.finishRunning ending⟩
  | tick => exact simulates.tick inOrder

/-- A run that registers in order: the jobs started agree. -/
theorem Simulates.jobsRun_eq {events : List Event} (inOrder : RunsInOrder runtime events) :
    jobsRun triggerScheduler runtime events = jobsRun ecmaScheduler standard events := by
  induction events generalizing runtime standard with
  | nil => rfl
  | cons event rest ih =>
    obtain ⟨now, later⟩ := inOrder
    obtain ⟨sameJob, stepped⟩ := simulates.step now
    simp only [jobsRun]
    rw [sameJob, ih stepped later]

end

end Simulation

/-- In every run of the runtime whose registrations are all in order, each tick
starts the job that ECMAScript's job queue prescribes. -/
theorem jobsRun_eq_of_runsInOrder
    (events : List Event) (inOrder : RunsInOrder (initialState .empty) events) :
    jobsRun triggerScheduler (initialState .empty) events =
      jobsRun ecmaScheduler (initialState .empty) events :=
  simulates_initialState.jobsRun_eq inOrder

/-- A promise with two handlers is resolved, a third handler is registered while
they run, and another callback after that. -/
def thenWhileRunning : List Event :=
  [.create, .registerThen 0 (some 1) none, .registerThen 0 (some 2) none,
    .resolve 0 (.data 7), .tick, .registerThen 0 (some 3) none,
    .finish (.returned (.data 0)), .queueMicrotask 4, .tick,
    .finish (.returned (.data 0)), .tick, .finish (.returned (.data 0)), .tick]

/-- A handler registered while others run has its turn as in the standard. -/
theorem jobsRun_eq_thenWhileRunning :
    RunsInOrder (initialState .empty) thenWhileRunning ∧
      jobsRun triggerScheduler (initialState .empty) thenWhileRunning =
        jobsRun ecmaScheduler (initialState .empty) thenWhileRunning := by
  have inOrder : RunsInOrder (initialState .empty) thenWhileRunning := by decide
  exact ⟨inOrder, jobsRun_eq_of_runsInOrder thenWhileRunning inOrder⟩

/-- On a resolved promise a handler is registered, then a callback is queued,
then another handler is registered. -/
def thenBehindMicrotask : List Event :=
  [.create, .resolve 0 (.data 7), .registerThen 0 (some 1) none,
    .queueMicrotask 2, .registerThen 0 (some 3) none, .tick,
    .finish (.returned (.data 0)), .tick, .finish (.returned (.data 0)), .tick]

/-- The second handler runs before the callback, not after it. -/
theorem jobsRun_ne_thenBehindMicrotask :
    (jobsRun triggerScheduler (initialState .empty) thenBehindMicrotask).reduceOption =
        [.reaction ⟨some 1, none, some 1, none⟩ (.fulfilled (.data 7)),
          .reaction ⟨some 3, none, some 2, none⟩ (.fulfilled (.data 7)),
          .callback 2] ∧
      (jobsRun ecmaScheduler (initialState .empty) thenBehindMicrotask).reduceOption =
        [.reaction ⟨some 1, none, some 1, none⟩ (.fulfilled (.data 7)),
          .callback 2,
          .reaction ⟨some 3, none, some 2, none⟩ (.fulfilled (.data 7))] ∧
      jobsRun triggerScheduler (initialState .empty) thenBehindMicrotask ≠
        jobsRun ecmaScheduler (initialState .empty) thenBehindMicrotask := by
  decide

end AntRuntime.Promises
