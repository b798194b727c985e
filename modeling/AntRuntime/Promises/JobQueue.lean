import AntRuntime.Promises.Machine

/-!
# The job queue of ECMAScript

One queue, first in, first out. A reaction becomes a job of its own when its
promise settles, or at once if the promise has settled before.
-/

namespace AntRuntime.Promises

/-- The reactions of the pending promises, and the jobs in order. -/
structure JobQueue where
  reactions : Nat → List Handler
  jobs : List Job

namespace JobQueue

/-- The queue before any promise is made. -/
def empty : JobQueue :=
  ⟨fun _ => [], []⟩

/-- `PerformPromiseThen`. -/
def register (queue : JobQueue) (promise : Nat) (status : Status) (handler : Handler) : JobQueue :=
  match status with
  | .pending =>
    { queue with
      reactions :=
        Function.update queue.reactions promise (queue.reactions promise ++ [handler]) }
  | settled => { queue with jobs := queue.jobs ++ [.reaction handler settled] }

/-- `TriggerPromiseReactions`. -/
def settled (queue : JobQueue) (promise : Nat) (status : Status) : JobQueue where
  reactions := Function.update queue.reactions promise []
  jobs :=
    queue.jobs ++ (queue.reactions promise).map fun handler => .reaction handler status

/-- `HostEnqueuePromiseJob`. -/
def enqueue (queue : JobQueue) (job : Job) : JobQueue :=
  { queue with jobs := queue.jobs ++ [job] }

/-- Take the first job. -/
def next (queue : JobQueue) : Option Job × JobQueue :=
  match queue.jobs with
  | [] => (none, queue)
  | job :: rest => (some job, { queue with jobs := rest })

end JobQueue

/-- The scheduler ECMAScript prescribes. -/
def ecmaScheduler : Scheduler JobQueue where
  register := JobQueue.register
  settled := JobQueue.settled
  enqueue := JobQueue.enqueue
  next := fun _ => JobQueue.next

end AntRuntime.Promises
