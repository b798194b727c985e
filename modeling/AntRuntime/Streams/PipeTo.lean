import AntRuntime.Machine.Runs

/-!
# Piping a readable stream into a writable one

`readable_stream_pipe_to` reads one chunk at a time: it waits for the writer to be ready, reads,
writes what the read answered, waits for the write and starts again. An error of either side and
an abort signal shut the pipe down whatever it is waiting for. What a run shows is the chunks that
the source has handed over, those that were written, the actions on the two streams that the end
of the pipe triggered, and how the promise of the pipe has settled.
-/

namespace AntRuntime.Streams

universe u
variable {Chunk Reason : Type u}

/-- What the pipe waits for: the writer to be ready, a read, the handler of a read that has been
answered (by nothing at the end of the source), a write, or the close of the destination. -/
inductive Awaited (Chunk : Type u)
  | ready
  | read
  | answer (chunk : Option Chunk)
  | write
  | close
  | nothing

namespace Awaited

/-- The chunk that was handed over and waits for the handler of its read. -/
def chunk : Awaited Chunk → List Chunk
  | .answer chunk => chunk.toList
  | _ => []

/-- The number of writes that have not completed. -/
def writes : Awaited Chunk → Nat
  | .write => 1
  | _ => 0

end Awaited

/-- The state of a pipe: its options, its promise, what it waits for, what has been read, what has
been written and how many of these writes have completed, and the close, abort and cancel it has
triggered, each with how it settled. The flags `settled` and `shutting_down` of the source are
set together, and with the promise; `in_flight` is set while the loop waits for something. -/
structure Pipe (Chunk Reason : Type u) where
  preventClose : Bool
  preventAbort : Bool
  preventCancel : Bool
  promise : Option (Except Reason Unit)
  awaited : Awaited Chunk
  read : List Chunk
  written : List Chunk
  completed : Nat
  actions : List (Option (Except Reason Unit))

/-- What happens to a pipe. An event that shuts it down carries what the abort and the cancel it
may trigger have come to when they return: nothing, while they are pending. -/
inductive PipeEvent (Chunk Reason : Type u)
  | readyResolve
  | handOver (chunk : Option Chunk)
  | readResolve
  | writeResolve
  | closeSettled
  | sourceError (error : Reason) (abort : Option (Except Reason Unit))
  | destError (error : Reason) (cancel : Option (Except Reason Unit))
  | abortListener (reason : Reason) (abort cancel : Option (Except Reason Unit))
  | actionSettles (index : Nat) (outcome : Except Reason Unit)

namespace Pipe

/-- The pipe as `readable_stream_pipe_to` leaves it: `pipes_pump` waits for the writer. A signal
that has been aborted before is an abort that comes first. -/
def start (preventClose preventAbort preventCancel : Bool) : Pipe Chunk Reason :=
  ⟨preventClose, preventAbort, preventCancel, none, .ready, [], [], 0, []⟩

/-- Settling the promise, once. -/
def settle (pipe : Pipe Chunk Reason) (outcome : Except Reason Unit) : Pipe Chunk Reason :=
  if pipe.promise.isSome then pipe else { pipe with promise := some outcome }

/-- The action, unless an option prevents it. -/
def unlessPrevented (prevent : Bool)
    (action : Option (Except Reason Unit)) : List (Option (Except Reason Unit)) :=
  if prevent then [] else [action]

/-- The actions are triggered and the promise is rejected. -/
def shutdown (actions : List (Option (Except Reason Unit))) (error : Reason)
    (pipe : Pipe Chunk Reason) : Pipe Chunk Reason :=
  if pipe.promise.isSome then pipe
  else settle { pipe with actions := pipe.actions ++ actions } (.error error)

/-- The actions that an event triggers in a pipe that it shuts down, and its error. -/
def ending : PipeEvent Chunk Reason → Pipe Chunk Reason →
    Option (List (Option (Except Reason Unit)) × Reason)
  | .sourceError error abort, pipe => some (unlessPrevented pipe.preventAbort abort, error)
  | .destError error cancel, pipe => some (unlessPrevented pipe.preventCancel cancel, error)
  | .abortListener reason abort cancel, pipe =>
    some (unlessPrevented pipe.preventAbort abort ++ unlessPrevented pipe.preventCancel cancel,
      reason)
  | _, _ => none

/-- The handler of a read: a chunk is written, and the end of the source closes the destination
unless an option prevents it. -/
def readResolve (chunk : Option Chunk) (pipe : Pipe Chunk Reason) : Pipe Chunk Reason :=
  if pipe.promise.isSome then { pipe with awaited := .nothing }
  else match chunk with
    | some chunk => { pipe with written := pipe.written ++ [chunk], awaited := .write }
    | none =>
      if pipe.preventClose then settle { pipe with awaited := .nothing } (.ok ())
      else { pipe with actions := pipe.actions ++ [none], awaited := .close }

/-- One event. A reader that has been released is handed nothing over. -/
def step (event : PipeEvent Chunk Reason) (pipe : Pipe Chunk Reason) : Pipe Chunk Reason :=
  match event, pipe.awaited with
  | .readyResolve, .ready =>
    { pipe with awaited := if pipe.promise.isSome then .nothing else .read }
  | .handOver chunk, .read =>
    if pipe.promise.isSome then pipe
    else { pipe with awaited := .answer chunk, read := pipe.read ++ chunk.toList }
  | .readResolve, .answer chunk => readResolve chunk pipe
  | .writeResolve, .write =>
    { pipe with
      completed := pipe.completed + 1
      awaited := if pipe.promise.isSome then .nothing else .ready }
  | .closeSettled, .close =>
    match pipe.actions.head? with
    | some (some outcome) => settle pipe outcome
    | _ => pipe
  | .actionSettles index outcome, _ =>
    match pipe.actions[index]? with
    | some none => { pipe with actions := pipe.actions.set index (some outcome) }
    | _ => pipe
  | event, _ =>
    match ending event pipe with
    | some (actions, error) => shutdown actions error pipe
    | none => pipe

end Pipe

/-- The outcome is one that the actions account for: all of them have settled, and if one has
failed, then the outcome is the error of one that has. -/
def Settles (actions : List (Option (Except Reason Unit))) (outcome : Except Reason Unit) : Prop :=
  none ∉ actions ∧ ((∃ error, some (.error error) ∈ actions) →
      ∃ error, some (.error error) ∈ actions ∧ outcome = .error error)

/-- What a pipe promises: the chunks written are the chunks read, in order, but for the one whose
read is still to be handled; a destination that is being closed has taken them all; the promise has
settled only as the triggered actions have. -/
structure Piped (pipe : Pipe Chunk Reason) : Prop where
  chunks : pipe.read = pipe.written ++ pipe.awaited.chunk
  closes : pipe.awaited = .close → pipe.completed = pipe.read.length
  settles : ∀ outcome, pipe.promise = some outcome → Settles pipe.actions outcome

/-- The actions have all settled, and if not all of them well then one with this error. -/
def SettledWith (error : Reason) (actions : List (Option (Except Reason Unit))) : Prop :=
  none ∉ actions ∧
    ((∀ action ∈ actions, action = some (.ok ())) ∨ some (.error error) ∈ actions)

/-- An event is in order if it does not handle the read of a chunk after the pipe was shut down. One
that shuts down a running pipe is in order if the abort and the cancel that no option prevents have
settled when they return, as has a close that was triggered before, and if one of them has failed
then one with the error of the shutdown. -/
def Pipe.InOrder (event : PipeEvent Chunk Reason) (pipe : Pipe Chunk Reason) : Prop :=
  match event with
  | .readResolve => pipe.promise.isSome → pipe.awaited.chunk = []
  | .sourceError error abort => pipe.promise = none →
    SettledWith error (pipe.actions ++ if pipe.preventAbort then [] else [abort])
  | .destError error cancel => pipe.promise = none →
    SettledWith error (pipe.actions ++ if pipe.preventCancel then [] else [cancel])
  | .abortListener reason abort cancel => pipe.promise = none →
    SettledWith reason (pipe.actions ++ ((if pipe.preventAbort then [] else [abort]) ++
      if pipe.preventCancel then [] else [cancel]))
  | _ => True

/-- A pipe that keeps its promise and waits for one thing at a time: until its promise settles, it
has triggered nothing but the close it waits for. -/
structure PipeSound (pipe : Pipe Chunk Reason) : Prop extends Piped pipe where
  completes : pipe.completed + pipe.awaited.writes = pipe.written.length
  running : pipe.promise = none →
    pipe.actions.length ≤ 1 ∧ (pipe.awaited ≠ .close → pipe.actions = [])

namespace Pipe

variable {pipe : Pipe Chunk Reason} {event : PipeEvent Chunk Reason}

theorem pipeSound_start (preventClose preventAbort preventCancel : Bool) :
    PipeSound (start preventClose preventAbort preventCancel : Pipe Chunk Reason) where
  chunks := rfl
  closes := nofun
  settles := nofun
  completes := rfl
  running _ := ⟨Nat.zero_le 1, fun _ => rfl⟩

theorem settles_error_iff (error : Reason) (actions : List (Option (Except Reason Unit))) :
    Settles actions (.error error) ↔ SettledWith error actions := by
  refine and_congr_right fun settled => ⟨fun accounts => ?_, fun known failed => ?_⟩
  · by_cases failed : ∃ error, some (.error error) ∈ actions
    · obtain ⟨other, isIn, same⟩ := accounts failed
      cases same
      exact Or.inr isIn
    · refine Or.inl fun action isIn => ?_
      match action with
      | none => exact absurd isIn settled
      | some (.ok ()) => rfl
      | some (.error other) => exact absurd ⟨other, isIn⟩ failed
  · refine known.elim (fun well => ?_) fun isIn => ⟨error, isIn, rfl⟩
    obtain ⟨other, isIn⟩ := failed
    cases well _ isIn

/-- A shutdown is in order if what it has triggered then accounts for its error. -/
theorem inOrder_iff :
    InOrder event pipe ↔ (event = .readResolve → pipe.promise.isSome → pipe.awaited.chunk = []) ∧
      ∀ actions error, ending event pipe = some (actions, error) → pipe.promise = none →
        Settles (pipe.actions ++ actions) (.error error) := by
  cases event <;> simp [InOrder, ending, settles_error_iff, unlessPrevented]

/-- A single action that has settled accounts for its own outcome. -/
theorem settles_singleton (outcome : Except Reason Unit) : Settles [some outcome] outcome := by
  refine ⟨by simp, ?_⟩
  rintro ⟨error, failed⟩
  obtain rfl : .error error = outcome := by simpa using failed
  exact ⟨error, failed, rfl⟩

section

variable (sound : PipeSound pipe)
include sound

theorem settle_sound
    {outcome : Except Reason Unit} (settles : pipe.promise = none → Settles pipe.actions outcome) :
    PipeSound (settle pipe outcome) := by
  unfold settle
  split_ifs with settled
  · exact sound
  · refine { sound with settles := ?_, running := nofun }
    rintro _ ⟨⟩
    exact settles (by simpa using settled)

/-- A pipe that neither waits for the close nor starts to stays sound if the account of its chunks
and of its writes is kept. -/
theorem moved_sound
    {awaited : Awaited Chunk} {read written : List Chunk} {completed : Nat}
    (notClosing : pipe.awaited ≠ .close) (closesNot : awaited ≠ .close)
    (chunks : read = written ++ awaited.chunk)
    (completes : completed + awaited.writes = written.length) :
    PipeSound { pipe with awaited, read, written, completed } where
  chunks := chunks
  closes closing := absurd closing closesNot
  settles := sound.settles
  completes := completes
  running isOpen := ⟨(sound.running isOpen).1, fun _ => (sound.running isOpen).2 notClosing⟩

/-- The handler of a read keeps a pipe sound unless it drops the chunk that was handed over. -/
theorem readResolve_sound {chunk : Option Chunk} (answered : pipe.awaited = .answer chunk)
    (ordered : pipe.promise.isSome → pipe.awaited.chunk = []) :
    PipeSound (readResolve chunk pipe) := by
  have chunks := sound.chunks
  have completes := sound.completes
  have notClosing : pipe.awaited ≠ .close := by simp [answered]
  rw [answered] at chunks completes ordered
  unfold readResolve
  split
  next settled =>
    rw [ordered settled] at chunks
    exact moved_sound sound notClosing nofun chunks completes
  next settled =>
    have isOpen : pipe.promise = none := by simpa using settled
    have empty := (sound.running isOpen).2 notClosing
    cases chunk with
    | some chunk =>
      refine moved_sound sound notClosing nofun ?_ ?_
      · simpa [Awaited.chunk] using chunks
      · simpa [Awaited.writes] using completes
    | none =>
      split_ifs
      · apply settle_sound
        · exact moved_sound sound notClosing nofun chunks completes
        · simp [empty, Settles]
      · have rest : pipe.read = pipe.written := by simpa [Awaited.chunk] using chunks
        refine { sound with
          chunks := chunks, closes := ?_, settles := ?_, completes := completes, running := ?_ }
        · exact fun _ => rest ▸ completes
        · intro outcome (isOutcome : pipe.promise = some outcome)
          simp [isOutcome] at isOpen
        · exact fun _ => ⟨by simp [empty], fun other => absurd rfl other⟩

/-- Shutting down keeps a pipe sound if the triggered actions account for its error. -/
theorem shutdown_sound {actions : List (Option (Except Reason Unit))} {error : Reason}
    (settles : pipe.promise = none → Settles (pipe.actions ++ actions) (.error error)) :
    PipeSound (shutdown actions error pipe) := by
  cases isOpen : pipe.promise with
  | none =>
    simp only [shutdown, isOpen]
    refine { sound with settles := ?_, running := nofun }
    rintro _ ⟨⟩
    exact settles isOpen
  | some outcome => simpa [shutdown, isOpen] using sound

/-- An event in order keeps a pipe sound. -/
theorem step_sound (ordered : InOrder event pipe) : PipeSound (step event pipe) := by
  rw [inOrder_iff] at ordered
  have chunks := sound.chunks
  have completes := sound.completes
  unfold step
  split
  case h_1 waits =>
    rw [waits] at chunks completes
    refine moved_sound sound (by simp [waits]) ?_ ?_ ?_
    · split_ifs <;> simp
    · split_ifs <;> exact chunks
    · split_ifs <;> exact completes
  case h_2 chunk waits =>
    rw [waits] at chunks completes
    split_ifs
    · exact sound
    · refine moved_sound sound (by simp [waits]) nofun ?_ completes
      simpa [Awaited.chunk] using chunks
  case h_3 chunk waits => exact readResolve_sound sound waits (ordered.1 rfl)
  case h_4 waits =>
    rw [waits] at chunks completes
    refine moved_sound sound (by simp [waits]) ?_ ?_ ?_
    · split_ifs <;> simp
    · split_ifs <;> exact chunks
    · split_ifs <;> exact completes
  case h_5 waits =>
    split
    next outcome isHead =>
      refine settle_sound sound fun isOpen => ?_
      obtain ⟨rest, actions⟩ := List.head?_eq_some_iff.mp isHead
      have single := (sound.running isOpen).1
      obtain rfl : rest = [] := by simpa [actions] using single
      exact actions ▸ settles_singleton outcome
    next => exact sound
  case h_6 index outcome =>
    split
    next pending =>
      refine { sound with settles := ?_, running := ?_ }
      · intro other settled
        exact absurd (List.mem_of_getElem? pending) (sound.settles other settled).1
      · intro isOpen
        refine ⟨by simpa using (sound.running isOpen).1, fun other => ?_⟩
        simp [(sound.running isOpen).2 other]
    next => exact sound
  case h_7 =>
    split
    next actions error ends => exact shutdown_sound sound (ordered.2 actions error ends)
    next => exact sound

/-- An event out of order breaks the promise of a sound pipe. -/
theorem not_piped_of_not_inOrder (disordered : ¬ InOrder event pipe) :
    ¬ Piped (step event pipe) := by
  intro piped
  refine disordered (inOrder_iff.mpr ⟨?_, ?_⟩)
  · rintro rfl settled
    cases waits : pipe.awaited with
    | answer chunk =>
      have chunks := sound.chunks
      have kept := piped.chunks
      simp only [step, waits, readResolve, settled, if_true] at kept
      simpa [waits, kept, Awaited.chunk] using chunks
    | _ => rfl
  · intro actions error ends isOpen
    have shut : step event pipe = shutdown actions error pipe := by
      cases event with
      | sourceError | destError | abortListener => simp [step, ends]
      | _ => simp [ending] at ends
    have settles := piped.settles (.error error)
    simpa [shut, shutdown, settle, isOpen] using settles

end

/-- A pipe keeps its promise throughout a run exactly if no chunk is handed over to a pipe that is
shut down before the read is handled, and whatever a shutdown triggers has settled at once. -/
theorem piped_iff
    (preventClose preventAbort preventCancel : Bool) (events : List (PipeEvent Chunk Reason)) :
    Machine.Throughout step Piped events (start preventClose preventAbort preventCancel) ↔
      Machine.EachInOrder step InOrder events (start preventClose preventAbort preventCancel) :=
  Machine.throughout_iff_of_sound PipeSound (fun _ sound => sound.toPiped)
    (fun _ _ => step_sound) (fun _ _ => not_piped_of_not_inOrder) events
    (pipeSound_start preventClose preventAbort preventCancel)

/-- The source errors while nothing is prevented, and the destination takes its time to abort. -/
theorem not_piped_sourceError :
    ¬ Machine.Throughout step Piped [(.sourceError "error" none : PipeEvent Nat String)]
      (start false false false) := by
  intro always
  have settles := (always _ List.prefix_rfl).settles (.error "error") rfl
  exact settles.1 (by decide)

end Pipe

end AntRuntime.Streams
