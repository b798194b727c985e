import Mathlib.Data.List.Infix

/-!
# Runs over events

A machine takes a step for every event. What holds after every part of a run is settled
step by step: if a step keeps a property exactly when the event is in order, then the
property holds throughout a run exactly when every event is in order when it comes. A
machine that answers events is settled step by step too.
-/

namespace AntRuntime.Machine

open List

variable {State Event : Type*} {step : Event → State → State} {inOrder : Event → State → Prop}
variable {start : State} {holds : State → Prop} {events : List Event} {event : Event}

/-- The state after the events. -/
def run (step : Event → State → State) (events : List Event) (start : State) : State :=
  events.foldl (fun state event => step event state) start

/-- A property holds after every part of a run. -/
def Throughout (step : Event → State → State) (holds : State → Prop) (events : List Event)
    (start : State) : Prop :=
  ∀ past, past <+: events → holds (run step past start)

/-- Every event of a run is in order in the state it comes in. -/
def EachInOrder
    (step : Event → State → State) (inOrder : Event → State → Prop) (events : List Event)
    (start : State) : Prop :=
  ∀ past event, past ++ [event] <+: events → inOrder event (run step past start)

@[simp] theorem run_nil (start : State) : run step [] start = start :=
  rfl

@[simp] theorem run_cons (event : Event) (events : List Event) (start : State) :
    run step (event :: events) start = run step events (step event start) :=
  rfl

theorem run_append (first second : List Event) (start : State) :
    run step (first ++ second) start = run step second (run step first start) :=
  foldl_append

theorem throughout_iff_split : Throughout step holds events start ↔
    ∀ done rest, events = done ++ rest → holds (run step done start) :=
  ⟨fun always done rest split => always done ⟨rest, split.symm⟩,
    fun always done ⟨rest, split⟩ => always done rest split.symm⟩

theorem throughout_nil {holds : State → Prop} {start : State} :
    Throughout step holds [] start ↔ holds start := by
  constructor
  · intro always
    exact always [] nil_prefix
  · intro atStart past isPast
    obtain rfl := prefix_nil.mp isPast
    exact atStart

theorem throughout_cons {start : State} :
    Throughout step holds (event :: events) start ↔
      holds start ∧ Throughout step holds events (step event start) := by
  constructor
  · intro always
    refine ⟨always [] nil_prefix, fun past isPast => ?_⟩
    exact always (event :: past) (cons_prefix_cons.mpr ⟨rfl, isPast⟩)
  · rintro ⟨atStart, later⟩ past isPast
    cases past with
    | nil => exact atStart
    | cons first past =>
      obtain ⟨rfl, restIsPast⟩ := cons_prefix_cons.mp isPast
      exact later past restIsPast

theorem eachInOrder_nil {inOrder : Event → State → Prop} {start : State} :
    EachInOrder step inOrder [] start := by
  intro past event isPast
  have := prefix_nil.mp isPast
  simp at this

theorem eachInOrder_cons {start : State} :
    EachInOrder step inOrder (event :: events) start ↔
      inOrder event start ∧ EachInOrder step inOrder events (step event start) := by
  constructor
  · intro each
    refine ⟨each [] event (cons_prefix_cons.mpr ⟨rfl, nil_prefix⟩), ?_⟩
    intro past later isPast
    exact each (event :: past) later (cons_prefix_cons.mpr ⟨rfl, isPast⟩)
  · rintro ⟨first, others⟩ past later isPast
    cases past with
    | nil =>
      obtain ⟨rfl, -⟩ := cons_prefix_cons.mp isPast
      exact first
    | cons head past =>
      obtain ⟨rfl, restIsPast⟩ := cons_prefix_cons.mp isPast
      exact others past later restIsPast

/-- If a sound state has the property, an allowed step in order keeps it sound, and a step out
of order breaks the property, then the property holds throughout a run of allowed events exactly
when every event is in order. -/
theorem throughout_iff_of_allowed {allowed : Event → State → Prop}
    (sound : State → Prop) (holdsOfSound : ∀ state, sound state → holds state)
    (keeps : ∀ event state, sound state → allowed event state → inOrder event state →
      sound (step event state))
    (breaks : ∀ event state, sound state → ¬ inOrder event state → ¬ holds (step event state))
    (soundStart : sound start) (eachAllowed : EachInOrder step allowed events start) :
    Throughout step holds events start ↔ EachInOrder step inOrder events start := by
  induction events generalizing start with
  | nil => exact iff_of_true (throughout_nil.mpr (holdsOfSound start soundStart)) eachInOrder_nil
  | cons event events ih =>
    obtain ⟨first, others⟩ := eachInOrder_cons.mp eachAllowed
    rw [throughout_cons, eachInOrder_cons, and_iff_right (holdsOfSound start soundStart)]
    by_cases ordered : inOrder event start
    · rw [and_iff_right ordered]
      exact ih (keeps event start soundStart first ordered) others
    · refine iff_of_false (fun always => ?_) fun each => ordered each.1
      exact breaks event start soundStart ordered (always [] nil_prefix)

/-- The same where every event is allowed. -/
theorem throughout_iff_of_sound
    (sound : State → Prop) (holdsOfSound : ∀ state, sound state → holds state)
    (keeps : ∀ event state, sound state → inOrder event state → sound (step event state))
    (breaks : ∀ event state, sound state → ¬ inOrder event state → ¬ holds (step event state))
    (events : List Event) (soundStart : sound start) :
    Throughout step holds events start ↔ EachInOrder step inOrder events start :=
  throughout_iff_of_allowed sound holdsOfSound
    (fun event state isSound (_ : True) => keeps event state isSound) breaks soundStart
    fun _ _ _ => trivial

/-- If every step keeps the invariant, and keeps the property exactly when its event is
in order, then the property holds throughout exactly when every event is in order. -/
theorem throughout_iff_eachInOrder {invariant holds : State → Prop}
    (keepsInvariant : ∀ event state, invariant state → invariant (step event state))
    (keeps : ∀ event state, invariant state → holds state →
      (holds (step event state) ↔ inOrder event state))
    (events : List Event) (invariantStart : invariant start) (holdsStart : holds start) :
    Throughout step holds events start ↔ EachInOrder step inOrder events start := by
  refine throughout_iff_of_sound (fun state => invariant state ∧ holds state)
    (fun _ => And.right) ?_ ?_ events ⟨invariantStart, holdsStart⟩
  · rintro event state ⟨kept, held⟩ ordered
    exact ⟨keepsInvariant event state kept, (keeps event state kept held).mpr ordered⟩
  · rintro event state ⟨kept, held⟩ disordered stillHeld
    exact disordered ((keeps event state kept held).mp stillHeld)

/-- Two notions of order that agree in sound states agree along a run, if an event in order keeps
the state sound. -/
theorem eachInOrder_iff_of_sound {inOrder other : Event → State → Prop} (sound : State → Prop)
    (agree : ∀ event state, sound state → (inOrder event state ↔ other event state))
    (keeps : ∀ event state, sound state → inOrder event state → sound (step event state))
    (events : List Event) (soundStart : sound start) :
    EachInOrder step inOrder events start ↔ EachInOrder step other events start := by
  induction events generalizing start with
  | nil => exact iff_of_true eachInOrder_nil eachInOrder_nil
  | cons event events ih =>
    rw [eachInOrder_cons, eachInOrder_cons, ← agree event start soundStart]
    exact and_congr_right fun ordered => ih (keeps event start soundStart ordered)

variable {Answer : Type*}

/-- The answers of a machine to a series of events. -/
def answers (answer : Event → State → Answer × State) : List Event → State → List Answer
  | [], _ => []
  | event :: events, state => (answer event state).1 :: answers answer events (answer event state).2

/-- If in every state with the invariant an event gets its own answer and keeps the invariant,
then the history does not matter. -/
theorem answers_eq_map
    {answer : Event → State → Answer × State} {expected : Event → Answer} (invariant : State → Prop)
    (settled : ∀ event state, invariant state →
      (answer event state).1 = expected event ∧ invariant (answer event state).2)
    (events : List Event) (invariantStart : invariant start) :
    answers answer events start = events.map expected := by
  induction events generalizing start with
  | nil => rfl
  | cons event events ih =>
    obtain ⟨answered, kept⟩ := settled event start invariantStart
    rw [answers, map_cons, answered, ih kept]

end AntRuntime.Machine
