import AntRuntime.Machine.Runs

/-!
# Timers and immediates

`timer.c` keeps timers in a list, where a handle finds its entry by the id in its slot
`SLOT_DATA`, and immediates in a queue. The calls of a program and the turns of the loop act on
them and on timers that are cancelled as they should be. Both agree exactly as long as
no handle of a waiting immediate is cleared, since such a handle has nothing in its slot.
-/

namespace AntRuntime.Timers

open List Function

/-- Changes the first entry that is searched for. -/
def updateFirst {α : Type*} (isIt : α → Bool) (change : α → α) (entries : List α) : List α :=
  entries.replaceF fun entry => if isIt entry then some (change entry) else none

/-- `timer_entry_t`, with the two flags of its libuv handle. -/
structure TimerEntry where
  timerId : Int
  isInterval : Bool
  active : Bool
  closing : Bool
  hasRef : Bool

/-- `immediate_entry_t`. -/
structure ImmediateEntry where
  immediateId : Int
  active : Bool

/-- What a set call returns: an object, known by the id of its entry. -/
inductive Handle
  | timer (id : Int)
  | immediate (id : Int)

/-- The number in the slot `SLOT_DATA` of a handle, which `js_set_immediate` does not set. -/
def Handle.slotData : Handle → Option Int
  | .timer id => some id
  | .immediate _ => none

/-- The conversion of a NaN to an `int`, which C leaves open: the smallest `int` or zero. -/
structure Conversion where
  ofNaN : Int
  notPositive : ofNaN ≤ 0

/-- `timer_id_from_arg` of a handle: an empty slot holds `undefined`, which reads as a NaN. -/
def timerIdFromArg (conversion : Conversion) (handle : Handle) : Int :=
  handle.slotData.getD conversion.ofNaN

/-- The timers and immediates, with the callbacks that have been started. -/
structure TimerState where
  timers : List TimerEntry
  immediates : List ImmediateEntry
  nextTimerId : Int
  nextImmediateId : Int
  started : List Handle

/-- `++` on an `int`, as it comes out on the machines. -/
def increment (counter : Int) : Int :=
  if counter = 2147483647 then -2147483648 else counter + 1

/-- The calls of a program, outside or inside callbacks, and the turns of the loop. -/
inductive Action
  | setTimer (isInterval : Bool)
  | refresh (id : Int) (callable : Bool)
  | setRef (id : Int) (hasRef : Bool)
  | clearTimeout (id : Int)
  | expire (id : Int)
  | closed (id : Int)
  | setImmediate
  | clearImmediate (id : Int)
  | processImmediate

/-- `find_timer_entry_by_id`. -/
def findTimerEntryById (id : Int) (timers : List TimerEntry) : Option TimerEntry :=
  timers.find? (·.timerId == id)

/-- Changes the entry that `find_timer_entry_by_id` finds. -/
def updateById (id : Int) (change : TimerEntry → TimerEntry)
    (timers : List TimerEntry) : List TimerEntry :=
  updateFirst (·.timerId == id) change timers

/-- `js_timer_refresh`, where there may be a callback to call. -/
def TimerEntry.refresh (callable : Bool) (entry : TimerEntry) : TimerEntry :=
  { entry with active := entry.active || !entry.closing && callable }

/-- `js_timer_ref` and `js_timer_unref`. -/
def TimerEntry.setRef (hasRef : Bool) (entry : TimerEntry) : TimerEntry :=
  { entry with hasRef := if entry.closing then entry.hasRef else hasRef }

/-- `timer_close_entry`. -/
def TimerEntry.close (entry : TimerEntry) : TimerEntry :=
  { entry with active := false, closing := true }

/-- What `timer_callback` does to the entry: only an interval stays active. -/
def TimerEntry.expire (entry : TimerEntry) : TimerEntry :=
  { entry with active := entry.active && entry.isInterval }

/-- One call or turn. An expiration is `timer_callback`, a closed timer `timer_close_cb`, which
libuv calls for an entry that is closing, and an immediate one round of `process_immediates`. -/
def TimerState.step (conversion : Conversion) (state : TimerState) : Action → TimerState
  | .setTimer isInterval =>
    { state with
      timers := ⟨state.nextTimerId, isInterval, true, false, true⟩ :: state.timers
      nextTimerId := increment state.nextTimerId }
  | .refresh id callable => { state with timers := updateById id (.refresh callable) state.timers }
  | .setRef id hasRef => { state with timers := updateById id (.setRef hasRef) state.timers }
  | .clearTimeout id =>
    { state with
      timers := updateById (timerIdFromArg conversion (.timer id)) .close state.timers }
  | .expire id =>
    { state with
      timers := updateById id .expire state.timers
      started := if (findTimerEntryById id state.timers).any (·.active) then
        state.started ++ [.timer id] else state.started }
  | .closed id =>
    { state with
      timers := if (findTimerEntryById id state.timers).any (·.closing) then
        state.timers.filter (·.timerId != id) else state.timers }
  | .setImmediate =>
    { state with
      immediates := state.immediates ++ [⟨state.nextImmediateId, true⟩]
      nextImmediateId := increment state.nextImmediateId }
  | .clearImmediate id =>
    { state with
      immediates := updateFirst
        (·.immediateId == timerIdFromArg conversion (.immediate id))
        (fun entry => { entry with active := false }) state.immediates }
  | .processImmediate =>
    { state with
      immediates := state.immediates.tail
      started := state.started ++
        ((state.immediates.take 1).filter (·.active)).map (.immediate ·.immediateId) }

/-- What becomes of a timer by its own calls and expirations. -/
inductive Life
  | unset
  | pending (isInterval : Bool)
  | expired (isInterval : Bool)
  | cleared

/-- The timer may start its callback. -/
def Life.isPending : Life → Bool
  | .pending _ => true
  | _ => false

/-- A timer that has expired is set again. -/
def Life.refresh (callable : Bool) : Life → Life
  | .expired isInterval => if callable then .pending isInterval else .expired isInterval
  | life => life

/-- A timer that was set is cleared for good. -/
def Life.clear : Life → Life
  | .unset => .unset
  | _ => .cleared

/-- A timer expires once, an interval again and again. -/
def Life.expire : Life → Life
  | .pending false => .expired false
  | life => life

/-- Cancellation as it should be: a timer lives by its own calls and expirations, and the
immediates that are not cleared wait in the order of creation. -/
structure Ideal where
  life : Int → Life
  waiting : List Int
  nextTimer : Int
  nextImmediate : Int
  started : List Handle

/-- One call or turn, as it should be. -/
def Ideal.step (ideal : Ideal) : Action → Ideal
  | .setTimer isInterval =>
    { ideal with
      life := update ideal.life ideal.nextTimer (.pending isInterval)
      nextTimer := ideal.nextTimer + 1 }
  | .refresh id callable =>
    { ideal with life := update ideal.life id ((ideal.life id).refresh callable) }
  | .clearTimeout id => { ideal with life := update ideal.life id (ideal.life id).clear }
  | .expire id =>
    { ideal with
      life := update ideal.life id (ideal.life id).expire
      started := if (ideal.life id).isPending then ideal.started ++ [.timer id]
        else ideal.started }
  | .setRef _ _ | .closed _ => ideal
  | .setImmediate =>
    { ideal with
      waiting := ideal.waiting ++ [ideal.nextImmediate]
      nextImmediate := ideal.nextImmediate + 1 }
  | .clearImmediate id => { ideal with waiting := ideal.waiting.filter (· != id) }
  | .processImmediate =>
    { ideal with
      waiting := ideal.waiting.tail
      started := ideal.started ++ (ideal.waiting.take 1).map .immediate }

/-- The code and the ideal side by side. -/
structure World where
  state : TimerState
  ideal : Ideal

/-- One call or turn on both sides. -/
def World.step (conversion : Conversion) (action : Action) (world : World) : World :=
  ⟨world.state.step conversion action, world.ideal.step action⟩

/-- Nothing is set yet, and ids start at one. -/
def World.start : World :=
  ⟨⟨[], [], 1, 1, []⟩, ⟨fun _ => .unset, [], 1, 1, []⟩⟩

/-- Cancellation works: the callbacks that were started, the timers that may start theirs and the
immediates that wait are as they should be. -/
structure World.Cancels (world : World) : Prop where
  started : world.state.started = world.ideal.started
  timers : ∀ id, (findTimerEntryById id world.state.timers).any (·.active) =
    (world.ideal.life id).isPending
  immediates : (world.state.immediates.filter (·.active)).map (·.immediateId) =
    world.ideal.waiting

/-- A call or turn does not clear an immediate that waits. -/
def World.InOrder : Action → World → Prop
  | .clearImmediate id, world => ∀ entry ∈ world.state.immediates, entry.immediateId ≠ id
  | _, _ => True

/-- A set call finds a counter of ids that can still be counted up. -/
def World.HasIds : Action → World → Prop
  | .setTimer _, world => world.state.nextTimerId < 2147483647
  | .setImmediate, world => world.state.nextImmediateId < 2147483647
  | _, _ => True

/-- What an entry, if there is one, says about the life of its timer. -/
def Shows : Option TimerEntry → Life → Prop
  | none, life => life = .unset ∨ life = .cleared
  | some ⟨_, _, active, true, _⟩, life => active = false ∧ life = .cleared
  | some ⟨_, isInterval, true, false, _⟩, life => life = .pending isInterval
  | some ⟨_, isInterval, false, false, _⟩, life => life = .expired isInterval

/-- Every entry shows the life of its timer, and every immediate waits to be started. -/
structure World.Sound (world : World) : Prop where
  started : world.state.started = world.ideal.started
  shows : ∀ id, Shows (findTimerEntryById id world.state.timers) (world.ideal.life id)
  nextTimer : world.state.nextTimerId = world.ideal.nextTimer
  immediates : ∀ entry ∈ world.state.immediates, entry.active = true ∧ 0 < entry.immediateId
  waiting : world.state.immediates.map (·.immediateId) = world.ideal.waiting
  nextImmediate : world.state.nextImmediateId = world.ideal.nextImmediate
  positive : 0 < world.state.nextImmediateId

variable {conversion : Conversion} {world : World} {id : Int}

theorem Shows.isPending {found : Option TimerEntry} {life : Life} (shows : Shows found life) :
    found.any (·.active) = life.isPending := by
  rcases found with _ | ⟨_, _, _ | _, _ | _, _⟩
  · rcases shows with rfl | rfl <;> rfl
  all_goals simp_all [Shows, Life.isPending]

theorem findTimerEntryById_updateById
    {change : TimerEntry → TimerEntry} (keepsId : ∀ entry, (change entry).timerId = entry.timerId)
    (timers : List TimerEntry) (other : Int) :
    findTimerEntryById other (updateById id change timers) =
      if other = id then (findTimerEntryById other timers).map change
      else findTimerEntryById other timers := by
  induction timers with
  | nil => simp [updateById, updateFirst, findTimerEntryById]
  | cons entry rest ih => grind [updateById, updateFirst, findTimerEntryById, replaceF_cons]

/-- A change of an entry that is a change of the life of its timer touches no other timer. -/
theorem Shows.update
    {timers : List TimerEntry} {life : Int → Life} {change : TimerEntry → TimerEntry}
    (changeLife : Life → Life) (shows : ∀ id, Shows (findTimerEntryById id timers) (life id))
    (keepsId : ∀ entry, (change entry).timerId = entry.timerId)
    (isChanged : ∀ found life, Shows found life → Shows (found.map change) (changeLife life))
    (other : Int) :
    Shows (findTimerEntryById other (updateById id change timers))
      (update life id (changeLife (life id)) other) := by
  rw [findTimerEntryById_updateById keepsId, update_apply]
  split
  next isIt => exact isIt ▸ isChanged _ _ (shows other)
  next => exact shows other

theorem World.Sound.cancels (sound : world.Sound) : world.Cancels where
  started := sound.started
  timers id := (sound.shows id).isPending
  immediates := by
    rw [filter_eq_self.mpr fun entry isEntry => (sound.immediates entry isEntry).1]
    exact sound.waiting

/-- The id that a handle of an immediate gives finds no immediate. -/
theorem World.Sound.immediates_clear (sound : world.Sound) :
    (world.state.step conversion (.clearImmediate id)).immediates = world.state.immediates := by
  apply replaceF_of_forall_none
  intro entry isEntry
  apply if_neg
  have := (sound.immediates entry isEntry).2
  have := conversion.notPositive
  simp only [timerIdFromArg, Handle.slotData, Option.getD_none, beq_iff_eq]
  omega

theorem increment_eq (small : counter < 2147483647) :
    increment counter = counter + 1 :=
  if_neg (Int.ne_of_lt small)

/-- A call or turn in order keeps every entry at the life of its timer. -/
theorem World.Sound.step
    (action : Action) (world : World) (sound : world.Sound) (hasIds : world.HasIds action)
    (inOrder : world.InOrder action) :
    (world.step conversion action).Sound := by
  cases action with
  | setTimer isInterval =>
    have counted := increment_eq hasIds
    refine { sound with
      shows := fun id => ?_, nextTimer := counted.trans (congrArg (· + 1) sound.nextTimer) }
    simp only [World.step, TimerState.step, Ideal.step, ← sound.nextTimer, findTimerEntryById]
    rcases eq_or_ne id world.state.nextTimerId with rfl | apart
    · simp [Shows]
    · rw [update_of_ne apart, find?_cons_of_neg (by simpa using apart.symm)]
      exact sound.shows id
  | refresh id callable =>
    refine { sound with shows := Shows.update (.refresh callable) sound.shows (fun _ => rfl) ?_ }
    rintro (_ | ⟨_, _, _ | _, _ | _, _⟩) life shows <;>
      grind [Shows, TimerEntry.refresh, Life.refresh]
  | setRef id hasRef =>
    have kept := @Shows.update id _ _ (.setRef hasRef) (fun life => life) sound.shows
      (fun _ => rfl) ?_
    · rw [update_eq_self] at kept
      exact { sound with shows := kept }
    · rintro (_ | ⟨_, _, _ | _, _ | _, _⟩) life shows <;> exact shows
  | clearTimeout id =>
    refine { sound with shows := Shows.update .clear sound.shows (fun _ => rfl) ?_ }
    rintro (_ | ⟨_, _, _ | _, _ | _, _⟩) life shows <;> grind [Shows, TimerEntry.close, Life.clear]
  | expire id =>
    refine { sound with started := ?_, shows := Shows.update .expire sound.shows (fun _ => rfl) ?_ }
    · simp only [World.step, TimerState.step, Ideal.step, (sound.shows id).isPending, sound.started]
    · rintro (_ | ⟨_, _ | _, _ | _, _ | _, _⟩) life shows <;>
        grind [Shows, TimerEntry.expire, Life.expire]
  | closed id =>
    refine { sound with shows := fun other => ?_ }
    have shows := sound.shows other
    simp only [World.step, TimerState.step, Ideal.step]
    split
    next isClosing =>
      rw [findTimerEntryById, find?_filter]
      rcases eq_or_ne other id with rfl | apart
      · rcases found : findTimerEntryById other world.state.timers with
          _ | ⟨_, _, _ | _, _ | _, _⟩ <;> grind [Shows]
      · rw [findTimerEntryById] at shows
        convert shows using 3 with entry
        grind
    next => exact shows
  | setImmediate =>
    have counted := increment_eq hasIds
    refine { sound with
      immediates := ?_
      waiting := ?_
      nextImmediate := counted.trans (congrArg (· + 1) sound.nextImmediate)
      positive := ?_ }
    · exact forall_mem_append.mpr ⟨sound.immediates, forall_mem_singleton.mpr ⟨rfl, sound.positive⟩⟩
    · simp [World.step, TimerState.step, Ideal.step, sound.waiting, sound.nextImmediate]
    · change 0 < increment _
      rw [counted]
      exact Int.add_pos sound.positive Int.one_pos
  | clearImmediate id =>
    refine { sound with immediates := ?_, waiting := ?_ }
    · exact sound.immediates_clear.symm ▸ sound.immediates
    · refine (congrArg _ sound.immediates_clear).trans (sound.waiting.trans ?_)
      refine (filter_eq_self.mpr ?_).symm
      simpa [← sound.waiting, World.InOrder] using inOrder
  | processImmediate =>
    refine { sound with started := ?_, immediates := ?_, waiting := ?_ }
    · have allActive := filter_eq_self.mpr fun entry isFirst =>
        (sound.immediates entry (mem_of_mem_take (i := 1) isFirst)).1
      simp only [World.step, TimerState.step, Ideal.step, allActive, sound.started,
        ← sound.waiting, ← map_take, map_map]
      rfl
    · exact fun entry isLater => sound.immediates entry (mem_of_mem_tail isLater)
    · exact map_tail.trans (congrArg tail sound.waiting)

/-- Clearing an immediate that waits leaves it to be started. -/
theorem World.Sound.not_cancels
    (action : Action) (world : World) (sound : world.Sound) (disorder : ¬ world.InOrder action) :
    ¬ (world.step conversion action).Cancels := by
  cases action with
  | clearImmediate id =>
    intro cancels
    have waiting := cancels.immediates
    rw [World.step, sound.immediates_clear, sound.cancels.immediates] at waiting
    refine disorder ?_
    simpa [← sound.waiting, World.InOrder] using filter_eq_self.mp waiting.symm
  | _ => exact absurd trivial disorder

/-- Cancellation works throughout a history of calls and expirations whose ids fit an `int`
exactly when no handle of an immediate that still waits is cleared. -/
theorem cancels_iff (conversion : Conversion) (history : List Action)
    (hasIds : Machine.EachInOrder (World.step conversion) World.HasIds history World.start) :
    Machine.Throughout (World.step conversion) World.Cancels history World.start ↔
      Machine.EachInOrder (World.step conversion) World.InOrder history World.start := by
  refine Machine.throughout_iff_of_allowed World.Sound (fun _ => World.Sound.cancels)
    World.Sound.step World.Sound.not_cancels ?_ hasIds
  exact ⟨rfl, fun _ => Or.inl rfl, rfl, nofun, rfl, rfl, Int.one_pos⟩

/-- An interval is cleared after its first expiration and an immediate after its start. -/
theorem cancels_interval_immediate :
    Machine.Throughout (World.step ⟨-2147483648, by decide⟩) World.Cancels
      [.setTimer true, .setImmediate, .expire 1, .clearTimeout 1, .expire 1, .processImmediate,
        .clearImmediate 1, .closed 1] World.start := by
  refine (cancels_iff _ _ ?_).mpr ?_ <;>
    simp [Machine.eachInOrder_cons, Machine.eachInOrder_nil, World.HasIds, World.InOrder,
      World.step, World.start, TimerState.step]

/-- An immediate that was cleared by its handle is started all the same. -/
theorem not_cancels_clearImmediate :
    ¬ Machine.Throughout (World.step ⟨-2147483648, by decide⟩) World.Cancels
      [.setImmediate, .clearImmediate 1, .processImmediate] World.start := by
  intro always
  exact cons_ne_nil _ _ (always _ prefix_rfl).started

end AntRuntime.Timers
