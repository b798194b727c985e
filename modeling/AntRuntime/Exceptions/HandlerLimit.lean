import AntRuntime.Exceptions.Machine
import AntRuntime.Machine.Runs

/-!
# The limit of the handler stack

All frames share one handler array of fixed size. Here the array is cut at the frames'
`handler_base`: a frame owns the handlers above it, and calls, returns, exceptions and
suspended activations move whole frames. Every handler carries the number of the try entry
that pushed it, and next to the array stand the handlers that are expected: those of all try
statements that have been entered and not left.
-/

namespace AntRuntime.Exceptions

open List

/-- A handler and the number of the entry that pushed it. -/
structure Installed where
  handler : Handler
  entry : Nat
  deriving DecidableEq, Repr

/-- The handlers of the frames, the running frame and the top handler first. -/
abbrev HandlerFrames := List (List Installed)

/-- `handler_depth`. -/
def handlerDepth (frames : HandlerFrames) : Nat :=
  frames.flatten.length

section Unwinding

/-- The topmost handler of a wanted kind in one frame, with the handlers below it. -/
def findInstalled (wanted : HandlerKind → Bool) :
    List Installed → Option (Installed × List Installed)
  | [] => none
  | installed :: below =>
    if wanted installed.handler.kind then some (installed, below)
    else findInstalled wanted below

/-- The search of `sv_vm_throw` in a number of frames: the handler that gets the exception,
and the frames that are left with it. -/
def findCatching : Nat → HandlerFrames → Option (Installed × HandlerFrames)
  | 0, _ | _, [] => none
  | count + 1, frame :: outer =>
    match findInstalled HandlerKind.catches frame with
    | some (installed, below) => some (installed, below :: outer)
    | none => findCatching count outer

/-- `sv_vm_throw`; without a handler the searched frames are left. -/
def throwFrom (count : Nat) (frames : HandlerFrames) : HandlerFrames :=
  match findCatching count frames with
  | some (_, left) => left
  | none => frames.drop count

/-- The entry that an exception thrown now is delivered to. -/
def deliveredTo (count : Nat) (frames : HandlerFrames) : Option Nat :=
  (findCatching count frames).map fun found => found.1.entry

/-- `sv_op_try_pop` in one frame. -/
def removeTry : List Installed → List Installed
  | [] => []
  | installed :: below =>
    if installed.handler.kind.catches then below else installed :: removeTry below

/-- Change the running frame. -/
def onRunning (change : List Installed → List Installed) : HandlerFrames → HandlerFrames
  | [] => []
  | frame :: outer => change frame :: outer

/-- `L_RETURN`: into a finally block of the frame, or out of the frame. -/
def returnFrom : HandlerFrames → HandlerFrames
  | [] => []
  | frame :: outer =>
    match findInstalled HandlerKind.finalizes frame with
    | some (_, below) => below :: outer
    | none => outer

/-- `sv_vm_unwind_for_jump`. -/
def unwindFrame (finallies pops : Nat) (frame : List Installed) : List Installed :=
  match findInstalled HandlerKind.finalizes frame, finallies with
  | some (_, below), _ + 1 => below
  | _, _ => frame.drop pops

/-- Whether the top handler of the running frame is that of a finally block. -/
def inFinally : HandlerFrames → Bool
  | (installed :: _) :: _ => installed.handler.kind == .handlerFinally
  | _ => false

end Unwinding

section Events

/-- `OP_TRY_PUSH` and `OP_TRY_PUSH_FINALLY`. -/
inductive TryKind
  | plain
  | finalizing
  deriving DecidableEq, Repr

def TryKind.handlerKind : TryKind → HandlerKind
  | .plain => .handlerTry
  | .finalizing => .handlerTryFinally

/-- What an execution does with handlers and frames. -/
inductive HandlerEvent
  | tryPush (kind : TryKind) (address savedSp : Nat)
  | tryPop
  | enterFinally (address searched : Nat)
  | finallyRet (searched : Nat)
  | finallyDiscard
  | unwindJmp (finallies pops : Nat)
  | throw (searched : Nat)
  | ret
  | call
  /-- `sv_activation_capture` of a number of frames. -/
  | suspend (count : Nat)
  /-- `sv_activation_install` of a suspended activation. -/
  | resume (activation : Nat)

/-- The frames in execution and those of suspended activations. -/
structure Stacks where
  frames : HandlerFrames := [[]]
  suspended : List HandlerFrames := []
  deriving DecidableEq, Repr

/-- The handlers in the array, those that are expected, and the entries so far. -/
structure HandlerState where
  actual : Stacks := {}
  expected : Stacks := {}
  entries : Nat := 0
  deriving DecidableEq, Repr

/-- `sv_op_try_push`, if it is allowed to push. -/
def pushTry (allowed : Bool) (installed : Installed) (frames : HandlerFrames) : HandlerFrames :=
  if allowed then onRunning (installed :: ·) frames else frames

/-- The events on one of the two stacks. At a full array an entry of a try statement pushes
nothing where it needs room, and a finally block or an activation raises an error. -/
def onStacks (allowed : Bool) (depth entry : Nat) : HandlerEvent → Stacks → Stacks
  | .tryPush kind address savedSp, stored =>
    { stored with
      frames := pushTry allowed ⟨⟨kind.handlerKind, address, savedSp⟩, entry⟩ stored.frames }
  | .tryPop, stored => { stored with frames := onRunning removeTry stored.frames }
  | .enterFinally address searched, stored =>
    { stored with
      frames :=
        if handlerMax ≤ depth then throwFrom searched stored.frames
        else onRunning (⟨⟨.handlerFinally, address, 0⟩, entry⟩ :: ·) stored.frames }
  | .finallyRet searched, stored =>
    { stored with
      frames :=
        if inFinally stored.frames then onRunning tail stored.frames
        else throwFrom searched stored.frames }
  | .finallyDiscard, stored =>
    { stored with
      frames :=
        if inFinally stored.frames then onRunning tail stored.frames
        else stored.frames }
  | .unwindJmp finallies pops, stored =>
    { stored with frames := onRunning (unwindFrame finallies pops) stored.frames }
  | .throw searched, stored => { stored with frames := throwFrom searched stored.frames }
  | .ret, stored => { stored with frames := returnFrom stored.frames }
  | .call, stored => { stored with frames := [] :: stored.frames }
  | .suspend count, stored =>
    { frames := stored.frames.drop count
      suspended := stored.suspended ++ [stored.frames.take count] }
  | .resume activation, stored =>
    match stored.suspended[activation]? with
    | none => stored
    | some frames =>
      if handlerMax < depth + handlerDepth frames then stored
      else
        { frames := frames ++ stored.frames
          suspended := stored.suspended.eraseIdx activation }

/-- One event: in the array a try statement is entered only if there is room. -/
def handlerStep (event : HandlerEvent) (state : HandlerState) : HandlerState :=
  let depth := handlerDepth state.actual.frames
  { actual := onStacks (decide (depth < handlerMax)) depth state.entries event state.actual
    expected := onStacks true depth state.entries event state.expected
    entries := state.entries + 1 }

/-- An exception thrown now goes to the try statement it is expected to go to, however many
frames may be searched for it. -/
def Delivers (state : HandlerState) : Prop :=
  ∀ searched, deliveredTo searched state.actual.frames = deliveredTo searched state.expected.frames

/-- A try statement is entered with room in the array. -/
def EntersWithRoom : HandlerEvent → HandlerState → Prop
  | .tryPush _ _ _, state => handlerDepth state.actual.frames < handlerMax
  | _, _ => True

end Events

section Provenance

variable {frames : HandlerFrames} {installed : Installed}

/-- All handlers of a stack. -/
def Stacks.all (stored : Stacks) : List Installed :=
  stored.frames.flatten ++ stored.suspended.flatten.flatten

theorem findInstalled_spec {wanted : HandlerKind → Bool} {frame below : List Installed}
    (found : findInstalled wanted frame = some (installed, below)) :
    installed ∈ frame ∧ below ⊆ frame := by
  induction frame with
  | nil => cases found
  | cons first rest ih =>
    rw [findInstalled] at found
    split_ifs at found
    · obtain ⟨rfl, rfl⟩ := Prod.mk.inj (Option.some.inj found)
      exact ⟨mem_cons_self, subset_cons_self _ _⟩
    · obtain ⟨member, subset⟩ := ih found
      exact ⟨mem_cons_of_mem _ member, subset_cons_of_subset _ subset⟩

theorem findCatching_spec {count : Nat} {frames left : HandlerFrames}
    (found : findCatching count frames = some (installed, left)) :
    installed ∈ frames.flatten ∧ left.flatten ⊆ frames.flatten := by
  induction frames generalizing count with
  | nil => cases count <;> cases found
  | cons frame outer ih =>
    cases count with
    | zero => cases found
    | succ count =>
      rw [findCatching] at found
      cases here : findInstalled HandlerKind.catches frame with
      | some result =>
        rw [here] at found
        obtain ⟨rfl, rfl⟩ := Prod.mk.inj (Option.some.inj found)
        obtain ⟨member, subset⟩ := findInstalled_spec here
        exact ⟨mem_append_left _ member,
          append_subset.mpr ⟨subset_append_of_subset_left _ subset,
            subset_append_right _ _⟩⟩
      | none =>
        rw [here] at found
        obtain ⟨member, subset⟩ := ih found
        exact ⟨mem_append_right _ member, subset_append_of_subset_right _ subset⟩

theorem flatten_subset {α : Type} {part whole : List (List α)} (subset : part ⊆ whole) :
    part.flatten ⊆ whole.flatten := by
  intro item member
  obtain ⟨list, isList, inList⟩ := mem_flatten.mp member
  exact mem_flatten.mpr ⟨list, subset isList, inList⟩

theorem throwFrom_subset (count : Nat) (frames : HandlerFrames) :
    (throwFrom count frames).flatten ⊆ frames.flatten := by
  rw [throwFrom]
  cases found : findCatching count frames with
  | some result => exact (findCatching_spec found).2
  | none => exact flatten_subset (drop_subset _ _)

theorem onRunning_subset
    {change : List Installed → List Installed} (shrinks : ∀ frame, change frame ⊆ frame)
    (frames : HandlerFrames) :
    (onRunning change frames).flatten ⊆ frames.flatten := by
  cases frames with
  | nil => exact List.Subset.refl _
  | cons frame outer =>
    exact append_subset.mpr
      ⟨subset_append_of_subset_left _ (shrinks frame), subset_append_right _ _⟩

theorem removeTry_subset (frame : List Installed) : removeTry frame ⊆ frame := by
  induction frame with
  | nil => exact List.Subset.refl _
  | cons installed below ih =>
    rw [removeTry]
    split_ifs
    · exact subset_cons_self _ _
    · exact cons_subset_cons _ ih

theorem unwindFrame_subset (finallies pops : Nat) (frame : List Installed) :
    unwindFrame finallies pops frame ⊆ frame := by
  rw [unwindFrame.eq_def]
  split
  · next found => exact (findInstalled_spec found).2
  · exact drop_subset _ _

theorem returnFrom_subset (frames : HandlerFrames) :
    (returnFrom frames).flatten ⊆ frames.flatten := by
  cases frames with
  | nil => exact List.Subset.refl _
  | cons frame outer =>
    rw [returnFrom]
    cases found : findInstalled HandlerKind.finalizes frame with
    | some result =>
      exact append_subset.mpr
        ⟨subset_append_of_subset_left _ (findInstalled_spec found).2,
          subset_append_right _ _⟩
    | none => exact subset_append_right _ _

/-- Every handler comes from an entry with a smaller number. -/
def Stacks.EntriesBelow (bound : Nat) (stored : Stacks) : Prop :=
  ∀ installed ∈ stored.all, installed.entry < bound

variable {stored : Stacks}

section

variable (below : stored.EntriesBelow entry)
include below

/-- Frames that keep some of the handlers. -/
theorem Stacks.EntriesBelow.shrink (subset : frames.flatten ⊆ stored.frames.flatten) :
    Stacks.EntriesBelow (entry + 1) { stored with frames := frames } := by
  intro installed member
  refine Nat.lt_succ_of_lt (below installed ?_)
  rcases mem_append.mp member with inFrames | waiting
  · exact mem_append_left _ (subset inFrames)
  · exact mem_append_right _ waiting

/-- The running frame gets a handler of this entry. -/
theorem Stacks.EntriesBelow.push (handler : Handler) :
    Stacks.EntriesBelow (entry + 1)
      { stored with frames := onRunning (⟨handler, entry⟩ :: ·) stored.frames } := by
  intro installed member
  rcases mem_append.mp member with inFrames | waiting
  · cases same : stored.frames with
    | nil =>
      rw [same] at inFrames
      cases inFrames
    | cons frame outer =>
      rw [same] at inFrames
      rcases mem_cons.mp inFrames with rfl | older
      · exact Nat.lt_succ_self entry
      · refine Nat.lt_succ_of_lt (below installed (mem_append_left _ ?_))
        rw [same]
        exact older
  · exact Nat.lt_succ_of_lt (below installed (mem_append_right _ waiting))

/-- Frames that move between execution and suspension. -/
theorem Stacks.EntriesBelow.move {moved : Stacks} (subset : moved.all ⊆ stored.all) :
    moved.EntriesBelow (entry + 1) :=
  fun installed member => Nat.lt_succ_of_lt (below installed (subset member))

end

theorem suspend_subset (count : Nat) :
    Stacks.all
      { frames := stored.frames.drop count
        suspended := stored.suspended ++ [stored.frames.take count] } ⊆ stored.all := by
  intro installed member
  simp only [Stacks.all, flatten_append, flatten_singleton, mem_append] at member ⊢
  rcases member with kept | waiting | moved
  · exact .inl (flatten_subset (drop_subset _ _) kept)
  · exact .inr waiting
  · exact .inl (flatten_subset (take_subset _ _) moved)

theorem resume_subset (waits : stored.suspended[activation]? = some frames) :
    Stacks.all
      { frames := frames ++ stored.frames
        suspended := stored.suspended.eraseIdx activation } ⊆ stored.all := by
  intro installed member
  simp only [Stacks.all, flatten_append, mem_append] at member ⊢
  rcases member with (moved | kept) | waiting
  · refine .inr (flatten_subset (fun frame isFrame => ?_) moved)
    exact mem_flatten.mpr ⟨frames, mem_of_getElem? waits, isFrame⟩
  · exact .inl kept
  · exact .inr (flatten_subset (flatten_subset eraseIdx_subset) waiting)

/-- Events only push handlers of their own entry. -/
theorem onStacks_entriesBelow
    (allowed : Bool) (depth : Nat) (event : HandlerEvent) (below : stored.EntriesBelow entry) :
    (onStacks allowed depth entry event stored).EntriesBelow (entry + 1) := by
  have same : stored.EntriesBelow (entry + 1) := below.move (List.Subset.refl _)
  cases event with
  | tryPush kind address savedSp =>
    cases allowed with
    | true => exact below.push _
    | false => exact same
  | tryPop => exact below.shrink (onRunning_subset removeTry_subset _)
  | enterFinally address searched =>
    rw [onStacks]
    split_ifs
    · exact below.shrink (throwFrom_subset _ _)
    · exact below.push _
  | finallyRet searched =>
    rw [onStacks]
    split_ifs
    · exact below.shrink (onRunning_subset (fun frame => tail_subset frame) _)
    · exact below.shrink (throwFrom_subset _ _)
  | finallyDiscard =>
    rw [onStacks]
    split_ifs
    · exact below.shrink (onRunning_subset (fun frame => tail_subset frame) _)
    · exact same
  | unwindJmp finallies pops =>
    exact below.shrink (onRunning_subset (unwindFrame_subset finallies pops) _)
  | throw searched => exact below.shrink (throwFrom_subset _ _)
  | ret => exact below.shrink (returnFrom_subset _)
  | call => exact below.shrink (List.Subset.refl _)
  | suspend count => exact below.move (suspend_subset count)
  | resume activation =>
    rw [onStacks]
    cases waits : stored.suspended[activation]? with
    | none => exact same
    | some frames =>
      change Stacks.EntriesBelow (entry + 1) (if _ then stored else _)
      split_ifs
      · exact same
      · exact below.move (resume_subset waits)

end Provenance

section Limit

variable {event : HandlerEvent} {state : HandlerState}

/-- The array holds what is expected, and entries are numbered in order. -/
structure HandlerState.Sound (state : HandlerState) : Prop where
  same : state.actual = state.expected
  below : state.actual.EntriesBelow state.entries

/-- Only the entry of a try statement depends on being allowed to push. -/
theorem onStacks_allowed (room : EntersWithRoom event state) (entry : Nat) (stored : Stacks) :
    onStacks (decide (handlerDepth state.actual.frames < handlerMax))
        (handlerDepth state.actual.frames) entry event stored =
      onStacks true (handlerDepth state.actual.frames) entry event stored := by
  cases event with
  | tryPush kind address savedSp =>
    have fits : handlerDepth state.actual.frames < handlerMax := room
    rw [decide_eq_true fits]
  | _ => rfl

theorem HandlerState.Sound.step (sound : state.Sound) (room : EntersWithRoom event state) :
    (handlerStep event state).Sound where
  same := by
    simp only [handlerStep]
    rw [onStacks_allowed room, sound.same]
  below := onStacks_entriesBelow _ _ event sound.below

/-- At a full array a try statement is entered without its handler: an exception in its body
goes elsewhere. -/
theorem HandlerState.Sound.not_delivers
    (sound : state.Sound) (full : ¬ EntersWithRoom event state) :
    ¬ Delivers (handlerStep event state) := by
  cases event with
  | tryPush kind address savedSp =>
    have blocked : decide (handlerDepth state.actual.frames < handlerMax) = false :=
      decide_eq_false full
    intro delivers
    have delivered := delivers 1
    cases frames : state.actual.frames with
    | nil =>
      refine full ?_
      rw [EntersWithRoom, frames]
      decide
    | cons frame outer =>
      have expectedEntry : deliveredTo 1
          (handlerStep (.tryPush kind address savedSp) state).expected.frames =
            some state.entries := by
        simp only [handlerStep, onStacks, ← sound.same, frames]
        cases kind <;> rfl
      have unchanged :
          (handlerStep (.tryPush kind address savedSp) state).actual.frames =
            state.actual.frames := by
        simp [handlerStep, onStacks, pushTry, blocked]
      rw [expectedEntry, unchanged, deliveredTo, Option.map_eq_some_iff] at delivered
      obtain ⟨⟨installed, left⟩, found, number⟩ := delivered
      have older := sound.below installed (mem_append_left _ (findCatching_spec found).1)
      exact absurd number (Nat.ne_of_lt older)
  | _ => exact absurd trivial full

/-- Exceptions are delivered to the try statement they are expected to go to at every point
of an execution exactly if every try statement is entered with room in the array. -/
theorem delivers_throughout_iff (events : List HandlerEvent) :
    Machine.Throughout handlerStep Delivers events {} ↔
      Machine.EachInOrder handlerStep EntersWithRoom events {} := by
  refine Machine.throughout_iff_of_sound HandlerState.Sound ?_ ?_ ?_ events
    ⟨rfl, fun installed member => by cases member⟩
  · intro state sound searched
    rw [sound.same]
  · intro event state sound room
    exact sound.step room
  · intro event state sound full
    exact sound.not_delivers full

/-- A recursion in which every call stands in a try statement. -/
def nestedTries (depth : Nat) : List HandlerEvent :=
  (replicate depth [.call, .tryPush .plain 0 0]).flatten

/-- The try statement of the 129th call has no handler. -/
theorem not_delivers_nestedTries :
    ¬ Machine.Throughout handlerStep Delivers (nestedTries 129) {} := by
  intro always
  have last := always (nestedTries 129) (prefix_refl _) 1
  exact absurd last (by decide +kernel)

end Limit

end AntRuntime.Exceptions
