import AntRuntime.Exceptions.Compiler

/-!
# Jumps out of loops

What `emit_loop_exit_jump` emits, read from the inside out: one instruction per
try statement or finally block the jump leaves, then the jump. The lemmas peel
one entry, or one crossed loop, off that code, which is what the statement
around the jump has to do when the jump passes through it.
-/

namespace AntRuntime.Exceptions

open List

/-- Fill the operands of the open jumps. -/
def resolve (addresses : Nat → LoopExit → Nat) :
    Instr World Value → Instr World Value
  | .exitJmp loop exit => .jmp (addresses loop exit)
  | instr => instr

/-- The addresses of the open jumps once the loop `number` is patched. -/
def patched
    (addresses : Nat → LoopExit → Nat)
    (number leave next : Nat) : Nat → LoopExit → Nat
  | loop, .leave => if loop = number then leave else addresses loop .leave
  | loop, .next => if loop = number then next else addresses loop .next

theorem resolve_patchExit (addresses : Nat → LoopExit → Nat) (number leave next : Nat) :
    resolve addresses ∘ (patchExit number leave next :
        Instr World Value → Instr World Value) =
      resolve (patched addresses number leave next) := by
  funext instr
  cases instr with
  | exitJmp loop exit =>
    cases exit <;> by_cases same : loop = number <;> simp [patchExit, resolve, patched, same]
  | _ => rfl

/-- A loop ends by the breaks that refer to it. -/
theorem breaks_brk (jumpLabel : Option String) (loop : Loop) :
    (Completion.brk jumpLabel : Completion Value).breaks loop.label =
      Loop.accepts jumpLabel loop := by
  cases jumpLabel <;> rfl

/-- A loop goes on after the continues that refer to it. -/
theorem continues_cont (jumpLabel : Option String) (loop : Loop) :
    (Completion.cont jumpLabel : Completion Value).continues loop.label =
      Loop.accepts jumpLabel loop := by
  cases jumpLabel <;> rfl

section FindLoop

variable {wanted : Loop → Bool} {loops : List Loop} {target : JumpTarget} {loop : Loop}

/-- A loop that is found is one of the loops, which are numbered from the outside, and so are
those it is inside of. -/
theorem findLoop_mem (found : findLoop wanted loops = some target) :
    target.loop ∈ loops ∧ target.crossed ⊆ loops ∧ target.number < loops.length := by
  induction loops generalizing target with
  | nil => simp [findLoop] at found
  | cons loop outer ih =>
    by_cases here : wanted loop
    · simp only [findLoop, here, if_true, Option.some.injEq] at found
      subst found
      simp
    · simp only [findLoop, here, Bool.false_eq_true, if_false, Option.map_eq_some_iff] at found
      obtain ⟨inner, foundOuter, rfl⟩ := found
      obtain ⟨member, crossed, below⟩ := ih foundOuter
      exact ⟨mem_cons_of_mem _ member, cons_subset_cons _ crossed, Nat.lt_succ_of_lt below⟩

/-- The addresses of a loop inside are not those of a loop that is found. -/
theorem patched_of_found {addresses : Nat → LoopExit → Nat} {next : Nat} {exit : LoopExit}
    (found : findLoop wanted loops = some target) :
    patched addresses loops.length leave next target.number exit =
      addresses target.number exit := by
  have other := Nat.ne_of_lt (findLoop_mem found).2.2
  cases exit <;> simp [patched, other]

/-- A loop that is not wanted is crossed. -/
theorem findLoop_cons_of_not
    (refused : wanted loop = false) (found : findLoop wanted (loop :: loops) = some target) :
    ∃ outer, findLoop wanted loops = some outer ∧
      target = { outer with crossed := loop :: outer.crossed } := by
  simp only [findLoop, refused, Bool.false_eq_true, if_false, Option.map_eq_some_iff] at found
  obtain ⟨outer, foundOuter, rfl⟩ := found
  exact ⟨outer, foundOuter, rfl⟩

/-- A wanted loop is found at once. -/
theorem findLoop_cons_of_wanted (accepted : wanted loop = true) :
    findLoop wanted (loop :: loops) = some ⟨[], loop, loops.length⟩ := by
  simp [findLoop, accepted]

/-- A jump with a label that some loop carries finds its loop. -/
theorem findLoop_of_labels
    (label : Option String)
    (present :
      match label with
      | none => !(loops.map Loop.label).isEmpty
      | some name => (loops.map Loop.label).contains (some name)) :
    ∃ target, findLoop (Loop.accepts label) loops = some target := by
  induction loops with
  | nil => cases label <;> simp at present
  | cons loop outer ih =>
    cases accepted : Loop.accepts label loop with
    | true => exact ⟨_, findLoop_cons_of_wanted accepted⟩
    | false =>
      cases label with
      | none => simp [Loop.accepts] at accepted
      | some name =>
        have other : loop.label ≠ some name := by simpa [Loop.accepts] using accepted
        have deeper :
            (outer.map Loop.label).contains (some name) = true := by
          simpa [Ne.symm other] using present
        obtain ⟨target, found⟩ := ih deeper
        refine ⟨{ target with crossed := loop :: target.crossed }, ?_⟩
        simp [findLoop, accepted, found]

end FindLoop

section LoopExitJump

variable {exit : LoopExit} {target : JumpTarget}

/-- A jump whose loop is reached has nothing left to unwind. -/
theorem loopExitJump_here
    {unwind : List UnwindKind} (pc : Nat) (depth : target.loop.unwindDepth = unwind.length) :
    (loopExitJump target exit pc unwind : List (Instr World Value)) =
      [.exitJmp target.number exit] := by
  cases unwind with
  | nil => rfl
  | cons kind below => simp [loopExitJump, depth]

/-- Crossing a loop that keeps no handler among the entries adds nothing. -/
theorem loopExitJump_crossed (target : JumpTarget) (loop : Loop) (unwind : List UnwindKind)
    (outside : ∀ index ∈ loop.iterUnwindIndex, unwind.length ≤ index) (pc : Nat) :
    (loopExitJump { target with crossed := loop :: target.crossed } exit pc unwind :
        List (Instr World Value)) =
      loopExitJump target exit pc unwind := by
  induction unwind generalizing pc with
  | nil => rfl
  | cons kind below ih =>
    have notHere : (loop.iterUnwindIndex == some below.length) = false := by
      rw [beq_eq_false_iff_ne]
      intro same
      exact Nat.not_succ_le_self _ (outside below.length (by simp [same]))
    have deeper := ih fun index isIndex => Nat.le_of_succ_le (outside index isIndex)
    have closes :
        (iterCloses (loop :: target.crossed) below.length :
            List (Instr World Value)) =
          iterCloses target.crossed below.length := by
      simp [iterCloses, notHere]
    cases kind <;> simp only [loopExitJump, closes, deeper]

/-- The only open jump of an exit is the one to its own loop. -/
theorem map_resolve_loopExitJump {addresses others : Nat → LoopExit → Nat}
    (agree : addresses target.number exit = others target.number exit) (unwind : List UnwindKind)
    (pc : Nat) :
    (loopExitJump target exit pc unwind : List (Instr World Value)).map
        (resolve addresses) =
      (loopExitJump target exit pc unwind).map (resolve others) := by
  induction unwind generalizing pc with
  | nil => simp [loopExitJump, resolve, agree]
  | cons kind below ih =>
    by_cases outside : below.length < target.loop.unwindDepth
    · simp [loopExitJump, outside, resolve, agree]
    · cases kind <;> simp [loopExitJump, outside, resolve, iterCloses, ih]

variable {context : Context} {wanted : Loop → Bool} {target : JumpTarget}

/-- A new unwind entry is inside every loop there is, and none of them keeps
its handler there. -/
theorem entry_inside (found : findLoop wanted context.loops = some target) :
    ¬ context.unwind.length < target.loop.unwindDepth ∧
      target.crossed.filter
        (fun loop => loop.iterUnwindIndex == some context.unwind.length) = [] := by
  obtain ⟨member, crossed, -⟩ := findLoop_mem found
  refine ⟨Nat.not_lt.mpr (context.unwindDepth_le _ member), ?_⟩
  rw [filter_eq_nil_iff]
  intro loop isCrossed isIndex
  have below := context.iterUnwindIndex_lt loop (crossed isCrossed)
    context.unwind.length (by simpa using isIndex)
  exact Nat.lt_irrefl _ below

/-- The instruction that takes a jump out of one unwind entry. -/
def leaveEntry (pc : Nat) : UnwindKind → Instr World Value
  | .tryCatch => .tryPop
  | .tryFinally => .unwindJmp (pc + 1) 1 1
  | .finallyBody => .finallyDiscard

/-- A jump out of a try statement or a finally block first leaves it, then does
what it does outside. -/
theorem loopExitJump_unwindPush
    (kind : UnwindKind) (found : findLoop wanted context.loops = some target) (pc : Nat) :
    (loopExitJump target exit pc (context.unwindPush kind).unwind :
        List (Instr World Value)) =
      leaveEntry pc kind :: loopExitJump target exit (pc + 1) context.unwind := by
  obtain ⟨inside, closes⟩ := entry_inside found
  cases kind <;> simp [Context.unwindPush, loopExitJump, iterCloses, inside, closes, leaveEntry]

/-- A jump out of a `for-of` loop takes out the loop's handler and drops its
iterator, then does what it does outside. -/
theorem loopExitJump_pushForOf
    (label : Option String) (found : findLoop wanted context.loops = some target) (pc : Nat) :
    (loopExitJump { target with crossed :=
            ⟨label, context.unwind.length + 1, some context.unwind.length⟩ ::
              target.crossed }
        exit pc (context.pushForOf label).unwind :
        List (Instr World Value)) =
      .tryPop :: .iterClose ::
        loopExitJump target exit (pc + 2) context.unwind := by
  obtain ⟨inside, closes⟩ := entry_inside found
  have rest :
      (loopExitJump
        { target with
          crossed :=
            ⟨label, context.unwind.length + 1, some context.unwind.length⟩ ::
              target.crossed }
        exit (pc + 2) context.unwind : List (Instr World Value)) =
      loopExitJump target exit (pc + 2) context.unwind :=
    loopExitJump_crossed target _ context.unwind (by simp) (pc + 2)
  simp [Context.pushForOf, loopExitJump, iterCloses, inside, closes, rest]

end LoopExitJump

section OpenJumps

/-- Every open jump belongs to one of the first `number` loops. -/
def OpenJumpsBelow (number : Nat) (code : List (Instr World Value)) : Prop :=
  ∀ loop exit, Instr.exitJmp loop exit ∈ code → loop < number

@[simp] theorem openJumpsBelow_nil :
    OpenJumpsBelow number ([] : List (Instr World Value)) :=
  nofun

@[simp] theorem openJumpsBelow_cons {instr : Instr World Value} {code : List (Instr World Value)} :
    OpenJumpsBelow number (instr :: code) ↔
      (∀ loop exit, instr = .exitJmp loop exit → loop < number) ∧ OpenJumpsBelow number code := by
  simp [OpenJumpsBelow, or_imp, forall_and, eq_comm]

@[simp] theorem openJumpsBelow_append {first second : List (Instr World Value)} :
    OpenJumpsBelow number (first ++ second) ↔
      OpenJumpsBelow number first ∧ OpenJumpsBelow number second := by
  simp only [OpenJumpsBelow, mem_append, or_imp, forall_and]

/-- Patching the last loop closes its jumps. -/
theorem OpenJumpsBelow.patch {next : Nat} {code : List (Instr World Value)}
    (below : OpenJumpsBelow (number + 1) code) :
    OpenJumpsBelow number (code.map (patchExit number leave next)) := by
  intro loop exit member
  obtain ⟨instr, isInstr, patch⟩ := mem_map.mp member
  cases instr with
  | exitJmp other otherExit =>
    have bound := below other otherExit isInstr
    cases otherExit <;> by_cases same : other = number <;> simp [patchExit, same] at patch <;> omega
  | _ => simp [patchExit] at patch

theorem openJumpsBelow_loopExitJump
    {target : JumpTarget} {exit : LoopExit} (bound : target.number < number)
    (unwind : List UnwindKind) (pc : Nat) :
    OpenJumpsBelow number (loopExitJump target exit pc unwind : List (Instr World Value)) := by
  induction unwind generalizing pc with
  | nil => simp [loopExitJump, bound]
  | cons kind below ih =>
    by_cases outside : below.length < target.loop.unwindDepth
    · simp [loopExitJump, outside, bound]
    · have closes (index : Nat) :
          OpenJumpsBelow number (iterCloses target.crossed index : List (Instr World Value)) := by
        simp [OpenJumpsBelow, iterCloses]
      cases kind <;> simp [loopExitJump, outside, closes, ih]

/-- The open jumps of a statement belong to the loops around it. -/
theorem openJumpsBelow_compile (statement : Stmt World Value) (context : Context) (pc : Nat) :
    OpenJumpsBelow context.loops.length (compile context pc statement) := by
  induction statement generalizing context pc with
  | empty | expr expression | throwStmt expression => simp [compile]
  | returnStmt result => cases result <;> simp [compile]
  | seq _ _ first second => simp [compile, first, second]
  | ifThen _ _ left => simp [compile, left]
  | ifElse _ _ _ left right => simp [compile, left, right]
  | whileLoop label _ _ body | doWhile label _ _ body =>
    simp [compile, (body (context.pushLoop label) _).patch]
  | forLoop label cond update _ body =>
    cases cond <;> cases update <;>
      simp [compile, testCode, updateCode, (body (context.pushLoop label) _).patch]
  | forOf label _ _ _ body => simp [compile, (body (context.pushForOf label) _).patch]
  | breakStmt label =>
    cases found : breakTarget context.loops label with
    | none => simp [compile, found]
    | some target =>
      simp only [compile, found]
      refine openJumpsBelow_loopExitJump ?_ _ _
      rcases Option.or_eq_some_iff.mp found with found | ⟨-, found⟩ <;>
        exact (findLoop_mem found).2.2
  | continueStmt label =>
    cases found : continueTarget context.loops label with
    | none => simp [compile, found]
    | some target =>
      simp only [compile, found]
      exact openJumpsBelow_loopExitJump (findLoop_mem found).2.2 _ _
  | tryCatch _ param _ body catchBody =>
    have body : ∀ pc, OpenJumpsBelow context.loops.length _ := body (context.unwindPush .tryCatch)
    cases param <;> simp [compile, body, catchBody]
  | tryFinally _ _ body finallyBody =>
    have body := body (context.unwindPush .tryFinally)
    have finallyBody := finallyBody (context.unwindPush .finallyBody)
    simpa [compile] using ⟨body _, finallyBody _⟩

/-- The code of a function has no open jumps. -/
theorem map_resolve_compile_top (addresses : Nat → LoopExit → Nat) (statement : Stmt World Value) :
    (compile .top 0 statement).map (resolve addresses) = compile .top 0 statement := by
  have closed := openJumpsBelow_compile statement .top 0
  rw [map_congr_left, map_id]
  intro instr member
  cases instr with
  | exitJmp loop exit => exact absurd (closed loop exit member) (Nat.not_lt_zero _)
  | _ => rfl

end OpenJumps

end AntRuntime.Exceptions
