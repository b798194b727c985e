import AntRuntime.Exceptions.TryStatements

/-!
# Simulation of `for-of` loops

A `for-of` loop keeps its iterator on the operand stack and a handler of its
own on the handler stack. Every way out of the loop takes both off again: the
end of the iteration, a break, a jump to an outer loop, a return, and a throw,
which the handler catches and throws again.
-/

namespace AntRuntime.Exceptions

open Machine List

/-- The code of a `for-of` loop at `pc`; the code of its body ends at `next`. -/
structure ForOfCode
    (code : List (Instr World Value)) (addresses : Nat → LoopExit → Nat) (context : Context)
    (label : Option String) (target : Target World Value) (body : Stmt World Value)
    (pc next : Nat) : Prop where
  labelled : body.WellLabelled (label :: context.loops.map Loop.label) = true
  next_eq : next = pc + 6 + (compile (context.pushForOf label) (pc + 6) body).length
  stepAt :
    FragmentAt code (pc + 3) [.iterNext, .jmpTrue (next + 1), .store target]
  bodyAt :
    FragmentAt code (pc + 6) ((compile (context.pushForOf label) (pc + 6) body).map
        (resolve (patched addresses context.loops.length (next + 5) next)))
  againAt : code[next]? = some (.jmp (pc + 3))
  popAt : code[next + 1]? = some .pop
  endAt : FragmentAt code (next + 2) [.tryPop, .iterClose, .jmp (next + 13)]
  leaveAt : FragmentAt code (next + 5) [.tryPop, .iterClose, .jmp (next + 13)]
  handlerAt :
    FragmentAt code (next + 8)
      [.catch (next + 13), .putLocal context.loops.length, .iterClose,
        .getLocal context.loops.length, .throw]

section Exits

variable {code : List (Instr World Value)}
variable {addresses : Nat → LoopExit → Nat} {context : Context}
variable {jumpLabel label : Option String} {exit : LoopExit}

/-- A jump to an outer loop takes the handler and the iterator off. -/
theorem AtExit.pushForOf {next : Nat}
    (refused :
      Loop.accepts jumpLabel
        ⟨label, context.unwind.length + 1, some context.unwind.length⟩ = false)
    (atExit : AtExit code (patched addresses context.loops.length leave next)
      (context.pushForOf label) jumpLabel exit pc) :
    code[pc]? = some .tryPop ∧ code[pc + 1]? = some .iterClose ∧
      AtExit code addresses context jumpLabel exit (pc + 2) := by
  obtain ⟨target, found, fragment⟩ := atExit
  obtain ⟨outer, foundOuter, rfl⟩ := findLoop_cons_of_not refused found
  rw [loopExitJump_pushForOf label foundOuter, map_cons, map_cons,
    map_resolve_loopExitJump (patched_of_found foundOuter)] at fragment
  exact ⟨fragment.1, fragment.2.1, outer, foundOuter, fragment.2.2⟩

end Exits

section Cases

variable {host : Host World Value}
variable {code : List (Instr World Value)}
variable {addresses : Nat → LoopExit → Nat} {context : Context} {next : Nat}
variable {stack : List Value} {handlers : List Handler}
variable {record : Record Value} {regs : Registers Value}
variable {world : World} {outcome : Outcome World Value}
variable {label : Option String} {target : Target World Value}
variable {body : Stmt World Value} {first second iterator : Value} {handler : Handler}

/-- Take the handler and the iterator off and leave the loop. -/
theorem Leads.closeIterator (isTry : handler.kind = .handlerTry)
    (fragment : FragmentAt code address [.tryPop, .iterClose, .jmp finish]) :
    Leads host base code
      (.running
        ⟨address, first :: second :: iterator :: stack, handler :: handlers, record,
          regs, world⟩)
      (.running ⟨finish, stack, handlers, record, regs, world⟩) := by
  obtain ⟨popAt, closeAt, jumpAt, -⟩ := fragment
  refine Leads.fetch popAt ?_
  simp only [execInstr, tryPopHandlers, isTry]
  exact Leads.fetch closeAt (Leads.fetch jumpAt (Reaches.refl _))

/-- A throw inside the loop is caught by the loop's handler and thrown again
outside. -/
theorem ForOfCode.rethrow
    (placed : ForOfCode code addresses context label target body pc next) (error : Value) :
    ∃ after, Leads host base code
      (vmThrow error (first :: second :: iterator :: stack)
        (⟨.handlerTry, next + 8, stack.length + 3⟩ :: handlers) regs world)
      (vmThrow error stack handlers after world) := by
  obtain ⟨catchAt, putAt, closeAt, getAt, throwAt, -⟩ := placed.handlerAt
  have cut :
      truncateTo (stack.length + 3) (first :: second :: iterator :: stack) =
        first :: second :: iterator :: stack :=
    truncateTo_length (first :: second :: iterator :: stack)
  have caught :
      vmThrow error (first :: second :: iterator :: stack)
          (⟨.handlerTry, next + 8, stack.length + 3⟩ :: handlers) regs world =
        .running ⟨next + 8, error :: first :: second :: iterator :: stack, handlers,
            .throw error, { regs with svErr := error }, world⟩ := by
    simp [vmThrow, findHandler, HandlerKind.catches, cut]
  refine ⟨⟨Function.update regs.locals context.loops.length error, error⟩, ?_⟩
  rw [caught]
  refine Leads.fetch catchAt (Leads.fetch putAt (Leads.fetch closeAt
    (Leads.fetch getAt (Leads.fetch throwAt ?_))))
  simp only [Function.update_self]
  exact Reaches.refl _

/-- Cutting the stack back to what a handler outside the loop has saved takes
the iterator off. -/
theorem truncateTo_iterator (saved : depth ≤ stack.length) :
    truncateTo depth (first :: second :: iterator :: stack) = truncateTo depth stack := by
  have length :
      (first :: second :: iterator :: stack).length - depth = (stack.length - depth) + 3 := by
    simp only [length_cons]
    omega
  rw [truncateTo, length]
  rfl

/-- The handler that is found is one of the handlers. -/
theorem findHandler_mem {wanted : HandlerKind → Bool} {below : List Handler}
    (found : findHandler wanted handlers = some (handler, below)) :
    handler ∈ handlers := by
  induction handlers with
  | nil => simp [findHandler] at found
  | cons top rest ih =>
    by_cases here : wanted top.kind
    · simp only [findHandler, here, if_true, Option.some.injEq, Prod.mk.injEq] at found
      simp [found.1]
    · simp only [findHandler, here] at found
      exact mem_cons_of_mem _ (ih found)

/-- A return from inside the loop is a return from outside it: what the loop
keeps on the stacks is cut off. -/
theorem vmReturn_forOf (result : Value) (ip savedSp : Nat)
    (saved : ∀ handler ∈ handlers, handler.savedSp ≤ stack.length) :
    vmReturn result (first :: second :: iterator :: stack)
        (⟨.handlerTry, ip, savedSp⟩ :: handlers) regs world =
      vmReturn result stack handlers regs world := by
  have skipped :
      findHandler HandlerKind.finalizes (⟨.handlerTry, ip, savedSp⟩ :: handlers) =
        findHandler HandlerKind.finalizes handlers := rfl
  cases found : findHandler HandlerKind.finalizes handlers with
  | none => simp only [vmReturn, skipped, found]
  | some pair =>
    obtain ⟨handler, below⟩ := pair
    have kept := saved handler (findHandler_mem found)
    simp only [vmReturn, skipped, found, truncateTo_iterator kept]

section

variable (placed : ForOfCode code addresses context label target body pc next)
include placed

/-- A throw inside the loop lands where a throw outside it lands. -/
theorem ForOfCode.lands_thrown (error : Value) :
    Lands host base code addresses context stack handlers record finish
      (vmThrow error (first :: second :: iterator :: stack)
        (⟨.handlerTry, next + 8, stack.length + 3⟩ :: handlers) regs world)
      (.plain (.thrown error) world) := by
  obtain ⟨after, leads⟩ := placed.rethrow error
  exact ⟨after, leads⟩

/-- A `for-of` loop takes its iterator and its handler off. -/
theorem ForOfCode.loopExits (saved : ∀ handler ∈ handlers, handler.savedSp ≤ stack.length) :
    LoopExits host base code addresses context (context.pushForOf label)
      ⟨label, context.unwind.length + 1, some context.unwind.length⟩ stack
      (first :: second :: iterator :: stack) handlers
      (⟨.handlerTry, next + 8, stack.length + 3⟩ :: handlers) record (next + 13) (next + 5)
      next where
  loops := rfl
  depth := rfl
  thrown := fun error _ _ => placed.lands_thrown error
  returned := by
    intro result regs world
    rw [vmReturn_forOf result _ _ saved]
    exact ⟨regs, Reaches.refl _⟩
  left := fun _ _ => Leads.closeIterator rfl placed.leaveAt
  crossed := by
    intro jumpLabel exit exitPc regs world refused atExit
    obtain ⟨popAt, closeAt, outside⟩ := atExit.pushForOf refused
    exact ⟨exitPc + 2, outside, Leads.fetch popAt (Leads.fetch closeAt (Reaches.refl _))⟩

end

/-- The iterations of a `for-of` loop within the bound `fuel` are simulated. -/
def SimulatedIterations (host : Host World Value) (base : Nat) (code : List (Instr World Value))
    (fuel : Nat) : Prop :=
  ∀ ⦃label : Option String⦄ ⦃target : Target World Value⦄ ⦃body : Stmt World Value⦄
    ⦃iterator : Value⦄ ⦃addresses : Nat → LoopExit → Nat⦄ ⦃context : Context⦄ ⦃pc next : Nat⦄
    ⦃stack : List Value⦄ ⦃handlers : List Handler⦄ ⦃record : Record Value⦄
    ⦃regs : Registers Value⦄ ⦃world : World⦄ ⦃outcome : Outcome World Value⦄,
    ForOfCode code addresses context label target body pc next →
    base + handlers.length + body.handlerDepth + 1 ≤ handlerMax →
    (∀ handler ∈ handlers, handler.savedSp ≤ stack.length) →
    exec.iterate host label target body iterator fuel world = some outcome →
    Intact record outcome →
    Lands host base code addresses context stack handlers record (next + 13)
      (.running ⟨pc + 3, host.undef :: host.undef :: iterator :: stack,
          ⟨.handlerTry, next + 8, stack.length + 3⟩ :: handlers, record, regs, world⟩)
      outcome

theorem simulated_iterations (simulated : Simulated host base code fuel)
    (iterated : SimulatedIterations host base code fuel) :
    SimulatedIterations host base code (fuel + 1) := by
  intro label target body iterator addresses context pc next stack handlers record
    regs world outcome placed room saved executed intact
  obtain ⟨nextAt, branchAt, storeAt, -⟩ := placed.stepAt
  refine Lands.fetch nextAt ?_
  simp only [execInstr]
  simp only [exec.iterate] at executed
  rcases advanced : host.iterNext iterator world with ⟨after, _ | value | error⟩
  · -- The iterator is done: the loop takes its words off and ends.
    simp only [advanced, Option.some.injEq] at executed
    subst executed
    refine ⟨regs, Leads.fetch branchAt ?_⟩
    simp only [execInstr, host.truthy_jsTrue]
    exact Leads.fetch placed.popAt (Leads.closeIterator rfl placed.endAt)
  · simp only [advanced] at executed
    refine Lands.fetch branchAt ?_
    simp only [execInstr, host.truthy_jsFalse]
    refine Lands.store storeAt executed (fun error after => placed.lands_thrown error) ?_
    intro bound executed
    obtain ⟨bodyOutcome, bodyExecuted, bodyIntact⟩ := execBody_eq_some executed intact
    rw [bodyExecuted] at executed
    have landed := @simulated body _ (context.pushForOf label) _
      (host.undef :: host.undef :: iterator :: stack)
      (⟨.handlerTry, next + 8, stack.length + 3⟩ :: handlers) _ regs _ _
      ⟨placed.labelled, by simp only [length_cons]; omega, placed.bodyAt,
        forall_mem_cons.mpr ⟨Nat.le_refl _, fun handler member =>
            Nat.le_trans (saved handler member) (Nat.le_add_right _ 3)⟩⟩
      bodyExecuted bodyIntact
    rw [← placed.next_eq] at landed
    refine (placed.loopExits saved).lands landed executed ?_
    rintro middle last lastExecuted rfl
    exact Lands.fetch placed.againAt <| iterated placed room saved lastExecuted intact.andThen.2
  · simp only [advanced, Option.some.injEq] at executed
    subst executed
    exact placed.lands_thrown error

theorem simulated_forOf
    (iterated : SimulatedIterations host base code fuel) (iterable : Expr World Value) :
    SimulatedAt host base code (fuel + 1) (.forOf label target iterable body) := by
  intro addresses context pc stack handlers record regs world outcome placed executed intact
  obtain ⟨labelled, depth, fragment, saved⟩ := placed
  simp only [compile, map_cons, map_append, map_map,
    resolve_patchExit, resolve, fragmentAt_cons, fragmentAt_append,
    length_map] at fragment
  obtain ⟨pushAt, openAt, tryAt, nextAt, branchAt, storeAt, bodyAt, againAt, popAt,
    endPopAt, endCloseAt, endJumpAt, leavePopAt, leaveCloseAt, leaveJumpAt, catchAt,
    putAt, closeAt, getAt, throwAt, -⟩ := fragment
  simp only [Stmt.handlerDepth] at depth
  have loopCode :
      ForOfCode code addresses context label target body pc
        (pc + 6 + (compile (context.pushForOf label) (pc + 6) body).length) :=
    { labelled := labelled
      next_eq := rfl
      stepAt := ⟨nextAt, branchAt, storeAt, trivial⟩
      bodyAt := bodyAt
      againAt := againAt
      popAt := popAt
      endAt := ⟨endPopAt, endCloseAt, endJumpAt, trivial⟩
      leaveAt := ⟨leavePopAt, leaveCloseAt, leaveJumpAt, trivial⟩
      handlerAt := ⟨catchAt, putAt, closeAt, getAt, throwAt, trivial⟩ }
  have finish :
      pc + (compile context pc (.forOf label target iterable body)).length =
        pc + 6 + (compile (context.pushForOf label) (pc + 6) body).length + 13 := by
    simp only [compile, length_cons, length_append, length_map, length_nil]
    omega
  rw [finish]
  refine Lands.push pushAt executed ?_
  intro collection after executed
  refine Lands.fetch openAt ?_
  simp only [execInstr]
  simp only [execExpr] at executed
  rcases opened : host.iterOpen collection after with ⟨ready, iterator | error⟩
  · simp only [opened] at executed
    refine Lands.fetch tryAt ?_
    simp only [execInstr]
    rw [pushHandler_of_room (by simp only; omega)]
    exact iterated loopCode (by omega) saved executed intact
  · simp only [opened, Option.some.injEq] at executed
    subst executed
    exact Lands.thrown _ _ _

end Cases

end AntRuntime.Exceptions
