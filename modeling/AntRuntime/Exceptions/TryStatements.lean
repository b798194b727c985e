import AntRuntime.Exceptions.Simulation

/-!
# Simulation of try statements

A try-catch and a try-finally are simulated if their parts are. The catch
clause starts with an empty completion record; the finally block starts with
the record of the completion it has to resume, and `FINALLY_RET` resumes it if
the block left the record alone.
-/

namespace AntRuntime.Exceptions

open Machine List Option Lands

section TryStatements

variable {host : Host World Value}
variable {code : List (Instr World Value)}
variable {addresses : Nat → LoopExit → Nat} {context : Context}
variable {stack : List Value} {handlers : List Handler}
variable {record : Record Value} {regs : Registers Value}
variable {world : World} {outcome : Outcome World Value} {start : Config World Value}
variable {pending last : Outcome World Value} {finallyBody : Stmt World Value}
variable {resumed : Record Value}

/-- Completions other than throws leave a try-catch through its handler's
removal. -/
theorem Lands.leaveTry (landed : Lands host base code addresses
      (context.unwindPush .tryCatch) stack
      (⟨.handlerTry, ip, stack.length⟩ :: handlers) record finish start outcome)
    (popAt : code[finish]? = some .tryPop)
    (notThrown : ∀ error, outcome.completion ≠ .thrown error) :
    Lands host base code addresses context stack handlers record (finish + 1) start outcome := by
  obtain ⟨regs, landed⟩ := landed
  refine ⟨regs, ?_⟩
  cases completion : outcome.completion with
  | normal =>
    simp only [completion] at landed ⊢
    exact landed.trans (Leads.fetch popAt (Reaches.refl _))
  | thrown error => exact absurd completion (notThrown error)
  | returned result =>
    simp only [completion] at landed ⊢
    exact landed
  | brk label | cont label =>
    simp only [completion] at landed ⊢
    obtain ⟨exitPc, atExit, leads⟩ := landed
    obtain ⟨leaveAt, outside⟩ := atExit.unwindPush
    exact ⟨exitPc + 1, outside, leads.trans (Leads.fetch leaveAt (Reaches.refl _))⟩

/-- Push a handler when there is room for it. -/
theorem pushHandler_of_room {kind : HandlerKind} {frame : Frame World Value}
    (room : base + frame.handlers.length < handlerMax) :
    pushHandler base kind address frame =
      ⟨kind, address, frame.stack.length⟩ :: frame.handlers := by
  simp [pushHandler, room]

theorem simulated_tryCatch
    (simulated : Simulated host base code fuel) (body catchBody : Stmt World Value)
    (param : Option (Target World Value)) :
    SimulatedAt host base code (fuel + 1) (.tryCatch body param catchBody) := by
  intro addresses context pc stack handlers record regs world outcome placed executed intact
  obtain ⟨labelled, depth, fragment, saved⟩ := placed
  simp only [Stmt.WellLabelled, Bool.and_eq_true] at labelled
  simp only [Stmt.handlerDepth] at depth
  simp only [compile, map_cons, map_append, resolve, fragmentAt_cons,
    fragmentAt_append, length_map] at fragment
  obtain ⟨tryAt, bodyAt, popAt, jumpAt, catchAt, paramAt, catchBodyAt⟩ := fragment
  have bodyPlaced :
      Placed base code addresses (context.unwindPush .tryCatch) (pc + 1) stack
        (⟨.handlerTry, pc + 1 + (compile (context.unwindPush .tryCatch) (pc + 1)
          body).length + 2, stack.length⟩ :: handlers) body :=
    ⟨labelled.1, by simp only [length_cons]; omega, bodyAt,
      forall_mem_cons.mpr ⟨Nat.le_refl _, saved⟩⟩
  have catchPlaced :
      Placed base code addresses context
        (pc + 1 + (compile (context.unwindPush .tryCatch) (pc + 1) body).length
          + 2 + 2) stack handlers catchBody :=
    ⟨labelled.2, by omega, catchBodyAt, saved⟩
  have finish :
      pc + (compile context pc (.tryCatch body param catchBody)).length =
        pc + 1 + (compile (context.unwindPush .tryCatch) (pc + 1) body).length
          + 2 + 2 + (compile context (pc + 1 + (compile
            (context.unwindPush .tryCatch) (pc + 1) body).length + 2 + 2) catchBody).length := by
    simp only [compile, length_cons, length_append]
    omega
  rw [finish]
  simp only [exec, bind_eq_bind, bind_eq_some_iff] at executed
  obtain ⟨pending, bodyExecuted, executed⟩ := executed
  refine fetch tryAt ?_
  simp only [execInstr]
  rw [pushHandler_of_room (by simp only; omega)]
  by_cases thrown : ∃ error, pending.completion = .thrown error
  · obtain ⟨error, thrown⟩ := thrown
    simp only [thrown, bind_eq_some_iff, some.injEq] at executed
    obtain ⟨last, catchExecuted, rfl⟩ := executed
    obtain ⟨rfl, pendingIntact, lastIntact⟩ := intact.afterCatch
    obtain ⟨middle, landed⟩ := @simulated body _ _ _ _ _ _ regs _ _ bodyPlaced bodyExecuted
      pendingIntact
    simp only [thrown] at landed
    suffices caught : Lands host base code addresses context stack handlers
        .none _ (vmThrow error stack _ middle pending.world) last from
      (caught.of_leads landed).congr rfl rfl
    -- The unwinder has pushed the error; `CATCH` clears the record.
    simp only [vmThrow, findHandler, HandlerKind.catches, if_true, truncateTo_length]
    refine fetch catchAt ?_
    cases param with
    | none =>
      exact fetch paramAt (simulated catchBody catchPlaced catchExecuted lastIntact)
    | some target =>
      refine Lands.store paramAt catchExecuted (fun error after => Lands.thrown _ _ _) ?_
      intro after catchExecuted
      exact simulated catchBody catchPlaced catchExecuted lastIntact
  · have same : outcome = pending := by
      cases completion : pending.completion <;> simp_all
    subst same
    have landed := (@simulated body _ _ _ _ _ _ regs _ _ bodyPlaced bodyExecuted intact).leaveTry
      popAt (fun error isThrown => thrown ⟨error, isThrown⟩)
    by_cases normal : outcome.completion = .normal
    · obtain ⟨middle, landed⟩ := landed
      simp only [normal] at landed
      refine of_leads landed (fetch jumpAt ⟨middle, ?_⟩)
      simp only [normal]
      exact Reaches.refl _
    · exact landed.of_abrupt normal

/-- An abrupt end of a finally block discards what the block had to resume. -/
theorem Lands.leaveFinally (landed : Lands host base code addresses
      (context.unwindPush .finallyBody) stack
      (⟨.handlerFinally, ip, savedSp⟩ :: handlers) resumed other start outcome)
    (abrupt : outcome.completion ≠ .normal) :
    Lands host base code addresses context stack handlers .none finish start outcome := by
  obtain ⟨regs, landed⟩ := landed
  refine ⟨regs, ?_⟩
  cases completion : outcome.completion with
  | normal => exact absurd completion abrupt
  | thrown error | returned result =>
    simp only [completion] at landed ⊢
    exact landed
  | brk label | cont label =>
    simp only [completion] at landed ⊢
    obtain ⟨exitPc, atExit, leads⟩ := landed
    obtain ⟨leaveAt, outside⟩ := atExit.unwindPush
    exact ⟨exitPc + 1, outside, leads.trans (Leads.fetch leaveAt (Reaches.refl _))⟩

/-- The code behind the body of a try statement with a finally block: `body`
is where the code of its body ends, `finish` where the whole statement ends. -/
structure FinallyClause
    (code : List (Instr World Value)) (addresses : Nat → LoopExit → Nat) (context : Context)
    (finallyBody : Stmt World Value)
    (body finish : Nat) : Prop where
  popAt : code[body]? = some .tryPop
  jumpAt : code[body + 1]? = some (.jmp (body + 4))
  handlerAt : code[body + 2]? = some .pop
  handlerJumpAt : code[body + 3]? = some (.jmp (body + 4))
  finallyAt : code[body + 4]? = some (.finally finish)
  bodyAt :
    FragmentAt code (body + 5)
      ((compile (context.unwindPush .finallyBody) (body + 5) finallyBody).map (resolve addresses))
  retAt :
    code[body + 5 + (compile (context.unwindPush .finallyBody) (body + 5)
      finallyBody).length]? = some .finallyRet

/-- A jump with no finally block left to run is made. -/
theorem unwindForJump_zero (address pops : Nat) (frame : Frame World Value) :
    unwindForJump host address 0 pops frame =
      .running
        { frame with
          pc := address
          handlers := frame.handlers.drop pops
          completion := .none } := by
  cases found : findHandler HandlerKind.finalizes frame.handlers <;> simp [unwindForJump]

section

variable (simulated : Simulated host base code fuel)
  (clause : FinallyClause code addresses context finallyBody body finish)
  (room : base + handlers.length + finallyBody.handlerDepth + 1 ≤ handlerMax)
  (labelled : finallyBody.WellLabelled (context.loops.map Loop.label) = true)
  (saved : ∀ handler ∈ handlers, handler.savedSp ≤ stack.length)
include simulated clause room labelled saved

/-- A finally block from its `FINALLY` instruction on: at its normal end the
interpreter executes `FINALLY_RET` with the record the block started with, and
an abrupt end leaves the record empty. -/
theorem simulated_finallyBlock
    (executed : exec host fuel finallyBody world = some last) (intact : Intact resumed last)
    (resumes : ∀ pc regs,
      Lands host base code addresses context stack handlers .none finish
        (finallyRet host ⟨pc, stack, ⟨.handlerFinally, finish, 0⟩ :: handlers, resumed,
          regs, last.world⟩) (.plain pending.completion last.world)) :
    Lands host base code addresses context stack handlers .none finish
      (.running ⟨body + 4, stack, handlers, resumed, regs, world⟩)
      (pending.afterFinally last) := by
  refine fetch clause.finallyAt ?_
  have notFull : ¬ handlerMax ≤ base + handlers.length := by omega
  simp only [execInstr, notFull]
  have landed := @simulated finallyBody _ (context.unwindPush .finallyBody) _ _
    (⟨.handlerFinally, finish, 0⟩ :: handlers) _ regs _ _
    ⟨labelled, by simp only [length_cons]; omega, clause.bodyAt,
      forall_mem_cons.mpr ⟨Nat.zero_le _, saved⟩⟩
    executed intact
  by_cases normal : last.completion = .normal
  · obtain ⟨middle, landed⟩ := landed
    simp only [normal] at landed
    refine of_leads landed (fetch clause.retAt ?_)
    refine Lands.congr (resumes _ _) ?_ rfl
    simp [Outcome.afterFinally, normal, Outcome.plain]
  · refine (landed.leaveFinally normal).congr ?_ rfl
    cases completion : last.completion <;> simp_all [Outcome.afterFinally]

/-- Every way the body of a try statement ends leads into its finally block,
with that end in the completion record. -/
theorem simulated_finallyClause
    (landed : Lands host base code addresses
      (context.unwindPush .tryFinally) stack
      (⟨.handlerTryFinally, body + 2, stack.length⟩ :: handlers) .none body start
      pending)
    (executed : exec host fuel finallyBody pending.world = some last)
    (intact : ∀ resumed : Record Value,
      (pending.completion = .normal → resumed = .none) → Intact resumed last) :
    Lands host base code addresses context stack handlers .none finish
      start (pending.afterFinally last) := by
  obtain ⟨middle, landed⟩ := landed
  -- The handler drops the value the unwinder pushed and enters the block.
  have enter (resumed : Record Value) (value : Value) (regs : Registers Value)
      (abrupt : pending.completion ≠ .normal)
      (resumes : ∀ pc regs,
        Lands host base code addresses context stack handlers .none finish
          (finallyRet host ⟨pc, stack, ⟨.handlerFinally, finish, 0⟩ :: handlers, resumed,
            regs, last.world⟩) (.plain pending.completion last.world)) :
      Lands host base code addresses context stack handlers .none finish (.running
          ⟨body + 2, value :: stack, handlers, resumed, regs, pending.world⟩)
        (pending.afterFinally last) :=
    fetch clause.handlerAt (fetch clause.handlerJumpAt
      (simulated_finallyBlock simulated clause room labelled saved executed
        (intact _ fun normal => absurd normal abrupt) resumes))
  cases completion : pending.completion with
  | normal =>
    simp only [completion] at landed
    refine of_leads landed (fetch clause.popAt (fetch clause.jumpAt ?_))
    refine simulated_finallyBlock simulated clause room labelled saved executed
      (intact .none fun _ => rfl) fun pc regs => ?_
    simp only [completion]
    exact Lands.normal _ _
  | thrown error =>
    simp only [completion, vmThrow, findHandler, HandlerKind.catches, if_true,
      truncateTo_length] at landed
    refine of_leads landed (enter _ _ _ (by simp [completion]) fun pc regs => ?_)
    simp only [completion]
    exact Lands.thrown _ _ _
  | returned result =>
    simp only [completion, vmReturn, findHandler, HandlerKind.finalizes, if_true,
      truncateTo_length] at landed
    refine of_leads landed (enter _ _ _ (by simp [completion]) fun pc regs => ?_)
    simp only [completion]
    exact ⟨_, Reaches.refl _⟩
  | brk label | cont label =>
    simp only [completion] at landed
    obtain ⟨exitPc, atExit, leads⟩ := landed
    obtain ⟨leaveAt, outside⟩ := atExit.unwindPush
    refine of_leads leads (fetch leaveAt ?_)
    simp only [leaveEntry, execInstr, unwindForJump, findHandler,
      HandlerKind.finalizes, if_true, truncateTo_length]
    refine enter _ _ _ (by simp [completion]) fun pc regs => ?_
    simp only [finallyRet, completion, unwindForJump_zero, length_cons, Nat.add_sub_cancel_left]
    exact ⟨_, exitPc + 1, outside, Reaches.refl _⟩

end

theorem simulated_tryFinally
    (simulated : Simulated host base code fuel) (body finallyBody : Stmt World Value) :
    SimulatedAt host base code (fuel + 1) (.tryFinally body finallyBody) := by
  intro addresses context pc stack handlers record regs world outcome placed executed intact
  obtain ⟨labelled, depth, fragment, saved⟩ := placed
  simp only [Stmt.WellLabelled, Bool.and_eq_true] at labelled
  simp only [Stmt.handlerDepth] at depth
  simp only [compile, map_cons, map_append, resolve,
    fragmentAt_cons, fragmentAt_append, length_map] at fragment
  obtain ⟨tryAt, bodyAt, popAt, jumpAt, handlerAt, handlerJumpAt, finallyAt,
    finallyBodyAt, retAt, -⟩ := fragment
  have clause :
      FinallyClause code addresses context finallyBody
        (pc + 1 + (compile (context.unwindPush .tryFinally) (pc + 1) body).length)
        (pc + (compile context pc (.tryFinally body finallyBody)).length) := by
    refine ⟨popAt, jumpAt, handlerAt, handlerJumpAt, ?_, finallyBodyAt, retAt⟩
    rw [finallyAt]
    simp only [compile, length_cons, length_append, length_nil, some.injEq, Instr.finally.injEq]
    omega
  simp only [exec, bind_eq_bind, bind_eq_some_iff, some.injEq] at executed
  obtain ⟨pending, bodyExecuted, last, lastExecuted, rfl⟩ := executed
  obtain ⟨rfl, pendingIntact, lastIntact⟩ := intact.afterFinally
  refine fetch tryAt ?_
  simp only [execInstr]
  rw [pushHandler_of_room (by simp only; omega)]
  have landed := @simulated body _ (context.unwindPush .tryFinally) _ stack
    (⟨.handlerTryFinally, pc + 1 + (compile (context.unwindPush .tryFinally) (pc + 1) body).length
      + 2, stack.length⟩ :: handlers) _ regs _ _
    ⟨labelled.1, by simp only [length_cons]; omega, bodyAt,
      forall_mem_cons.mpr ⟨Nat.le_refl _, saved⟩⟩
    bodyExecuted pendingIntact
  exact simulated_finallyClause simulated clause (by omega) labelled.2 saved landed
    lastExecuted lastIntact

end TryStatements

end AntRuntime.Exceptions
