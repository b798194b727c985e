import AntRuntime.Exceptions.Landing

/-!
# Simulation of statements by their code

One lemma per statement: if the parts of a statement are simulated by their
code, so is the statement. The run lemma assembles them by induction on the
recursion bound of the reference semantics.
-/

namespace AntRuntime.Exceptions

open Machine List Bool Lands

section Simulation

variable (host : Host World Value) (base : Nat)
variable (code : List (Instr World Value))

/-- A statement whose code is in place, with handlers left for it and a stack
that the handlers can cut back. -/
structure Placed
    (addresses : Nat → LoopExit → Nat) (context : Context) (pc : Nat) (stack : List Value)
    (handlers : List Handler)
    (statement : Stmt World Value) : Prop where
  labelled : statement.WellLabelled (context.loops.map Loop.label) = true
  depth : base + handlers.length + statement.handlerDepth ≤ handlerMax
  fragment :
    FragmentAt code pc ((compile context pc statement).map (resolve addresses))
  saved : ∀ handler ∈ handlers, handler.savedSp ≤ stack.length

/-- Runs of a statement within the bound `fuel` are simulated. -/
def SimulatedAt (fuel : Nat) (statement : Stmt World Value) : Prop :=
  ∀ ⦃addresses : Nat → LoopExit → Nat⦄ ⦃context : Context⦄ ⦃pc : Nat⦄ ⦃stack : List Value⦄
    ⦃handlers : List Handler⦄ ⦃record : Record Value⦄ ⦃regs : Registers Value⦄ ⦃world : World⦄
    ⦃outcome : Outcome World Value⦄,
    Placed base code addresses context pc stack handlers statement →
    exec host fuel statement world = some outcome →
    Intact record outcome →
    Lands host base code addresses context stack handlers record
      (pc + (compile context pc statement).length)
      (.running ⟨pc, stack, handlers, record, regs, world⟩) outcome

/-- Runs of the reference semantics within the bound `fuel` are simulated. -/
def Simulated (fuel : Nat) : Prop :=
  ∀ statement, SimulatedAt host base code fuel statement

end Simulation

section Cases

variable {host : Host World Value}
variable {code : List (Instr World Value)}
variable {addresses : Nat → LoopExit → Nat} {context : Context}
variable {stack : List Value} {handlers : List Handler}
variable {record : Record Value} {regs : Registers Value}
variable {world : World} {outcome : Outcome World Value}
variable {rest : World → Option (Outcome World Value)} {next : World → Option (Outcome World Value)}
variable {label : Option String}

theorem simulated_expr (expression : Expr World Value) :
    SimulatedAt host base code (fuel + 1) (.expr expression) := by
  intro addresses context pc stack handlers record regs world outcome placed executed intact
  have fragment := placed.fragment
  obtain ⟨pushAt, popAt, -⟩ := fragment
  refine push pushAt executed ?_
  rintro result after ⟨⟩
  exact fetch popAt (normal _ _)

theorem simulated_seq
    (simulated : Simulated host base code fuel) (first second : Stmt World Value) :
    SimulatedAt host base code (fuel + 1) (.seq first second) := by
  intro addresses context pc stack handlers record regs world outcome placed executed intact
  obtain ⟨labelled, depth, fragment, saved⟩ := placed
  simp only [Stmt.WellLabelled, and_eq_true] at labelled
  simp only [Stmt.handlerDepth] at depth
  simp only [compile, map_append, fragmentAt_append, length_map] at fragment
  have firstPlaced : Placed base code addresses context pc stack handlers first :=
    ⟨labelled.1, by omega, fragment.1, saved⟩
  have secondPlaced :
      Placed base code addresses context
        (pc + (compile context pc first).length) stack handlers second :=
    ⟨labelled.2, by omega, fragment.2, saved⟩
  simp only [exec, Option.bind_eq_bind, Option.bind_eq_some_iff] at executed
  obtain ⟨firstOutcome, firstExecuted, executed⟩ := executed
  simp only [compile, length_append]
  rw [← Nat.add_assoc]
  by_cases normal : firstOutcome.completion = .normal
  · simp only [normal, Option.bind_eq_some_iff, Option.some.injEq] at executed
    obtain ⟨last, lastExecuted, rfl⟩ := executed
    obtain ⟨firstIntact, lastIntact⟩ := intact.andThen
    obtain ⟨middle, landed⟩ := @simulated first _ _ _ _ _ _ regs _ _ firstPlaced firstExecuted
      firstIntact
    simp only [normal] at landed
    exact ((simulated second secondPlaced lastExecuted lastIntact).of_leads landed).congr rfl rfl
  · have same : outcome = firstOutcome := by
      cases completion : firstOutcome.completion <;> simp_all
    subst same
    exact (simulated first firstPlaced firstExecuted intact).of_abrupt normal

/-- Test a condition: the code ends there if it does not hold. -/
theorem condition {cond : Expr World Value} (pushAt : code[pc]? = some (.push cond))
    (branchAt : code[pc + 1]? = some (.jmpFalse finish))
    (executed : execExpr cond world (fun result after =>
      if host.truthy result then next after else some (.plain .normal after)) = some outcome)
    (holds : ∀ after, next after = some outcome →
      Lands host base code addresses context stack handlers record finish
        (.running ⟨pc + 2, stack, handlers, record, regs, after⟩) outcome) :
    Lands host base code addresses context stack handlers record finish
      (.running ⟨pc, stack, handlers, record, regs, world⟩) outcome := by
  refine push pushAt executed ?_
  intro result after executed
  refine jmpFalse branchAt ?_
  by_cases truth : host.truthy result
  · simp only [truth] at executed ⊢
    exact holds after executed
  · simp only [truth, if_false, false_eq_true, Option.some.injEq] at executed ⊢
    subst executed
    exact normal _ _

theorem simulated_ifThen (simulated : Simulated host base code fuel) (cond : Expr World Value)
    (left : Stmt World Value) :
    SimulatedAt host base code (fuel + 1) (.ifThen cond left) := by
  intro addresses context pc stack handlers record regs world outcome placed executed intact
  obtain ⟨labelled, depth, fragment, saved⟩ := placed
  obtain ⟨pushAt, branchAt, leftAt⟩ := fragment
  have finish : pc + (compile context pc (.ifThen cond left)).length =
      pc + 2 + (compile context (pc + 2) left).length := by
    simp only [compile, length_cons]
    omega
  rw [finish]
  refine condition pushAt branchAt executed fun after executed => ?_
  exact simulated left ⟨labelled, depth, leftAt, saved⟩ executed intact

theorem simulated_ifElse (simulated : Simulated host base code fuel) (cond : Expr World Value)
    (left right : Stmt World Value) :
    SimulatedAt host base code (fuel + 1) (.ifElse cond left right) := by
  intro addresses context pc stack handlers record regs world outcome placed executed intact
  obtain ⟨labelled, depth, fragment, saved⟩ := placed
  simp only [Stmt.WellLabelled, and_eq_true] at labelled
  simp only [Stmt.handlerDepth] at depth
  simp only [compile, map_cons, map_append, fragmentAt_cons,
    fragmentAt_append, length_map] at fragment
  obtain ⟨pushAt, branchAt, leftAt, jumpAt, rightAt⟩ := fragment
  refine push pushAt executed ?_
  intro result after executed
  refine jmpFalse branchAt ?_
  simp only [compile, length_cons, length_append]
  by_cases truth : host.truthy result
  · simp only [truth] at executed ⊢
    have landed := @simulated left _ _ _ _ _ _ regs _ _ ⟨labelled.1, by omega, leftAt, saved⟩
      executed intact
    by_cases normal : outcome.completion = .normal
    · obtain ⟨middle, landed⟩ := landed
      simp only [normal] at landed
      refine of_leads landed (fetch jumpAt ⟨middle, ?_⟩)
      simp only [normal, resolve, execInstr]
      convert Reaches.refl _ using 3
      omega
    · exact landed.of_abrupt normal
  · simp only [truth, if_false, false_eq_true] at executed ⊢
    have landed := @simulated right _ _ (pc + 2 + (compile context (pc + 2) left).length + 1) _ _ _
      regs _ _ ⟨labelled.2, by omega, rightAt, saved⟩ executed intact
    convert landed using 1
    omega

/-- What the ends of a loop's body lead to. The body runs in the context `inner` of the loop,
over the `kept` words and the `own` handlers; its breaks go to `exitAt`, and the loop ends at
`finish` without what it keeps. -/
structure LoopExits
    (host : Host World Value) (base : Nat) (code : List (Instr World Value))
    (addresses : Nat → LoopExit → Nat) (context inner : Context) (loop : Loop)
    (stack kept : List Value) (handlers own : List Handler) (record : Record Value)
    (finish exitAt next : Nat) : Prop where
  loops : inner.loops = loop :: context.loops
  depth : loop.unwindDepth = inner.unwind.length
  thrown : ∀ error regs world,
    Lands host base code addresses context stack handlers record finish
      (vmThrow error kept own regs world) (.plain (.thrown error) world)
  returned : ∀ result regs world,
    Lands host base code addresses context stack handlers record finish
      (vmReturn result kept own regs world) (.plain (.returned result) world)
  left : ∀ regs world,
    Leads host base code (.running ⟨exitAt, kept, own, record, regs, world⟩)
      (.running ⟨finish, stack, handlers, record, regs, world⟩)
  crossed : ∀ jumpLabel exit pc regs world, Loop.accepts jumpLabel loop = false →
    AtExit code (patched addresses context.loops.length exitAt next) inner jumpLabel exit pc →
    ∃ outside, AtExit code addresses context jumpLabel exit outside ∧
      Leads host base code (.running ⟨pc, kept, own, record, regs, world⟩)
        (.running ⟨outside, stack, handlers, record, regs, world⟩)

/-- After the body of a loop, the loop goes on, ends, or is left for an outer
statement. -/
theorem LoopExits.lands {inner : Context} {loop : Loop} {kept : List Value} {own : List Handler}
    {finish exitAt next : Nat} {start : Config World Value} {bodyOutcome : Outcome World Value}
    (exits : LoopExits host base code addresses context inner loop stack kept
      handlers own record finish exitAt next)
    (landed : Lands host base code
      (patched addresses context.loops.length exitAt next) inner kept own record next
      start bodyOutcome)
    (executed : execBody loop.label (some bodyOutcome) rest = some outcome)
    (again : ∀ regs last, rest bodyOutcome.world = some last →
      outcome = bodyOutcome.andThen last →
      Lands host base code addresses context stack handlers record finish
        (.running ⟨next, kept, own, record, regs, bodyOutcome.world⟩) last) :
    Lands host base code addresses context stack handlers record finish start outcome := by
  obtain ⟨regs, landed⟩ := landed
  simp only [execBody, Option.bind_eq_bind, Option.bind_some] at executed
  have goesOn :
      bodyOutcome.completion.continues loop.label = true →
      Leads host base code start
        (.running ⟨next, kept, own, record, regs, bodyOutcome.world⟩) →
      Lands host base code addresses context stack handlers record finish
        start outcome := by
    intro continues leads
    simp only [continues, if_true, Option.bind_eq_some_iff, Option.some.injEq] at executed
    obtain ⟨last, lastExecuted, rfl⟩ := executed
    exact ((again regs last lastExecuted rfl).of_leads leads).congr rfl rfl
  cases completion : bodyOutcome.completion with
  | normal =>
    simp only [completion] at landed
    exact goesOn (by simp [completion, Completion.continues]) landed
  | thrown error =>
    simp only [completion, Completion.continues, Outcome.afterLoop, false_eq_true, if_false,
      Option.some.injEq]
      at executed landed
    subst executed
    exact ((exits.thrown error regs _).of_leads landed).congr completion rfl
  | returned result =>
    simp only [completion, Completion.continues, Outcome.afterLoop, false_eq_true, if_false,
      Option.some.injEq]
      at executed landed
    subst executed
    exact ((exits.returned result regs _).of_leads landed).congr completion rfl
  | brk jumpLabel =>
    simp only [completion] at landed
    obtain ⟨pc, atExit, leads⟩ := landed
    simp only [Outcome.afterLoop, completion, breaks_brk, Completion.continues,
      false_eq_true, if_false, Option.some.injEq] at executed
    cases accepted : Loop.accepts jumpLabel loop with
    | true =>
      have jumpAt := atExit.here exits.loops exits.depth accepted
      simp only [accepted] at executed
      subst executed
      refine ⟨regs, leads.trans (Leads.fetch jumpAt ?_)⟩
      simpa [execInstr, patched] using exits.left regs _
    | false =>
      simp only [accepted, false_eq_true, if_false] at executed
      subst executed
      obtain ⟨outside, outer, left⟩ := exits.crossed _ _ _ regs bodyOutcome.world accepted atExit
      refine ⟨regs, ?_⟩
      simp only [completion]
      exact ⟨outside, outer, leads.trans left⟩
  | cont jumpLabel =>
    simp only [completion] at landed
    obtain ⟨pc, atExit, leads⟩ := landed
    cases accepted : Loop.accepts jumpLabel loop with
    | true =>
      have jumpAt := atExit.here exits.loops exits.depth accepted
      refine goesOn (by rw [completion, continues_cont, accepted])
        (leads.trans (Leads.fetch jumpAt ?_))
      simpa [execInstr, patched] using Reaches.refl _
    | false =>
      simp only [continues_cont, accepted, Outcome.afterLoop, completion,
        Completion.breaks, false_eq_true, if_false, Option.some.injEq]
        at executed
      subst executed
      obtain ⟨outside, outer, left⟩ := exits.crossed _ _ _ regs bodyOutcome.world accepted atExit
      refine ⟨regs, ?_⟩
      simp only [completion]
      exact ⟨outside, outer, leads.trans left⟩

/-- A loop that keeps nothing. -/
theorem loopExits_pushLoop (label : Option String) (finish next : Nat) :
    LoopExits host base code addresses context (context.pushLoop label)
      ⟨label, context.unwind.length, none⟩ stack stack handlers handlers record finish
      finish next where
  loops := rfl
  depth := rfl
  thrown := thrown
  returned := fun _ regs _ => ⟨regs, Reaches.refl _⟩
  left := fun _ _ => Reaches.refl _
  crossed := fun _ _ pc _ _ refused atExit => ⟨pc, atExit.pushLoop refused, Reaches.refl _⟩

/-- The outcome of a loop contains the outcome of its first iteration. -/
theorem execBody_eq_some
    {body : Option (Outcome World Value)} (executed : execBody label body rest = some outcome)
    (intact : Intact record outcome) :
    ∃ bodyOutcome, body = some bodyOutcome ∧ Intact record bodyOutcome := by
  simp only [execBody, Option.bind_eq_bind, Option.bind_eq_some_iff] at executed
  obtain ⟨bodyOutcome, rfl, executed⟩ := executed
  refine ⟨bodyOutcome, rfl, ?_⟩
  by_cases continues : bodyOutcome.completion.continues label
  · simp only [continues, if_true, Option.bind_eq_some_iff, Option.some.injEq] at executed
    obtain ⟨last, -, rfl⟩ := executed
    exact intact.andThen.1
  · simp only [continues, false_eq_true, if_false, Option.some.injEq] at executed
    subst executed
    exact intact.afterLoop

section

variable (simulated : Simulated host base code fuel)
include simulated

/-- Run the body of a loop and what follows it in the loop. -/
theorem simulated_body {body : Stmt World Value} (placed : Placed base code
      (patched addresses context.loops.length leave
        (pc + (compile (context.pushLoop label) pc body).length))
      (context.pushLoop label) pc stack handlers body)
    (executed : execBody label (exec host fuel body world) rest = some outcome)
    (intact : Intact record outcome)
    (again : ∀ regs after last, rest after = some last → Intact record last →
      Lands host base code addresses context stack handlers record leave
        (.running
          ⟨pc + (compile (context.pushLoop label) pc body).length, stack,
            handlers, record, regs, after⟩)
        last) :
    Lands host base code addresses context stack handlers record leave
      (.running ⟨pc, stack, handlers, record, regs, world⟩) outcome := by
  obtain ⟨bodyOutcome, bodyExecuted, bodyIntact⟩ := execBody_eq_some executed intact
  rw [bodyExecuted] at executed
  refine (loopExits_pushLoop label leave _).lands (simulated body placed bodyExecuted bodyIntact)
    executed ?_
  rintro middle last lastExecuted rfl
  exact again middle bodyOutcome.world last lastExecuted intact.andThen.2

theorem simulated_whileLoop
    (label : Option String) (cond : Expr World Value) (body : Stmt World Value) :
    SimulatedAt host base code (fuel + 1) (.whileLoop label cond body) := by
  intro addresses context pc stack handlers record regs world outcome placed executed intact
  have wholePlaced := placed
  obtain ⟨labelled, depth, fragment, saved⟩ := placed
  simp only [compile, map_cons, map_append, map_map,
    resolve_patchExit, fragmentAt_cons, fragmentAt_append,
    length_map] at fragment
  obtain ⟨pushAt, branchAt, bodyAt, jumpAt, -⟩ := fragment
  have finish :
      pc + (compile context pc (.whileLoop label cond body)).length =
        pc + 2 + (compile (context.pushLoop label) (pc + 2) body).length + 1 := by
    simp only [compile, length_cons, length_append, length_map, length_nil]
    omega
  rw [finish]
  refine condition pushAt branchAt executed fun after executed => ?_
  refine simulated_body simulated ⟨labelled, depth, bodyAt, saved⟩ executed intact ?_
  intro middle again last lastExecuted lastIntact
  rw [← finish]
  exact fetch jumpAt (simulated _ wholePlaced lastExecuted lastIntact)

theorem simulated_doWhile
    (label : Option String) (cond : Expr World Value) (body : Stmt World Value) :
    SimulatedAt host base code (fuel + 1) (.doWhile label body cond) := by
  intro addresses context pc stack handlers record regs world outcome placed executed intact
  have wholePlaced := placed
  obtain ⟨labelled, depth, fragment, saved⟩ := placed
  simp only [compile, map_append, map_map, resolve_patchExit, fragmentAt_append,
    length_map] at fragment
  obtain ⟨bodyAt, pushAt, branchAt, jumpAt, -⟩ := fragment
  have finish :
      pc + (compile context pc (.doWhile label body cond)).length =
        pc + (compile (context.pushLoop label) pc body).length + 3 := by
    simp only [compile, length_cons, length_append, length_map, length_nil]
    omega
  rw [finish]
  refine simulated_body simulated ⟨labelled, depth, bodyAt, saved⟩ executed intact ?_
  intro middle after last executed lastIntact
  refine condition pushAt branchAt executed fun tested executed => ?_
  rw [← finish]
  exact fetch jumpAt (simulated _ wholePlaced executed lastIntact)

end

/-- The test of a `for` loop. -/
theorem test {cond : Option (Expr World Value)} {next : Bool → World → Option (Outcome World Value)}
    (fragment : FragmentAt code pc ((testCode leave cond).map (resolve addresses)))
    (executed : execTest host cond world next = some outcome)
    (tested : ∀ truth after, next truth after = some outcome →
      Lands host base code addresses context stack handlers record target
        (.running
          ⟨if truth then pc + (testCode 0 cond).length else leave, stack, handlers,
            record, regs, after⟩)
        outcome) :
    Lands host base code addresses context stack handlers record target
      (.running ⟨pc, stack, handlers, record, regs, world⟩) outcome := by
  cases cond with
  | none => exact tested true world executed
  | some expression =>
    obtain ⟨pushAt, branchAt, -⟩ := fragment
    refine push pushAt executed ?_
    intro result after executed
    exact jmpFalse branchAt (tested _ after executed)

/-- The update of a `for` loop. -/
theorem Lands.update {update : Option (Expr World Value)} {target : Nat}
    (fragment : FragmentAt code pc ((updateCode update).map (resolve addresses)))
    (executed : execUpdate update world next = some outcome)
    (updated : ∀ after, next after = some outcome →
      Lands host base code addresses context stack handlers record target
        (.running
          ⟨pc + (updateCode update).length, stack, handlers, record, regs, after⟩)
        outcome) :
    Lands host base code addresses context stack handlers record target
      (.running ⟨pc, stack, handlers, record, regs, world⟩) outcome := by
  cases update with
  | none => exact updated world executed
  | some expression =>
    obtain ⟨pushAt, popAt, -⟩ := fragment
    refine push pushAt executed ?_
    intro result after executed
    exact fetch popAt (updated after executed)

theorem length_testCode (leave : Nat) (cond : Option (Expr World Value)) :
    (testCode leave cond).length = (testCode 0 cond).length := by
  cases cond <;> rfl

theorem simulated_forLoop (simulated : Simulated host base code fuel) (label : Option String)
    (cond update : Option (Expr World Value)) (body : Stmt World Value) :
    SimulatedAt host base code (fuel + 1) (.forLoop label cond update body) := by
  intro addresses context pc stack handlers record regs world outcome placed executed intact
  have wholePlaced := placed
  obtain ⟨labelled, depth, fragment, saved⟩ := placed
  simp only [compile, map_append, map_map, resolve_patchExit, fragmentAt_append,
    length_map, length_testCode] at fragment
  obtain ⟨testAt, bodyAt, updateAt, jumpAt, -⟩ := fragment
  have finish :
      pc + (compile context pc (.forLoop label cond update body)).length =
        pc + (testCode 0 cond).length +
          (compile (context.pushLoop label) (pc + (testCode 0 cond).length)
            body).length + (updateCode update).length + 1 := by
    simp only [compile, length_cons, length_append, length_map, length_nil, length_testCode]
    omega
  rw [finish]
  refine test testAt executed ?_
  intro truth after executed
  cases truth with
  | true =>
    rw [if_pos rfl] at executed
    refine simulated_body simulated ⟨labelled, depth, bodyAt, saved⟩ executed intact ?_
    intro middle ended last executed lastIntact
    refine Lands.update updateAt executed ?_
    intro updated executed
    rw [← finish]
    exact fetch jumpAt (simulated _ wholePlaced executed lastIntact)
  | false =>
    simp only [false_eq_true, if_false, Option.some.injEq] at executed ⊢
    subst executed
    exact normal _ _

theorem simulated_throwStmt (expression : Expr World Value) :
    SimulatedAt host base code (fuel + 1) (.throwStmt expression) := by
  intro addresses context pc stack handlers record regs world outcome placed executed intact
  obtain ⟨pushAt, throwAt, -⟩ := placed.fragment
  refine push pushAt executed ?_
  rintro error after ⟨⟩
  exact fetch throwAt (thrown _ _ _)

theorem simulated_returnStmt (result : Option (Expr World Value)) :
    SimulatedAt host base code (fuel + 1) (.returnStmt result) := by
  intro addresses context pc stack handlers record regs world outcome placed executed intact
  cases result with
  | none =>
    obtain ⟨pushAt, returnAt, -⟩ := placed.fragment
    simp only [exec, Option.some.injEq] at executed
    subst executed
    exact ⟨regs, Leads.fetch pushAt (Leads.fetch returnAt (Reaches.refl _))⟩
  | some expression =>
    obtain ⟨pushAt, returnAt, -⟩ := placed.fragment
    refine push pushAt executed ?_
    rintro value after ⟨⟩
    exact ⟨regs, Leads.fetch returnAt (Reaches.refl _)⟩

/-- Jumps out of a loop and to its next iteration. -/
theorem simulated_jumps (label : Option String) :
    SimulatedAt host base code (fuel + 1) (.breakStmt label) ∧
      SimulatedAt host base code (fuel + 1) (.continueStmt label) := by
  constructor
  all_goals
    intro addresses context pc stack handlers record regs world outcome placed executed intact
    obtain ⟨labelled, -, fragment, -⟩ := placed
    simp only [exec, Option.some.injEq] at executed
    subst executed
    obtain ⟨target, found⟩ := findLoop_of_labels label (by cases label <;> exact labelled)
    simp only [compile, breakTarget, continueTarget, found] at fragment
    exact ⟨regs, pc, ⟨target, found, fragment⟩, Reaches.refl _⟩

end Cases

end AntRuntime.Exceptions
