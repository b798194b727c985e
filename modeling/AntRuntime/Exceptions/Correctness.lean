import AntRuntime.Exceptions.ForOf

/-!
# Structured exceptions in compiled functions

The interpreter gives every function body its ECMAScript completion as long as
no finally block with an abrupt completion to resume enters a catch clause or
another finally block. A frame has one completion record: `CATCH` clears it and
an inner `FINALLY_RET` consumes it, so in such a block what is to be resumed is
lost or resumed too early.
-/

namespace AntRuntime.Exceptions

open Machine

section Runs

variable {host : Host World Value}
variable {code : List (Instr World Value)}

/-- Every run of the reference semantics is simulated. -/
theorem simulated_of_fuel (fuel : Nat) :
    Simulated host handlerBase code fuel ∧ SimulatedIterations host handlerBase code fuel := by
  induction fuel with
  | zero =>
    constructor
    · intro statement _ _ _ _ _ _ _ _ _ _ executed _
      simp [exec] at executed
    · intro _ _ _ _ _ _ _ _ _ _ _ _ _ _ _ _ _ executed _
      simp [exec.iterate] at executed
  | succ fuel ih =>
    obtain ⟨simulated, iterated⟩ := ih
    refine ⟨?_, simulated_iterations simulated iterated⟩
    intro statement
    cases statement with
    | empty =>
      intro addresses context pc stack handlers record regs world outcome _ executed _
      simp only [exec, Option.some.injEq] at executed
      subst executed
      exact Lands.normal _ _
    | expr expression => exact simulated_expr expression
    | seq first second => exact simulated_seq simulated first second
    | ifThen cond left => exact simulated_ifThen simulated cond left
    | ifElse cond left right => exact simulated_ifElse simulated cond left right
    | whileLoop label cond body => exact simulated_whileLoop simulated label cond body
    | doWhile label body cond => exact simulated_doWhile simulated label cond body
    | forLoop label cond update body => exact simulated_forLoop simulated label cond update body
    | forOf label target iterable body => exact simulated_forOf iterated iterable
    | throwStmt expression => exact simulated_throwStmt expression
    | returnStmt result => exact simulated_returnStmt result
    | breakStmt label => exact (simulated_jumps label).1
    | continueStmt label => exact (simulated_jumps label).2
    | tryCatch body param catchBody => exact simulated_tryCatch simulated body catchBody param
    | tryFinally body finallyBody => exact simulated_tryFinally simulated body finallyBody

end Runs

/-- A function body the parser accepts, small enough for the handler stack of
a frame above `handlerBase` handlers. -/
structure FunctionBody (World Value : Type) (handlerBase : Nat) where
  statement : Stmt World Value
  labelled : statement.WellLabelled [] = true
  depth : handlerBase + statement.handlerDepth ≤ handlerMax

/-- What a function whose body completed so gives to its caller. -/
def functionResult (host : Host World Value) : Completion Value → Result Value
  | .thrown error => .thrown error
  | .returned result => .returned result
  | .normal | .brk _ | .cont _ => .returned host.undef

section Correctness

variable (host : Host World Value)

/-- Running the code of the function gives the ECMAScript completion of its
body, whenever the body completes. -/
def GivesCompletion (body : FunctionBody World Value handlerBase) (world : World) : Prop :=
  ∀ fuel outcome, exec host fuel body.statement world = some outcome → ∃ steps,
      runFunction host handlerBase body.statement steps world =
        .halted (functionResult host outcome.completion) outcome.world

/-- In the ECMAScript run of the body, no catch clause and no finally block is
entered inside a finally block that has an abrupt completion to resume. -/
def PendingUndisturbed (body : FunctionBody World Value handlerBase) (world : World) : Prop :=
  ∀ fuel outcome, exec host fuel body.statement world = some outcome → outcome.clobbered = false

/-- The interpreter gives the ECMAScript completion of every function body
whose finally blocks, while they have an abrupt completion to resume, run no
catch clause and no finally block. -/
theorem givesCompletion_of_pendingUndisturbed
    (body : FunctionBody World Value handlerBase) (world : World)
    (undisturbed : PendingUndisturbed host body world) :
    GivesCompletion host body world := by
  intro fuel outcome executed
  have whole :
      FragmentAt (compileFunction body.statement) 0
        (compile .top 0 body.statement ++ [.retUndef]) := by
    simpa [compileFunction] using fragmentAt_of_append [] (compileFunction body.statement) []
  rw [fragmentAt_append] at whole
  obtain ⟨bodyAt, returnAt, -⟩ := whole
  have placed :
      Placed handlerBase (compileFunction body.statement) (fun _ _ => 0) .top 0 [] []
        body.statement :=
    ⟨body.labelled, body.depth, by rwa [map_resolve_compile_top], by simp⟩
  obtain ⟨regs, landed⟩ := @(simulated_of_fuel fuel).1 body.statement _ _ _ _ _ .none
    ⟨fun _ => host.undef, host.undef⟩ _ _ placed executed
    ⟨undisturbed fuel outcome executed, Or.inl rfl⟩
  cases completion : outcome.completion with
  | normal =>
    simp only [completion] at landed
    exact landed.trans (Leads.fetch returnAt (Reaches.refl _))
  | thrown error | returned result =>
    simp only [completion] at landed
    exact landed
  | brk label | cont label =>
    simp only [completion] at landed
    obtain ⟨-, ⟨target, found, -⟩, -⟩ := landed
    simp [Context.top, findLoop] at found

end Correctness

section Examples

/-- Numbers as values; nothing to iterate over. -/
def numberHost : Host Unit Nat where
  truthy := fun value => value != 0
  undef := 0
  jsTrue := 1
  jsFalse := 0
  truthy_jsTrue := rfl
  truthy_jsFalse := rfl
  mkErr := fun _ => 404
  iterOpen := fun value world => (world, .value value)
  iterNext := fun _ world => (world, .done)

/-- `throw value`. -/
def throwNumber (value : Nat) : Stmt Unit Nat :=
  .throwStmt fun world => (world, .value value)

/-- `while (1) try { try { return 1 } finally { } } finally { break }`. -/
def breakInFinally : FunctionBody Unit Nat 0 where
  statement :=
    .whileLoop none (fun world => (world, .value 1)) (.tryFinally
        (.tryFinally (.returnStmt (some fun world => (world, .value 1))) .empty)
        (.breakStmt none))
  labelled := rfl
  depth := by decide

/-- A break out of a finally block discards the pending return. -/
theorem givesCompletion_breakInFinally : GivesCompletion numberHost breakInFinally () := by
  refine givesCompletion_of_pendingUndisturbed numberHost breakInFinally () ?_
  intro fuel outcome executed
  match fuel with
  | 0 | 1 | 2 | 3 => cases executed
  | _ + 4 =>
    cases executed
    rfl

/-- `try { throw 1 } finally { try { throw 2 } catch { } }`. -/
def catchInFinally : FunctionBody Unit Nat 0 where
  statement :=
    .tryFinally (throwNumber 1) (.tryCatch (throwNumber 2) none .empty)
  labelled := rfl
  depth := by decide

/-- The catch clause inside the finally block loses the pending throw: the
function returns instead of throwing. -/
theorem not_givesCompletion_catchInFinally : ¬ GivesCompletion numberHost catchInFinally () := by
  intro gives
  obtain ⟨steps, run⟩ := gives 3 ⟨.thrown 1, (), true, true⟩ rfl
  have returns :
      Reaches (advance numberHost 0 (compileFunction catchInFinally.statement))
        (startFrame numberHost ()) (.halted (.returned 0) ()) :=
    ⟨15, rfl⟩
  have same := returns.unique ⟨steps, run⟩ rfl rfl
  simp [functionResult] at same

end Examples

end AntRuntime.Exceptions
