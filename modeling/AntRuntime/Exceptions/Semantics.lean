import Mathlib.Data.List.Basic

/-!
# Statements with structured exceptions

The statements that `compile_try`, the loop compilers and `compile_break` /
`compile_continue` handle, with their ECMAScript meaning. Expressions are
effects on a world that return or throw a value: what they compute is not the
subject here, only how the completions of statements are combined.

An outcome records, besides the completion and the world, two facts about the
run: whether a catch clause or a finally block was entered, and whether that
happened inside a finally block that had an abrupt completion to resume.
-/

namespace AntRuntime.Exceptions

/-- How the evaluation of an expression ends. -/
inductive Evaluated (Value : Type)
  | value (result : Value)
  | thrown (error : Value)
  deriving DecidableEq, Repr

/-- An expression: an effect on the world that returns or throws a value. -/
abbrev Expr (World Value : Type) := World → World × Evaluated Value

/-- A binding target: it takes a value and may throw one. -/
abbrev Target (World Value : Type) := Value → World → World × Option Value

/-- One step of an iterator. -/
inductive Advanced (Value : Type)
  | done
  | item (value : Value)
  | thrown (error : Value)

/-- What statements need from the engine: truth of a value, the value
`undefined`, the errors the engine makes itself, and the iterators of `for-of`
loops (those that hold nothing to close, as the arrays' own). -/
structure Host (World Value : Type) where
  truthy : Value → Bool
  undef : Value
  jsTrue : Value
  jsFalse : Value
  truthy_jsTrue : truthy jsTrue = true
  truthy_jsFalse : truthy jsFalse = false
  mkErr : String → Value
  iterOpen : Value → World → World × Evaluated Value
  iterNext : Value → World → World × Advanced Value

/-- Statements. Loops carry the label set on them, if any. A try statement with both clauses is
a try-catch inside a try-finally, as `compile_try` emits it, and the initialiser of a `for` loop
is a statement before it. -/
inductive Stmt (World Value : Type)
  | empty
  | expr (expression : Expr World Value)
  | seq (first second : Stmt World Value)
  | ifThen
      (cond : Expr World Value)
      (left : Stmt World Value)
  | ifElse
      (cond : Expr World Value)
      (left right : Stmt World Value)
  | whileLoop
      (label : Option String)
      (cond : Expr World Value)
      (body : Stmt World Value)
  | doWhile
      (label : Option String)
      (body : Stmt World Value)
      (cond : Expr World Value)
  | forLoop
      (label : Option String)
      (cond : Option (Expr World Value))
      (update : Option (Expr World Value))
      (body : Stmt World Value)
  | forOf
      (label : Option String)
      (target : Target World Value)
      (iterable : Expr World Value)
      (body : Stmt World Value)
  | throwStmt (error : Expr World Value)
  | returnStmt (result : Option (Expr World Value))
  | breakStmt (label : Option String)
  | continueStmt (label : Option String)
  | tryCatch
      (body : Stmt World Value)
      (param : Option (Target World Value))
      (catchBody : Stmt World Value)
  | tryFinally
      (body finallyBody : Stmt World Value)

namespace Stmt

/-- Every break and continue stands inside a loop it can refer to; `labels`
are the labels of the enclosing loops, the innermost first. -/
def WellLabelled : List (Option String) → Stmt World Value → Bool
  | _, .empty | _, .expr _ | _, .throwStmt _ | _, .returnStmt _ => true
  | labels, .seq first second
  | labels, .ifElse _ first second
  | labels, .tryCatch first _ second
  | labels, .tryFinally first second => first.WellLabelled labels && second.WellLabelled labels
  | labels, .ifThen _ left => left.WellLabelled labels
  | labels, .whileLoop label _ body
  | labels, .doWhile label body _
  | labels, .forLoop label _ _ body
  | labels, .forOf label _ _ body => body.WellLabelled (label :: labels)
  | labels, .breakStmt none | labels, .continueStmt none => !labels.isEmpty
  | labels, .breakStmt (some label)
  | labels, .continueStmt (some label) => labels.contains (some label)

/-- Handlers that are active at once at the deepest point of a statement. -/
def handlerDepth : Stmt World Value → Nat
  | .empty | .expr _ | .throwStmt _ | .returnStmt _
  | .breakStmt _ | .continueStmt _ => 0
  | .seq first second | .ifElse _ first second => max first.handlerDepth second.handlerDepth
  | .ifThen _ body | .whileLoop _ _ body | .doWhile _ body _
  | .forLoop _ _ _ body => body.handlerDepth
  | .forOf _ _ _ body => body.handlerDepth + 1
  | .tryCatch body _ catchBody => max (body.handlerDepth + 1) catchBody.handlerDepth
  | .tryFinally body finallyBody => max (body.handlerDepth + 1) (finallyBody.handlerDepth + 1)

end Stmt

/-- ECMAScript completions of statements. -/
inductive Completion (Value : Type)
  | normal
  | thrown (error : Value)
  | returned (result : Value)
  | brk (label : Option String)
  | cont (label : Option String)
  deriving DecidableEq, Repr

namespace Completion

/-- Every completion but the normal one is abrupt. -/
def isAbrupt : Completion Value → Bool
  | .normal => false
  | _ => true

/-- The loop with label `label` goes on after its body completed so. -/
def continues (label : Option String) : Completion Value → Bool
  | .normal | .cont none => true
  | .cont (some target) => label == some target
  | _ => false

/-- A break that leaves the loop with label `label` and goes no further. -/
def breaks (label : Option String) : Completion Value → Bool
  | .brk none => true
  | .brk (some target) => label == some target
  | _ => false

end Completion

/-- The end of a run of a statement. -/
structure Outcome (World Value : Type) where
  completion : Completion Value
  world : World
  /-- A catch clause or a finally block was entered. -/
  entered : Bool
  /-- It was entered inside a finally block with an abrupt completion to
  resume. -/
  clobbered : Bool
  deriving DecidableEq, Repr

namespace Outcome

/-- The outcome of a step that runs no try statement. -/
def plain (completion : Completion Value) (world : World) : Outcome World Value :=
  ⟨completion, world, false, false⟩

/-- The outcome of a run whose last part ended in `last`. -/
def andThen (first last : Outcome World Value) : Outcome World Value :=
  { last with
    entered := first.entered || last.entered
    clobbered := first.clobbered || last.clobbered }

/-- The outcome of a try statement after its finally block ended in `last`: a
normal end resumes the completion the block started with. -/
def afterFinally (pending last : Outcome World Value) : Outcome World Value where
  completion :=
    match last.completion with
    | .normal => pending.completion
    | abrupt => abrupt
  world := last.world
  entered := true
  clobbered :=
    pending.clobbered || last.clobbered || (pending.completion.isAbrupt && last.entered)

/-- The outcome of a try statement after its catch clause ended in `last`. -/
def afterCatch (pending last : Outcome World Value) : Outcome World Value where
  completion := last.completion
  world := last.world
  entered := true
  clobbered := pending.clobbered || last.clobbered

/-- The outcome of a loop that ends because its body ended in `last`. -/
def afterLoop (label : Option String) (last : Outcome World Value) : Outcome World Value :=
  if last.completion.breaks label then { last with completion := .normal }
  else last

end Outcome

section Exec

variable (host : Host World Value)

/-- Evaluate an expression for its effect. -/
def execExpr (expression : Expr World Value) (world : World)
    (next : Value → World → Option (Outcome World Value)) :
    Option (Outcome World Value) :=
  match expression world with
  | (after, .value result) => next result after
  | (after, .thrown error) => some (.plain (.thrown error) after)

/-- Evaluate the test of a loop, which holds if it is left out. -/
def execTest (test : Option (Expr World Value)) (world : World)
    (next : Bool → World → Option (Outcome World Value)) :
    Option (Outcome World Value) :=
  match test with
  | none => next true world
  | some expression =>
    execExpr expression world fun result after =>
      next (host.truthy result) after

/-- Evaluate the update of a loop, if there is one. -/
def execUpdate (update : Option (Expr World Value)) (world : World)
    (next : World → Option (Outcome World Value)) :
    Option (Outcome World Value) :=
  match update with
  | none => next world
  | some expression => execExpr expression world fun _ after => next after

/-- Bind a value to a target. -/
def execTarget (target : Target World Value) (value : Value) (world : World)
    (next : World → Option (Outcome World Value)) :
    Option (Outcome World Value) :=
  match target value world with
  | (after, none) => next after
  | (after, some error) => some (.plain (.thrown error) after)

/-- Bind the error to the parameter of a catch clause, if it has one. -/
def execParam (param : Option (Target World Value)) (error : Value) (world : World)
    (next : World → Option (Outcome World Value)) :
    Option (Outcome World Value) :=
  match param with
  | none => next world
  | some target => execTarget target error world next

/-- Run a body once and, if the loop goes on, the rest of the loop. -/
def execBody
    (label : Option String) (body : Option (Outcome World Value))
    (next : World → Option (Outcome World Value)) :
    Option (Outcome World Value) := do
  let outcome ← body
  if outcome.completion.continues label then
    let last ← next outcome.world
    some (outcome.andThen last)
  else some (outcome.afterLoop label)

/-- Run a statement with bounded recursion. -/
def exec : Nat → Stmt World Value → World → Option (Outcome World Value)
  | 0, _, _ => none
  | _ + 1, .empty, world => some (.plain .normal world)
  | _ + 1, .expr expression, world =>
    execExpr expression world fun _ after => some (.plain .normal after)
  | fuel + 1, .seq first second, world => do
      let outcome ← exec fuel first world
      match outcome.completion with
      | .normal =>
        let last ← exec fuel second outcome.world
        some (outcome.andThen last)
      | _ => some outcome
  | fuel + 1, .ifThen cond left, world =>
    execExpr cond world fun result after =>
      if host.truthy result then exec fuel left after
      else some (.plain .normal after)
  | fuel + 1, .ifElse cond left right, world =>
    execExpr cond world fun result after =>
      exec fuel (if host.truthy result then left else right) after
  | fuel + 1, .whileLoop label cond body, world =>
    execExpr cond world fun result after =>
      if host.truthy result then
        execBody label (exec fuel body after) (exec fuel (.whileLoop label cond body))
      else some (.plain .normal after)
  | fuel + 1, .doWhile label body cond, world =>
    execBody label (exec fuel body world) fun after =>
      execExpr cond after fun result tested =>
        if host.truthy result then exec fuel (.doWhile label body cond) tested
        else some (.plain .normal tested)
  | fuel + 1, .forLoop label cond update body, world =>
    execTest host cond world fun truth after =>
      if truth then
        execBody label (exec fuel body after) fun ended =>
          execUpdate update ended (exec fuel (.forLoop label cond update body))
      else some (.plain .normal after)
  | fuel + 1, .forOf label target iterable body, world =>
    execExpr iterable world fun collection after =>
      execExpr (host.iterOpen collection) after fun iterator opened =>
        iterate label target body iterator fuel opened
  | _ + 1, .throwStmt expression, world =>
    execExpr expression world fun error after =>
      some (.plain (.thrown error) after)
  | _ + 1, .returnStmt none, world => some (.plain (.returned host.undef) world)
  | _ + 1, .returnStmt (some expression), world =>
    execExpr expression world fun result after =>
      some (.plain (.returned result) after)
  | _ + 1, .breakStmt label, world => some (.plain (.brk label) world)
  | _ + 1, .continueStmt label, world => some (.plain (.cont label) world)
  | fuel + 1, .tryCatch body param catchBody, world => do
      let pending ← exec fuel body world
      match pending.completion with
      | .thrown error =>
        let last ← execParam param error pending.world (exec fuel catchBody)
        some (pending.afterCatch last)
      | _ => some pending
  | fuel + 1, .tryFinally body finallyBody, world => do
      let pending ← exec fuel body world
      let last ← exec fuel finallyBody pending.world
      some (pending.afterFinally last)
where
  /-- The iterations of a `for-of` loop. -/
  iterate (label : Option String) (target : Target World Value) (body : Stmt World Value)
      (iterator : Value) : Nat → World → Option (Outcome World Value)
    | 0, _ => none
    | fuel + 1, world =>
      match host.iterNext iterator world with
      | (after, .done) => some (.plain .normal after)
      | (after, .thrown error) => some (.plain (.thrown error) after)
      | (after, .item value) =>
        execTarget target value after fun bound =>
          execBody label (exec fuel body bound) (iterate label target body iterator fuel)

end Exec

end AntRuntime.Exceptions
