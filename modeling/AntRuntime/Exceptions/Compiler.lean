import AntRuntime.Exceptions.Machine

/-!
# Compiling statements with structured exceptions

The code `compile_try`, the loop compilers and the jumps out of loops emit. The
compiler keeps two stacks: the try statements and finally blocks a jump has to
unwind, and the loops a jump can refer to. A jump out of a loop is emitted with
an open operand and patched when its loop ends.
-/

namespace AntRuntime.Exceptions

/-- `UNW_TRY_CATCH`, `UNW_TRY_FINALLY` and `UNW_FINALLY_BODY`. -/
inductive UnwindKind
  | tryCatch
  | tryFinally
  | finallyBody
  deriving DecidableEq, Repr

/-- `sv_loop_t`: the label, the unwind entries outside the loop, and the entry
of a `for-of` loop's own handler. -/
structure Loop where
  label : Option String
  unwindDepth : Nat
  iterUnwindIndex : Option Nat
  deriving DecidableEq, Repr

/-- What the compiler knows at a statement; both stacks have their top first. A
loop refers to unwind entries that are there. -/
structure Context where
  unwind : List UnwindKind
  loops : List Loop
  unwindDepth_le : ∀ loop ∈ loops, loop.unwindDepth ≤ unwind.length
  iterUnwindIndex_lt :
    ∀ loop ∈ loops, ∀ index ∈ loop.iterUnwindIndex, index < unwind.length

namespace Context

/-- The context of a function body. -/
def top : Context where
  unwind := []
  loops := []
  unwindDepth_le := by simp
  iterUnwindIndex_lt := by simp

/-- `unwind_push`. -/
def unwindPush (context : Context) (kind : UnwindKind) : Context where
  unwind := kind :: context.unwind
  loops := context.loops
  unwindDepth_le := fun loop member =>
    Nat.le_succ_of_le (context.unwindDepth_le loop member)
  iterUnwindIndex_lt := fun loop member index isIndex =>
    Nat.lt_succ_of_lt (context.iterUnwindIndex_lt loop member index isIndex)

/-- `push_loop`. -/
def pushLoop (context : Context) (label : Option String) : Context where
  unwind := context.unwind
  loops := ⟨label, context.unwind.length, none⟩ :: context.loops
  unwindDepth_le := by
    simpa using context.unwindDepth_le
  iterUnwindIndex_lt := by
    simpa using context.iterUnwindIndex_lt

/-- The entries `compile_for_each` makes for a `for-of` loop: its handler, and
the loop inside it. -/
def pushForOf (context : Context) (label : Option String) : Context where
  unwind := .tryCatch :: context.unwind
  loops :=
    ⟨label, context.unwind.length + 1, some context.unwind.length⟩ ::
      context.loops
  unwindDepth_le := by
    intro loop member
    rcases List.mem_cons.mp member with rfl | member
    · simp
    · exact Nat.le_succ_of_le (context.unwindDepth_le loop member)
  iterUnwindIndex_lt := by
    intro loop member index isIndex
    rcases List.mem_cons.mp member with rfl | member
    · simp_all
    · exact Nat.lt_succ_of_lt (context.iterUnwindIndex_lt loop member index isIndex)

end Context

/-- The loop a jump refers to: its number, and the loops inside it that the
jump crosses. -/
structure JumpTarget where
  crossed : List Loop
  loop : Loop
  number : Nat
  deriving DecidableEq, Repr

/-- The innermost loop that meets a test. -/
def findLoop (wanted : Loop → Bool) : List Loop → Option JumpTarget
  | [] => none
  | loop :: outer =>
    if wanted loop then some ⟨[], loop, outer.length⟩
    else
      (findLoop wanted outer).map fun target =>
        { target with crossed := loop :: target.crossed }

/-- The loops a jump with the given label can refer to. -/
def Loop.accepts (label : Option String) (loop : Loop) : Bool :=
  match label with
  | none => true
  | some name => loop.label == some name

/-- The target of `compile_break`: without a loop of that label it is the
innermost loop. -/
def breakTarget (loops : List Loop) (label : Option String) : Option JumpTarget :=
  (findLoop (Loop.accepts label) loops).or (findLoop (fun _ => true) loops)

/-- The target of `compile_continue`. -/
def continueTarget (loops : List Loop) (label : Option String) : Option JumpTarget :=
  findLoop (Loop.accepts label) loops

/-- The iterators closed with the handler at `index`. -/
def iterCloses (crossed : List Loop) (index : Nat) : List (Instr World Value) :=
  (crossed.filter fun loop => loop.iterUnwindIndex == some index).map
    fun _ => .iterClose

/-- `emit_loop_exit_jump`: unwind every entry inside the target loop, then
jump. -/
def loopExitJump
    (target : JumpTarget) (exit : LoopExit) : Nat → List UnwindKind → List (Instr World Value)
  | _, [] => [.exitJmp target.number exit]
  | pc, kind :: below =>
    if below.length < target.loop.unwindDepth then
      [.exitJmp target.number exit]
    else
      let closes := iterCloses target.crossed below.length
      match kind with
      | .tryFinally => .unwindJmp (pc + 1) 1 1 :: loopExitJump target exit (pc + 1) below
      | .finallyBody =>
        .finallyDiscard :: (closes ++
          loopExitJump target exit (pc + 1 + closes.length) below)
      | .tryCatch =>
        .tryPop :: (closes ++
          loopExitJump target exit (pc + 1 + closes.length) below)

/-- `patch_jump` on the jumps of the loop with number `number`: breaks go to
`leave`, continues to `next`. -/
def patchExit (number leave next : Nat) :
    Instr World Value → Instr World Value
  | .exitJmp loop .leave => if loop = number then .jmp leave else .exitJmp loop .leave
  | .exitJmp loop .next => if loop = number then .jmp next else .exitJmp loop .next
  | instr => instr

/-- The test of a `for` loop, if there is one. -/
def testCode (leave : Nat) :
    Option (Expr World Value) → List (Instr World Value)
  | none => []
  | some test => [.push test, .jmpFalse leave]

/-- The update of a `for` loop, if there is one. -/
def updateCode : Option (Expr World Value) → List (Instr World Value)
  | none => []
  | some update => [.push update, .pop]

/-- Compile a statement at address `pc`. -/
def compile (context : Context) (pc : Nat) :
    Stmt World Value → List (Instr World Value)
  | .empty => []
  | .expr expression => [.push expression, .pop]
  | .seq first second =>
    let code := compile context pc first
    code ++ compile context (pc + code.length) second
  | .ifThen cond left =>
    let code := compile context (pc + 2) left
    .push cond :: .jmpFalse (pc + 2 + code.length) :: code
  | .ifElse cond left right =>
    let code := compile context (pc + 2) left
    let other := compile context (pc + 2 + code.length + 1) right
    .push cond :: .jmpFalse (pc + 2 + code.length + 1) ::
      (code ++
        .jmp (pc + 2 + code.length + 1 + other.length) :: other)
  | .whileLoop label cond body =>
    let code := compile (context.pushLoop label) (pc + 2) body
    let next := pc + 2 + code.length
    .push cond :: .jmpFalse (next + 1) ::
      (code.map (patchExit context.loops.length (next + 1) next) ++ [.jmp pc])
  | .doWhile label body cond =>
    let code := compile (context.pushLoop label) pc body
    let next := pc + code.length
    code.map (patchExit context.loops.length (next + 3) next) ++
      [.push cond, .jmpFalse (next + 3), .jmp pc]
  | .forLoop label cond update body =>
    -- The length of the test does not depend on where it leads.
    let start := pc + (testCode 0 cond).length
    let code := compile (context.pushLoop label) start body
    let next := start + code.length
    let leave := next + (updateCode update).length + 1
    testCode leave cond ++
      (code.map (patchExit context.loops.length leave next) ++
        (updateCode update ++ [.jmp pc]))
  | .forOf label target iterable body =>
    let code := compile (context.pushForOf label) (pc + 6) body
    let next := pc + 6 + code.length
    let handler := next + 8
    let finish := handler + 5
    .push iterable :: .forOf :: .tryPush handler ::
      .iterNext :: .jmpTrue (next + 1) :: .store target ::
      (code.map (patchExit context.loops.length (next + 5) next) ++
        [.jmp (pc + 3),
          .pop, .tryPop, .iterClose, .jmp finish,
          .tryPop, .iterClose, .jmp finish,
          .catch finish, .putLocal context.loops.length, .iterClose,
          .getLocal context.loops.length, .throw])
  | .throwStmt expression => [.push expression, .throw]
  | .returnStmt none => [.pushUndef, .ret]
  | .returnStmt (some expression) => [.push expression, .ret]
  | .breakStmt label =>
    match breakTarget context.loops label with
    | none => []
    | some target => loopExitJump target .leave pc context.unwind
  | .continueStmt label =>
    match continueTarget context.loops label with
    | none => []
    | some target => loopExitJump target .next pc context.unwind
  | .tryCatch body param catchBody =>
    let code := compile (context.unwindPush .tryCatch) (pc + 1) body
    let handler := pc + 1 + code.length + 2
    let catchCode := compile context (handler + 2) catchBody
    let finish := handler + 2 + catchCode.length
    .tryPush handler ::
      (code ++ .tryPop :: .jmp finish :: .catch finish ::
        (match param with
          | none => .pop
          | some target => .store target) :: catchCode)
  | .tryFinally body finallyBody =>
    let code := compile (context.unwindPush .tryFinally) (pc + 1) body
    let handler := pc + 1 + code.length + 2
    let start := handler + 2
    let finallyCode := compile (context.unwindPush .finallyBody) (start + 1) finallyBody
    .tryPushFinally handler ::
      (code ++ .tryPop :: .jmp start :: .pop :: .jmp start ::
        .finally (start + 1 + finallyCode.length + 1) ::
        (finallyCode ++ [.finallyRet]))

/-- The code of a function with the given body. -/
def compileFunction (body : Stmt World Value) : List (Instr World Value) :=
  compile .top 0 body ++ [.retUndef]

section Run

variable (host : Host World Value) (handlerBase : Nat)

/-- A frame at the start of its function. -/
def startFrame (world : World) : Config World Value :=
  .running
    { pc := 0
      stack := []
      handlers := []
      completion := .none
      regs := ⟨fun _ => host.undef, host.undef⟩
      world }

/-- Run the code of a function for a number of steps. -/
def runFunction (body : Stmt World Value) (steps : Nat) (world : World) : Config World Value :=
  (advance host handlerBase (compileFunction body))^[steps] (startFrame host world)

end Run

end AntRuntime.Exceptions
