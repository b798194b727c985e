import AntRuntime.Exceptions.Semantics
import AntRuntime.Machine.Execution

/-!
# The exception machinery of the bytecode interpreter

One frame of the interpreter: its operand stack, the part of the handler stack
above the frame's `handler_base`, and its single completion record. The
instructions are those `compile_try`, the loop compilers and the jumps out of
loops emit; an expression is one instruction that pushes its value or throws.
Addresses count instructions.
-/

namespace AntRuntime.Exceptions

/-- `SV_HANDLER_MAX`. -/
def handlerMax : Nat := 64 * 2

/-- `sv_handler_kind_t`. -/
inductive HandlerKind
  | handlerTry
  | handlerFinally
  | handlerTryFinally
  deriving DecidableEq, Repr

/-- `sv_handler_t`. -/
structure Handler where
  kind : HandlerKind
  ip : Nat
  savedSp : Nat
  deriving DecidableEq, Repr

/-- `sv_completion_t`: the one completion record of a frame. -/
inductive Record (Value : Type)
  | none
  | throw (value : Value)
  | ret (value : Value)
  | jump (ip finallies pops : Nat)
  deriving DecidableEq, Repr

/-- Where a jump out of a loop body leads: behind the loop, or to its next
iteration. -/
inductive LoopExit
  | leave
  | next
  deriving DecidableEq, Repr

/-- Instructions. `exitJmp` is a jump whose operand the loop with that number
has not patched yet. -/
inductive Instr (World Value : Type)
  | push (expression : Expr World Value)
  | pushUndef
  | pop
  | store (target : Target World Value)
  | getLocal (slot : Nat)
  | putLocal (slot : Nat)
  | jmp (address : Nat)
  | exitJmp (loop : Nat) (exit : LoopExit)
  | jmpFalse (address : Nat)
  | jmpTrue (address : Nat)
  | forOf
  | iterNext
  | iterClose
  | throw
  | ret
  | retUndef
  | tryPush (address : Nat)
  | tryPushFinally (address : Nat)
  | tryPop
  | catch (address : Nat)
  | finally (address : Nat)
  | finallyDiscard
  | finallyRet
  | unwindJmp (address finallies pops : Nat)

/-- The frame's compiler-made locals and the interpreter's error register. -/
structure Registers (Value : Type) where
  locals : Nat → Value
  svErr : Value

/-- A frame in execution; stacks have their top first. -/
structure Frame (World Value : Type) where
  pc : Nat
  stack : List Value
  handlers : List Handler
  completion : Record Value
  regs : Registers Value
  world : World

/-- How a frame ends. -/
inductive Result (Value : Type)
  | thrown (error : Value)
  | returned (result : Value)
  /-- An operand is missing or the address is outside the code. -/
  | fault
  deriving DecidableEq, Repr

/-- A running or an ended frame. -/
inductive Config (World Value : Type)
  | running (frame : Frame World Value)
  | halted (result : Result Value) (world : World)

/-- The stack cut down to `depth` values: `vm->sp = depth`. -/
def truncateTo (depth : Nat) (stack : List Value) : List Value :=
  stack.drop (stack.length - depth)

@[simp] theorem truncateTo_length (stack : List Value) :
    truncateTo stack.length stack = stack := by
  simp [truncateTo]

/-- Handlers an exception can be delivered to. -/
def HandlerKind.catches : HandlerKind → Bool
  | .handlerTry | .handlerTryFinally => true
  | .handlerFinally => false

/-- Handlers a return or a jump is delivered to. -/
def HandlerKind.finalizes : HandlerKind → Bool
  | .handlerTryFinally => true
  | .handlerTry | .handlerFinally => false

/-- The topmost handler of a wanted kind, with the handlers below it. -/
def findHandler (wanted : HandlerKind → Bool) :
    List Handler → Option (Handler × List Handler)
  | [] => none
  | handler :: below =>
    if wanted handler.kind then some (handler, below)
    else findHandler wanted below

/-- `sv_op_try_pop`: take out the topmost try handler. -/
def tryPopHandlers : List Handler → List Handler
  | [] => []
  | handler :: below =>
    if handler.kind.catches then below else handler :: tryPopHandlers below

/-- `sv_vm_throw`. -/
def vmThrow (error : Value) (stack : List Value) (handlers : List Handler) (regs : Registers Value)
    (world : World) : Config World Value :=
  match findHandler HandlerKind.catches handlers with
  | some (handler, below) =>
    .running
      { pc := handler.ip
        stack := error :: truncateTo handler.savedSp stack
        handlers := below
        completion := .throw error
        regs := { regs with svErr := error }
        world }
  | none => .halted (.thrown error) world

/-- `L_RETURN` with `sv_vm_unwind_for_return`. -/
def vmReturn
    (result : Value) (stack : List Value) (handlers : List Handler) (regs : Registers Value)
    (world : World) : Config World Value :=
  match findHandler HandlerKind.finalizes handlers with
  | some (handler, below) =>
    .running
      { pc := handler.ip
        stack := result :: truncateTo handler.savedSp stack
        handlers := below
        completion := .ret result
        regs
        world }
  | none => .halted (.returned result) world

section Step

variable (host : Host World Value) (handlerBase : Nat)

/-- `sv_vm_unwind_for_jump` and the jump to the address it returns. -/
def unwindForJump (address finallies pops : Nat) (frame : Frame World Value) : Config World Value :=
  match findHandler HandlerKind.finalizes frame.handlers, finallies with
  | some (handler, below), finallies + 1 =>
    .running
      { frame with
        pc := handler.ip
        stack := host.undef :: truncateTo handler.savedSp frame.stack
        handlers := below
        completion :=
          .jump address finallies
            (pops - (frame.handlers.length - below.length)) }
  | _, _ =>
    .running
      { frame with
        pc := address
        handlers := frame.handlers.drop pops
        completion := .none }

/-- `sv_op_try_push`: at the limit nothing is pushed. -/
def pushHandler (kind : HandlerKind) (address : Nat) (frame : Frame World Value) : List Handler :=
  if handlerBase + frame.handlers.length < handlerMax then
    ⟨kind, address, frame.stack.length⟩ :: frame.handlers
  else frame.handlers

/-- `sv_op_finally_ret` and `L_FINALLY_RET`. -/
def finallyRet (frame : Frame World Value) : Config World Value :=
  match frame.handlers with
  | ⟨.handlerFinally, ip, _⟩ :: below =>
    match frame.completion with
    | .throw value => vmThrow value frame.stack below frame.regs frame.world
    | .ret value => vmReturn value frame.stack below frame.regs frame.world
    | .jump address finallies pops =>
      unwindForJump host address finallies pops
        { frame with handlers := below, completion := .none }
    | .none => .running { frame with pc := ip, handlers := below }
  | handlers =>
    vmThrow (host.mkErr "finally handler underflow")
      frame.stack handlers frame.regs frame.world

/-- Continue at the next instruction with another stack and world. -/
def Frame.next (frame : Frame World Value) (stack : List Value)
    (world : World) : Config World Value :=
  .running { frame with pc := frame.pc + 1, stack, world }

/-- Execute one instruction. -/
def execInstr (frame : Frame World Value) : Instr World Value → Config World Value
  | .push expression =>
    match expression frame.world with
    | (after, .value result) => frame.next (result :: frame.stack) after
    | (after, .thrown error) => vmThrow error frame.stack frame.handlers frame.regs after
  | .pushUndef => frame.next (host.undef :: frame.stack) frame.world
  | .pop => frame.next frame.stack.tail frame.world
  | .store target =>
    match frame.stack with
    | [] => .halted .fault frame.world
    | value :: rest =>
      match target value frame.world with
      | (after, none) => frame.next rest after
      | (after, some error) => vmThrow error rest frame.handlers frame.regs after
  | .getLocal slot => frame.next (frame.regs.locals slot :: frame.stack) frame.world
  | .putLocal slot =>
    match frame.stack with
    | [] => .halted .fault frame.world
    | value :: rest =>
      .running
        { frame with
          pc := frame.pc + 1
          stack := rest
          regs :=
            { frame.regs with
              locals := Function.update frame.regs.locals slot value } }
  | .jmp address => .running { frame with pc := address }
  -- `emit_jump` writes the operand zero: an unpatched jump falls through.
  | .exitJmp _ _ => frame.next frame.stack frame.world
  | .jmpFalse address =>
    match frame.stack with
    | [] => .halted .fault frame.world
    | value :: rest =>
      if host.truthy value then frame.next rest frame.world
      else .running { frame with pc := address, stack := rest }
  | .jmpTrue address =>
    match frame.stack with
    | [] => .halted .fault frame.world
    | value :: rest =>
      if host.truthy value then
        .running { frame with pc := address, stack := rest }
      else frame.next rest frame.world
  -- A collection becomes its iterator and two words of bookkeeping.
  | .forOf =>
    match frame.stack with
    | [] => .halted .fault frame.world
    | collection :: rest =>
      match host.iterOpen collection frame.world with
      | (after, .value iterator) => frame.next (host.undef :: host.undef :: iterator :: rest) after
      | (after, .thrown error) => vmThrow error rest frame.handlers frame.regs after
  | .iterNext =>
    match frame.stack with
    | _ :: _ :: iterator :: _ =>
      match host.iterNext iterator frame.world with
      | (after, .done) => frame.next (host.jsTrue :: host.undef :: frame.stack) after
      | (after, .item value) => frame.next (host.jsFalse :: value :: frame.stack) after
      | (after, .thrown error) => vmThrow error frame.stack frame.handlers frame.regs after
    | _ => .halted .fault frame.world
  | .iterClose => frame.next (frame.stack.drop 3) frame.world
  | .throw =>
    match frame.stack with
    | [] => .halted .fault frame.world
    | error :: rest => vmThrow error rest frame.handlers frame.regs frame.world
  | .ret =>
    match frame.stack with
    | [] => .halted .fault frame.world
    | result :: rest => vmReturn result rest frame.handlers frame.regs frame.world
  | .retUndef => vmReturn host.undef frame.stack frame.handlers frame.regs frame.world
  | .tryPush address =>
    .running
      { frame with
        pc := frame.pc + 1
        handlers := pushHandler handlerBase .handlerTry address frame }
  | .tryPushFinally address =>
    .running
      { frame with
        pc := frame.pc + 1
        handlers := pushHandler handlerBase .handlerTryFinally address frame }
  | .tryPop =>
    .running
      { frame with
        pc := frame.pc + 1
        handlers := tryPopHandlers frame.handlers }
  | .catch _ =>
    .running
      { frame with
        pc := frame.pc + 1
        stack := if frame.stack.isEmpty then [frame.regs.svErr] else frame.stack
        completion := .none }
  | .finally address =>
    if handlerMax ≤ handlerBase + frame.handlers.length then
      vmThrow (host.mkErr "handler stack overflow")
        frame.stack frame.handlers frame.regs frame.world
    else
      .running
        { frame with
          pc := frame.pc + 1
          handlers := ⟨.handlerFinally, address, 0⟩ :: frame.handlers }
  | .finallyDiscard =>
    .running
      { frame with
        pc := frame.pc + 1
        handlers :=
          match frame.handlers with
          | ⟨.handlerFinally, _, _⟩ :: below => below
          | handlers => handlers
        completion := .none }
  | .finallyRet => finallyRet host frame
  | .unwindJmp address finallies pops => unwindForJump host address finallies pops frame

/-- One step of the interpreter on `code`; an ended frame stays as it is. -/
def advance (code : List (Instr World Value)) :
    Config World Value → Config World Value
  | .running frame =>
    match code[frame.pc]? with
    | some instr => execInstr host handlerBase frame instr
    | none => .halted .fault frame.world
  | .halted result world => .halted result world

end Step

end AntRuntime.Exceptions
