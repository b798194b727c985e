import AntRuntime.Exceptions.Exits

/-!
# Where compiled statements land

`Lands` says where the interpreter is when the code of a statement has done its
work: behind the code after a normal completion, in the unwinder after a throw
or a return, and at the remaining exit code after a jump. In every case the
operand stack, the handler stack and the completion record are those the
statement started with.

`Intact` is the condition under which this holds: while the frame's completion
record is in use, neither a catch clause nor a finally block is entered.
-/

namespace AntRuntime.Exceptions

open Machine

/-- A run that leaves a completion record alone: either the record is empty, or
no catch clause and no finally block is entered. -/
structure Intact
    (record : Record Value)
    (outcome : Outcome World Value) : Prop where
  clobbered : outcome.clobbered = false
  entered : record = .none ∨ outcome.entered = false

namespace Intact

variable {record : Record Value} {first last pending : Outcome World Value}

theorem andThen (intact : Intact record (first.andThen last)) :
    Intact record first ∧ Intact record last := by
  obtain ⟨clobbered, entered⟩ := intact
  simp only [Outcome.andThen, Bool.or_eq_false_iff] at clobbered entered
  exact ⟨⟨clobbered.1, entered.imp_right And.left⟩, ⟨clobbered.2, entered.imp_right And.right⟩⟩

theorem afterLoop {label : Option String} (intact : Intact record (last.afterLoop label)) :
    Intact record last := by
  obtain ⟨clobbered, entered⟩ := intact
  by_cases breaks : last.completion.breaks label
  · simp only [Outcome.afterLoop, breaks] at clobbered entered
    exact ⟨clobbered, entered⟩
  · simp only [Outcome.afterLoop, breaks] at clobbered entered
    exact ⟨clobbered, entered⟩

theorem afterCatch (intact : Intact record (pending.afterCatch last)) :
    record = .none ∧ Intact .none pending ∧ Intact .none last := by
  obtain ⟨clobbered, entered⟩ := intact
  simp only [Outcome.afterCatch, Bool.or_eq_false_iff] at clobbered
  have empty : record = .none := by simpa [Outcome.afterCatch] using entered
  exact ⟨empty, ⟨clobbered.1, Or.inl rfl⟩, ⟨clobbered.2, Or.inl rfl⟩⟩

/-- A finally block with an abrupt completion to resume enters no other. -/
theorem afterFinally (intact : Intact record (pending.afterFinally last)) :
    record = .none ∧ Intact .none pending ∧
      (∀ resumed : Record Value,
        (pending.completion = .normal → resumed = .none) →
          Intact resumed last) := by
  obtain ⟨clobbered, entered⟩ := intact
  simp only [Outcome.afterFinally, Bool.or_eq_false_iff, Bool.and_eq_false_iff] at clobbered
  have empty : record = .none := by simpa [Outcome.afterFinally] using entered
  refine ⟨empty, ⟨clobbered.1.1, Or.inl rfl⟩, ?_⟩
  intro resumed ofNormal
  refine ⟨clobbered.1.2, ?_⟩
  rcases clobbered.2 with normal | notEntered
  · refine Or.inl (ofNormal ?_)
    cases completion : pending.completion with
    | normal => rfl
    | _ => simp [completion, Completion.isAbrupt] at normal
  · exact Or.inr notEntered

end Intact

section Landing

variable (host : Host World Value) (base : Nat)
variable (code : List (Instr World Value))

/-- The interpreter leads from one configuration to another. -/
abbrev Leads (start finish : Config World Value) : Prop :=
  Reaches (advance host base code) start finish

/-- The frame stands at the code that takes a jump out of the context's
entries. -/
def AtExit
    (addresses : Nat → LoopExit → Nat) (context : Context) (label : Option String) (exit : LoopExit)
    (pc : Nat) : Prop :=
  ∃ target, findLoop (Loop.accepts label) context.loops = some target ∧ FragmentAt code pc
        ((loopExitJump target exit pc context.unwind).map (resolve addresses))

/-- Where the interpreter is after the code of a statement. -/
def Lands (addresses : Nat → LoopExit → Nat) (context : Context) (stack : List Value)
    (handlers : List Handler) (record : Record Value) (finish : Nat) (start : Config World Value)
    (outcome : Outcome World Value) : Prop :=
  ∃ regs, match outcome.completion with
    | .normal =>
      Leads host base code start
        (.running ⟨finish, stack, handlers, record, regs, outcome.world⟩)
    | .thrown error => Leads host base code start (vmThrow error stack handlers regs outcome.world)
    | .returned result =>
      Leads host base code start (vmReturn result stack handlers regs outcome.world)
    | .brk label =>
      ∃ pc, AtExit code addresses context label .leave pc ∧ Leads host base code start
          (.running ⟨pc, stack, handlers, record, regs, outcome.world⟩)
    | .cont label =>
      ∃ pc, AtExit code addresses context label .next pc ∧
        Leads host base code start
          (.running ⟨pc, stack, handlers, record, regs, outcome.world⟩)

end Landing

section Exits

variable {code : List (Instr World Value)}
variable {addresses : Nat → LoopExit → Nat} {context : Context}
variable {jumpLabel label : Option String} {exit : LoopExit}

/-- The jump that remains when a loop's own exit is reached. -/
theorem AtExit.here {inner : Context} {loop : Loop} (loops : inner.loops = loop :: context.loops)
    (depth : loop.unwindDepth = inner.unwind.length) (accepted : Loop.accepts jumpLabel loop = true)
    (atExit : AtExit code addresses inner jumpLabel exit pc) :
    code[pc]? = some (.jmp (addresses context.loops.length exit)) := by
  obtain ⟨target, found, fragment⟩ := atExit
  rw [loops, findLoop_cons_of_wanted accepted, Option.some.injEq] at found
  subst found
  rw [loopExitJump_here pc depth] at fragment
  simpa [resolve] using fragment

/-- A jump to an outer loop passes a loop that keeps no handler. -/
theorem AtExit.pushLoop
    (refused :
      Loop.accepts jumpLabel ⟨label, context.unwind.length, none⟩ = false)
    (atExit : AtExit code (patched addresses context.loops.length leave next)
      (context.pushLoop label) jumpLabel exit pc) :
    AtExit code addresses context jumpLabel exit pc := by
  obtain ⟨target, found, fragment⟩ := atExit
  obtain ⟨outer, foundOuter, rfl⟩ := findLoop_cons_of_not refused found
  refine ⟨outer, foundOuter, ?_⟩
  rw [Context.pushLoop, loopExitJump_crossed outer _ context.unwind (by simp),
    map_resolve_loopExitJump (patched_of_found foundOuter)] at fragment
  exact fragment

/-- A jump that leaves a try statement or a finally block goes on outside. -/
theorem AtExit.unwindPush {kind : UnwindKind}
    (atExit : AtExit code addresses (context.unwindPush kind) jumpLabel exit pc) :
    code[pc]? = some (leaveEntry pc kind) ∧
      AtExit code addresses context jumpLabel exit (pc + 1) := by
  obtain ⟨target, found, fragment⟩ := atExit
  replace found : findLoop (Loop.accepts jumpLabel) context.loops = some target :=
    found
  rw [loopExitJump_unwindPush kind found, List.map_cons] at fragment
  refine ⟨?_, target, found, fragment.2⟩
  rw [fragment.1]
  cases kind <;> rfl

end Exits

section Steps

variable {host : Host World Value}
variable {code : List (Instr World Value)}
variable {addresses : Nat → LoopExit → Nat} {context : Context}
variable {stack : List Value} {handlers : List Handler}
variable {record : Record Value}
variable {outcome : Outcome World Value}
variable {value : Value} {values : List Value} {below : List Handler}
variable {held : Record Value} {regs : Registers Value} {world : World} {start : Config World Value}
variable {frame : Frame World Value} {instr : Instr World Value}

/-- Execute the instruction at the frame's address. -/
theorem Leads.fetch {last : Config World Value} (fetched : code[frame.pc]? = some instr)
    (rest : Leads host base code
      (execInstr host base frame instr) last) :
    Leads host base code (.running frame) last :=
  Reaches.step (by simp [advance, fetched]) rest

/-- What a configuration leads to lands where that lands. -/
theorem Lands.of_leads
    {start middle : Config World Value} (leads : Leads host base code start middle)
    (landed : Lands host base code addresses context stack handlers record
      finish middle outcome) :
    Lands host base code addresses context stack handlers record finish start outcome := by
  obtain ⟨regs, landed⟩ := landed
  refine ⟨regs, ?_⟩
  cases completion : outcome.completion with
  | normal | thrown error | returned result =>
    simp only [completion] at landed ⊢
    exact leads.trans landed
  | brk label | cont label =>
    simp only [completion] at landed ⊢
    obtain ⟨pc, atExit, landed⟩ := landed
    exact ⟨pc, atExit, leads.trans landed⟩

/-- Execute one instruction of a statement. -/
theorem Lands.fetch (fetched : code[frame.pc]? = some instr)
    (landed : Lands host base code addresses context stack handlers record
      finish (execInstr host base frame instr) outcome) :
    Lands host base code addresses context stack handlers record finish (.running frame) outcome :=
  landed.of_leads (Leads.fetch fetched (Reaches.refl _))

/-- After a throw the statement has landed in the unwinder. -/
theorem Lands.thrown (error : Value) (regs : Registers Value) (world : World) :
    Lands host base code addresses context stack handlers record
      finish (vmThrow error stack handlers regs world)
      (.plain (.thrown error) world) :=
  ⟨regs, Reaches.refl _⟩

/-- A frame behind the code of the statement has landed normally. -/
theorem Lands.normal (regs : Registers Value) (world : World) :
    Lands host base code addresses context stack handlers record
      finish (.running ⟨finish, stack, handlers, record, regs, world⟩)
      (.plain .normal world) :=
  ⟨regs, Reaches.refl _⟩

/-- After an abrupt completion it does not matter where the code ends. -/
theorem Lands.of_abrupt (landed : Lands host base code addresses context stack handlers record
      other start outcome)
    (abrupt : outcome.completion ≠ .normal) :
    Lands host base code addresses context stack handlers record finish start outcome := by
  obtain ⟨regs, landed⟩ := landed
  refine ⟨regs, ?_⟩
  cases completion : outcome.completion with
  | normal => exact absurd completion abrupt
  | _ =>
    simp only [completion] at landed ⊢
    exact landed

/-- A landing is about the completion and the world of the outcome only. -/
theorem Lands.congr {other : Outcome World Value}
    (landed : Lands host base code addresses context stack handlers record
      finish start other)
    (completion : outcome.completion = other.completion) (world : outcome.world = other.world) :
    Lands host base code addresses context stack handlers record finish start outcome := by
  simpa only [Lands, completion, world] using landed

/-- Evaluate an expression: it throws, or its value is pushed. -/
theorem Lands.push
    {expression : Expr World Value} {next : Value → World → Option (Outcome World Value)}
    (fetched : code[pc]? = some (.push expression))
    (executed : execExpr expression world next = some outcome)
    (returns : ∀ result after, next result after = some outcome →
      Lands host base code addresses context stack handlers record finish
        (.running ⟨pc + 1, result :: stack, handlers, held, regs, after⟩) outcome) :
    Lands host base code addresses context stack handlers record finish
      (.running ⟨pc, stack, handlers, held, regs, world⟩) outcome := by
  refine Lands.fetch fetched ?_
  unfold execExpr at executed
  rcases evaluated : expression world with ⟨after, result | error⟩
  · rw [evaluated] at executed
    simpa only [execInstr, evaluated, Frame.next] using returns result after executed
  · simp only [evaluated, Option.some.injEq] at executed
    subst executed
    simpa only [execInstr, evaluated] using Lands.thrown error regs after

/-- Bind the value on the stack: the binding throws, or the value is taken. -/
theorem Lands.store {target : Target World Value} {next : World → Option (Outcome World Value)}
    (fetched : code[pc]? = some (.store target))
    (executed : execTarget target value world next = some outcome)
    (throws : ∀ error after,
      Lands host base code addresses context stack handlers record finish
        (vmThrow error values below regs after) (.plain (.thrown error) after))
    (returns : ∀ after, next after = some outcome →
      Lands host base code addresses context stack handlers record finish
        (.running ⟨pc + 1, values, below, held, regs, after⟩) outcome) :
    Lands host base code addresses context stack handlers record finish
      (.running ⟨pc, value :: values, below, held, regs, world⟩) outcome := by
  refine Lands.fetch fetched ?_
  unfold execTarget at executed
  rcases bound : target value world with ⟨after, _ | error⟩
  · rw [bound] at executed
    simpa only [execInstr, bound, Frame.next] using returns after executed
  · simp only [bound, Option.some.injEq] at executed
    subst executed
    simpa only [execInstr, bound] using throws error after

/-- Branch on the value on the stack. -/
theorem Lands.jmpFalse (fetched : code[pc]? = some (.jmpFalse address))
    (landed : Lands host base code addresses context stack handlers record
      finish
      (.running
        ⟨if host.truthy value then pc + 1 else address, values, below, held,
          regs, world⟩)
      outcome) :
    Lands host base code addresses context stack handlers record finish
      (.running ⟨pc, value :: values, below, held, regs, world⟩) outcome := by
  refine Lands.fetch fetched ?_
  by_cases truth : host.truthy value <;> simpa [execInstr, Frame.next, truth] using landed

end Steps

end AntRuntime.Exceptions
