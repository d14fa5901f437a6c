import DosMonitor.Proofs.Atomicity

/-!
# The services that instructions ask for

Of all instructions two kinds matter to the session: those that take a line of its input, by service 0Ah of
interrupt 21h, and those that end it, by service 4Ch. An `Invocation` is an instruction with the context
in which it is carried out; it shows which line is taken and with which code the session ends.

Main statements: an instruction that asks for a service does what the service does (`execute_service`),
input shrinks by the line that is taken (`Invocation.input_eq`), and the outcome is the end of the program
if and only if service 4Ch is asked for, with the low byte of AX (`Invocation.exit_iff`).
-/

namespace DosMonitor

/-- An instruction that is carried out, and what it finds. -/
structure Invocation where
  instruction : Instruction
  context : Context Memory

namespace Invocation

/-- The service of interrupt 21h that the instruction asks for, which is the high byte of AX. -/
def service? (v : Invocation) : Option UInt8 :=
  match v.instruction.source v.context.registers 0 with
  | .ok vector =>
    if v.instruction.opcode = .int ∧ vector = 0x21 then some (v.context.registers.high .ax) else none
  | .error _ => none

/-- The code with which the instruction ends the program, which is the low byte of AX. -/
def exitCode? (v : Invocation) : Option UInt8 :=
  if v.service? = some 0x4C then some (v.context.registers.low .ax) else none

/-- The line of input that the instruction takes. Service 0Ah takes one if it does not fail and there is
one. -/
def taken? (v : Invocation) : Option InputLine :=
  match Execution.execute v.instruction v.context with
  | .ok _ _ => if v.service? = some 0x0A then v.context.console.input.head? else none
  | .error _ _ => none

end Invocation

namespace Execution

open Exec

variable {i : Instruction} {c c' : Context Memory} {outcome : Outcome}

/-- Where the action succeeds, the program goes on and the console is as before. -/
def Proceeds (x : Exec Memory Outcome) : Prop :=
  ∀ c outcome c', x c = .ok outcome c' → outcome = .proceed ∧ c'.console = c.console

theorem Proceeds.pure : Proceeds (Pure.pure .proceed) := by
  rintro c outcome c' h
  cases h
  exact ⟨rfl, rfl⟩

theorem Proceeds.bind {α : Type} {x : Exec Memory α} {f : α → Exec Memory Outcome}
    (hx : ∀ c a c', x c = .ok a c' → c'.console = c.console) (hf : ∀ a, Proceeds (f a)) :
    Proceeds (x >>= f) := by
  intro c outcome c' h
  obtain ⟨a, d, hd, hrest⟩ := of_bind_ok h
  obtain ⟨houtcome, hconsole⟩ := hf a d outcome c' hrest
  exact ⟨houtcome, hconsole.trans (hx c a d hd)⟩

theorem console_of_reads {α : Type} {x : Exec Memory α} (hx : Reads x) (c : Context Memory) (a : α)
    (c' : Context Memory) (h : x c = .ok a c') : c'.console = c.console := by
  rw [hx.eq_of_ok h]

theorem console_onBus {α : Type} (action : BusM Memory α) (c : Context Memory) (a : α)
    (c' : Context Memory) (h : onBus action c = .ok a c') : c'.console = c.console := by
  unfold onBus at h
  dsimp only at h
  cases hr : action c.bus with
  | ok b bus =>
    rw [hr] at h
    cases h
    rfl
  | error e bus =>
    rw [hr] at h
    cases h

theorem console_setRegisters (f : RegisterFile → RegisterFile) (c : Context Memory) (a : Unit)
    (c' : Context Memory) (h : setRegisters f c = .ok a c') : c'.console = c.console := by
  cases h
  rfl

theorem proceeds_unary (i : Instruction) (operation : UInt16 → Effect) : Proceeds (unary i operation) :=
  .bind (console_of_reads (Reads.ofExcept _)) fun _ => .bind (console_setRegisters _) fun _ => .pure

theorem proceeds_binary (i : Instruction) (operation : UInt16 → UInt16 → Effect) :
    Proceeds (binary i operation) :=
  .bind (console_of_reads (Reads.ofExcept _)) fun _ =>
    .bind (console_of_reads reads_registers) fun _ =>
      .bind (console_of_reads (Reads.ofExcept _)) fun _ => .bind (console_setRegisters _) fun _ => .pure

theorem proceeds_push (i : Instruction) : Proceeds (push i) :=
  .bind (console_of_reads (Reads.ofExcept _)) fun _ =>
    .bind (console_of_reads reads_registers) fun _ =>
      .bind (console_onBus _) fun _ => .bind (console_setRegisters _) fun _ => .pure

theorem proceeds_pop (i : Instruction) : Proceeds (pop i) :=
  .bind (console_of_reads (Reads.ofExcept _)) fun _ =>
    .bind (console_of_reads reads_registers) fun _ =>
      .bind (console_onBus _) fun _ => .bind (console_setRegisters _) fun _ => .pure

theorem proceeds_execute (h : i.opcode ≠ .int) : Proceeds (execute i) :=
  execute_cases (fun _ => proceeds_unary i _) (fun _ => proceeds_binary i _)
    (fun _ => proceeds_push i) (fun _ => proceeds_pop i) fun hint => absurd hint h

/-! ## Interrupt 21h -/

theorem printString_ok (h : printString c = .ok outcome c') :
    outcome = .proceed ∧ c'.console.input = c.console.input := by
  rw [printString_eq] at h
  split_ifs at h
  cases hread : readString (Bus.activePage c.bus) (pageSize - c.dosPlace) c.dosPlace #[] c.bus with
  | ok text bus =>
    rw [hread] at h
    cases h
    exact ⟨rfl, rfl⟩
  | error e bus =>
    rw [hread] at h
    cases h

/-- The line is taken behind the last check. -/
theorem readBuffer_ok (h : readBuffer c = .ok outcome c') :
    outcome = .proceed ∧ c.console.input = c.console.input.head?.toList ++ c'.console.input := by
  rw [readBuffer_eq] at h
  split_ifs at h
  cases h
  refine ⟨rfl, ?_⟩
  show c.console.input = c.console.input.head?.toList ++ c.console.input.drop 1
  cases c.console.input <;> rfl

/-- What the services of interrupt 21h do. -/
def serve {β : Type} [Bus β] (rf : RegisterFile) (service : UInt8) : Exec β Outcome :=
  match service with
  | 0x09 => printString
  | 0x0A => readBuffer
  | 0x4C => return .exit (rf.low .ax)
  | _ => throw (.exec (.unsupportedService service))

theorem execute_int {β : Type} [Bus β] (h : i.opcode = .int) :
    execute i = (interrupt i : Exec β Outcome) := by
  unfold execute
  rw [h]
  rfl

/-- An instruction with vector 21h goes to the service that the high byte of AX names. -/
theorem execute_dos {β : Type} [Bus β] {c : Context β} (hopcode : i.opcode = .int)
    (hvector : i.source c.registers 0 = .ok 0x21) :
    execute i c = serve c.registers (c.registers.high .ax) c := by
  have hregisters : (registers : Exec β _) c = .ok c.registers c := rfl
  have hlook : (ofExcept (i.source c.registers 0) : Exec β UInt16) c = .ok 0x21 c := by
    rw [hvector]
    rfl
  rw [execute_int hopcode, interrupt, hopcode]
  dsimp only
  rw [bind_of_ok hregisters, bind_of_ok hlook, if_pos rfl, dosService, bind_of_ok hregisters]
  rfl

theorem service?_eq_some_iff {service : UInt8} :
    (Invocation.mk i c).service? = some service ↔
      i.opcode = .int ∧ i.source c.registers 0 = .ok 0x21 ∧ c.registers.high .ax = service := by
  unfold Invocation.service?
  cases i.source c.registers 0 with
  | error e => simp
  | ok vector => simp [and_assoc]

/-- Any other vector is refused. -/
theorem execute_refused (hopcode : i.opcode = .int) (h : (Invocation.mk i c).service? = none) :
    ∃ e, execute i c = .error e c := by
  have hregisters : (registers : Exec Memory _) c = .ok c.registers c := rfl
  rw [execute_int hopcode, interrupt, hopcode]
  dsimp only
  rw [bind_of_ok hregisters]
  unfold Invocation.service? at h
  cases hsource : i.source c.registers 0 with
  | error e => exact ⟨e, rfl⟩
  | ok vector =>
    simp only [hsource, hopcode, true_and] at h
    split_ifs at h with hvector
    refine ⟨.exec (.unsupportedInterrupt vector), ?_⟩
    have hlook : (ofExcept (.ok vector) : Exec Memory UInt16) c = .ok vector c := rfl
    rw [bind_of_ok hlook, if_neg hvector]
    rfl

theorem execute_service {service : UInt8} (h : (Invocation.mk i c).service? = some service) :
    execute i c = serve c.registers service c := by
  obtain ⟨hopcode, hvector, rfl⟩ := service?_eq_some_iff.1 h
  exact execute_dos hopcode hvector

/-- What an instruction that succeeds has done about input and the end of the program. -/
inductive Done (v : Invocation) : Outcome → Context Memory → Prop
  | proceeded {c' : Context Memory} (hservice : v.service? ≠ some 0x0A ∧ v.service? ≠ some 0x4C)
      (hinput : c'.console.input = v.context.console.input) : Done v .proceed c'
  | read {c' : Context Memory} (hservice : v.service? = some 0x0A)
      (hinput : v.context.console.input = v.context.console.input.head?.toList ++ c'.console.input) :
      Done v .proceed c'
  | exited (hservice : v.service? = some 0x4C) : Done v (.exit (v.context.registers.low .ax)) v.context

/-- Whatever the action comes to, it is one of these. -/
def Does (v : Invocation) (x : Exec Memory Outcome) : Prop :=
  ∀ outcome c', x v.context = .ok outcome c' → Done v outcome c'

theorem does_serve (v : Invocation) (service : UInt8) (hservice : v.service? = some service) :
    Does v (serve v.context.registers service) := by
  unfold serve
  split <;> intro outcome c' hrun
  · obtain ⟨rfl, hinput⟩ := printString_ok hrun
    refine .proceeded ?_ hinput
    rw [hservice]
    decide
  · obtain ⟨rfl, hinput⟩ := readBuffer_ok hrun
    exact .read hservice hinput
  · cases hrun
    exact .exited hservice
  · cases hrun

theorem execute_done (h : execute i c = .ok outcome c') : Done ⟨i, c⟩ outcome c' := by
  cases hservice : (Invocation.mk i c).service? with
  | some service => exact does_serve _ service hservice outcome c' ((execute_service hservice).symm.trans h)
  | none =>
    by_cases hopcode : i.opcode = .int
    · obtain ⟨e, hrefused⟩ := execute_refused hopcode hservice
      rw [hrefused] at h
      cases h
    obtain ⟨rfl, hconsole⟩ := proceeds_execute hopcode c outcome c' h
    refine .proceeded ?_ (congrArg Console.input hconsole)
    rw [hservice]
    decide

/-- Service 4Ch is always granted. -/
theorem execute_exit (h : (Invocation.mk i c).service? = some 0x4C) :
    execute i c = .ok (.exit (c.registers.low .ax)) c :=
  execute_service h

end Execution

namespace Invocation

open Execution

variable (v : Invocation)

theorem input_eq :
    v.context.console.input =
      v.taken?.toList ++ (endState (execute v.instruction v.context)).console.input := by
  unfold taken?
  cases hrun : execute v.instruction v.context with
  | ok outcome c' =>
    cases execute_done hrun with
    | proceeded hservice hinput => simp [hservice.1, hinput]
    | read hservice hinput => simpa [hservice] using hinput
    | exited hservice => simp [hservice]
  | error e c' =>
    rw [atomic_execute _ _ e c' hrun]
    rfl

theorem exit_iff {code : UInt8} :
    (∃ c', execute v.instruction v.context = .ok (.exit code) c') ↔ v.exitCode? = some code := by
  unfold exitCode?
  constructor
  · rintro ⟨c', hrun⟩
    cases execute_done hrun with
    | exited hservice => rw [if_pos hservice]
  · intro h
    split_ifs at h with hservice
    obtain rfl := Option.some.inj h
    exact ⟨_, execute_exit hservice⟩

end Invocation

end DosMonitor
