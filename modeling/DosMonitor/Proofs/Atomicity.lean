import Mathlib
import DosMonitor.Proofs.Actions
import DosMonitor.Proofs.Agreement
import DosMonitor.Proofs.Call
import DosMonitor.Proofs.Services

/-!
# A failing instruction leaves the machine intact

An instruction that fails has changed nothing: no register, no flag, no byte of memory, no output, and
no line of input has been taken.

Every instruction looks first and acts then. Looking may fail, but changes nothing (`Reads`); acting
does not fail, since what could go wrong has been looked at before (`Succeeds`). The second part is what
has to be shown where bytes are written: the active page exists, the stack pointer wraps in the page, and
service 0Ah has asked for room for the whole buffer before it takes a line.
-/

namespace DosMonitor

/-! ## Memory -/

section Memory
variable {m : Memory} {page address : Nat}

theorem reads_peek (page address : Nat) : Reads (Bus.peek page address : BusM Memory UInt8) :=
  Memory.endState_peek page address

theorem reads_readString (page room address : Nat) (found : Array UInt8) :
    Reads (Execution.readString page room address found : BusM Memory (Array UInt8)) := by
  induction room generalizing address found with
  | zero => exact Reads.throw _
  | succ room ih =>
    refine Reads.bind (reads_peek _ _) fun b => ?_
    split
    · exact Reads.pure _
    · exact Reads.bind (Reads.pure _) fun _ => ih _ _

theorem succeeds_write16 (hpage : page < m.pageCount) (haddress : address < pageSize)
    (value : UInt16) : Succeeds (Bus.write16 page address value) m := by
  have hvalue := value.toNat_lt
  refine Succeeds.bind ⟨(), m, checkAccess_ok hpage haddress, ?_⟩
  refine Succeeds.bind ⟨(), _, poke_ok hpage haddress (by omega), ?_⟩
  refine ⟨(), _, poke_ok ?_ (Nat.mod_lt _ (by decide)) (by omega)⟩
  rw [Memory.pageCount_write]
  exact hpage

end Memory

/-! ## The units -/

namespace Execution

open Exec

variable {β : Type}

theorem reads_registers : Reads (registers : Exec β RegisterFile) :=
  Reads.bind Reads.get fun _ => Reads.pure _

theorem reads_onBus {α : Type} {action : BusM β α} (h : Reads action) : Reads (onBus action) := by
  rintro ⟨rf, b, console⟩
  have hb := h b
  unfold onBus
  cases hr : action b with
  | ok a b' =>
    rw [hr] at hb
    obtain rfl : b' = b := hb
    simp only [hr]
    rfl
  | error e b' =>
    rw [hr] at hb
    obtain rfl : b' = b := hb
    simp only [hr]
    rfl

theorem reads_dosAddress : Reads (dosAddress : Exec β Nat) := by
  refine Reads.bind reads_registers fun rf => ?_
  dsimp only
  split_ifs
  · exact Reads.bind (Reads.throw _) fun _ => Reads.pure _
  · exact Reads.pure _

theorem atomic_unary (i : Instruction) (operation : UInt16 → Effect) (c : Context β) :
    Atomic (unary i operation) c :=
  Atomic.bind (Reads.ofExcept _) fun _ _ => Succeeds.atomic ⟨_, _, rfl⟩

theorem atomic_binary (i : Instruction) (operation : UInt16 → UInt16 → Effect) (c : Context β) :
    Atomic (binary i operation) c := by
  refine Atomic.bind (Reads.ofExcept _) fun r _ => ?_
  refine Atomic.bind reads_registers fun rf _ => ?_
  exact Atomic.bind (Reads.ofExcept _) fun b _ => Succeeds.atomic ⟨_, _, rfl⟩

theorem atomic_push (i : Instruction) (c : Context Memory) : Atomic (push i) c := by
  refine Atomic.bind (Reads.ofExcept _) fun r _ => ?_
  refine Atomic.bind reads_registers fun rf _ => Succeeds.atomic ?_
  obtain ⟨a, m, hm⟩ := succeeds_write16 c.bus.activePage_lt (rf.get .sp - 2).toNat_lt (rf.get r)
  exact Succeeds.bind ⟨a, _, onBus_ok hm, ⟨_, _, rfl⟩⟩

theorem atomic_pop (i : Instruction) (c : Context Memory) : Atomic (pop i) c := by
  refine Atomic.bind (Reads.ofExcept _) fun r _ => ?_
  refine Atomic.bind reads_registers fun rf _ => ?_
  refine Atomic.bind (reads_onBus ?_) fun value _ => Succeeds.atomic ⟨_, _, rfl⟩
  refine Reads.bind Reads.get fun m => ?_
  exact Reads.bind (reads_peek _ _) fun _ => Reads.bind (reads_peek _ _) fun _ => Reads.pure _

theorem atomic_printString (c : Context Memory) : Atomic (printString : Exec Memory Outcome) c := by
  refine Atomic.bind reads_dosAddress fun address _ => ?_
  refine Atomic.bind (reads_onBus ?_) fun text _ => Succeeds.atomic ⟨_, _, rfl⟩
  exact Reads.bind Reads.get fun m => reads_readString _ _ _ _

/-- Room for the whole buffer is asked for before the line is taken, so that every byte of it can be
written. -/
theorem atomic_readBuffer (c : Context Memory) : Atomic (readBuffer : Exec Memory Outcome) c := by
  intro e c' h
  rw [readBuffer_eq] at h
  split_ifs at h <;> cases h <;> rfl

theorem atomic_dosService (c : Context Memory) : Atomic (dosService : Exec Memory Outcome) c := by
  refine Atomic.bind reads_registers fun rf _ => ?_
  dsimp only
  split
  · exact atomic_printString c
  · exact atomic_readBuffer c
  · exact (Reads.pure _).atomic c
  · exact (Reads.throw _).atomic c

theorem atomic_interrupt (i : Instruction) (c : Context Memory) : Atomic (interrupt i) c := by
  unfold interrupt
  split
  · refine Atomic.bind reads_registers fun rf _ => ?_
    refine Atomic.bind (Reads.ofExcept _) fun vector _ => ?_
    split_ifs
    · exact atomic_dosService c
    · exact (Reads.throw _).atomic c
  · exact (Reads.pure _).atomic c

theorem atomic_execute (i : Instruction) (c : Context Memory) : Atomic (execute i) c :=
  execute_cases (P := fun x => Atomic x c) (fun _ => atomic_unary i _ c) (fun _ => atomic_binary i _ c)
    (fun _ => atomic_push i c) (fun _ => atomic_pop i c) fun _ => atomic_interrupt i c

theorem lineEffect_error {line : List Char} {c c' : Context Memory} {e : Error}
    (h : lineEffect line c = .error e c') :
    c' = c ∨ c' = { c with registers := c.registers.commit } := by
  unfold lineEffect at h
  split_ifs at h
  · cases h
  · rcases hread : Source.instruction? line with e' | _ | i <;> rw [hread] at h
    · cases h
      exact .inl rfl
    · cases h
    · exact .inr (atomic_execute i ⟨c.registers.commit, c.bus, c.console⟩ e c' h)

end Execution

/-! ## The machine -/

namespace Machine

theorem runLine_error {line : List Char} {m m' : Machine} {e : Error}
    (h : runLine line m = .error e m') :
    ∃ core watches reports, m' = m.observed core watches reports ∧
      (core = m.core ∨ core = { m.core with registers := m.core.registers.commit }) := by
  obtain ⟨watches, reports, -, hline⟩ := runLine_eq line m
  rw [hline] at h
  cases hx : Execution.lineEffect line m.core with
  | ok outcome core =>
    rw [hx] at h
    cases h
  | error e' core =>
    rw [hx] at h
    cases h
    exact ⟨core, watches, reports, rfl, Execution.lineEffect_error hx⟩

/-- **A failure leaves the machine intact.** An instruction of any opcode with any operands that fails
has changed nothing at all. A line of source that fails has changed no register, flag, byte of memory or
sector of the disk, has taken no input, and has put out nothing but the lines of trace that are shown on
the console. -/
theorem error_intact :
    (∀ (i : Instruction) (c c' : Context Memory) (e : Error),
      Execution.execute i c = .error e c' → c' = c) ∧
    ∀ (line : List Char) (m m' : Machine) (e : Error), runLine line m = .error e m' →
      m'.registers.now = m.registers.now ∧ m'.memory = m.memory ∧ m'.disk = m.disk ∧
      m'.console.input = m.console.input ∧
      ∃ reports : List String, m'.console =
        if m.trace.echo then reports.foldl Console.writeLine m.console else m.console := by
  refine ⟨fun i c c' e h => Execution.atomic_execute i c e c' h, ?_⟩
  intro line m m' e h
  obtain ⟨core, watches, reports, rfl, hcore⟩ := runLine_error h
  have hconsole : (m.observed core watches reports).console =
      if m.trace.echo then reports.foldl Console.writeLine m.console else m.console := by
    rcases hcore with rfl | rfl <;> rfl
  refine ⟨?_, ?_, rfl, ?_, reports, hconsole⟩
  · rcases hcore with rfl | rfl <;> rfl
  · rcases hcore with rfl | rfl <;> rfl
  · rw [hconsole]
    split_ifs
    · exact Console.input_foldl_writeLine reports m.console
    · rfl

theorem error_intact_standard :
    let m := standard "" (.ofInput [.text "unread"])
    let i : Instruction := ⟨.int, [.immediate 0x21]⟩
    let c : Context Memory :=
      ⟨(RegisterFile.zero.set .ax 0x0A00).set .ds 0xFFFF, m.memory, m.console⟩
    (∃ e c', Execution.execute i c = .error e c' ∧ c' = c) ∧
      ∃ e m', runLine "POP 1".toList m = .error e m' ∧ m'.memory = m.memory ∧
        m'.console.input = [.text "unread"] := by
  intro m i c
  have hexecute : Execution.execute i c = .error (.memory (.invalidAddress 0xFFFF0)) c := by
    dsimp only [i, c, m]
    rfl
  have hline : runLine "POP 1".toList m =
      .error (.exec (.invalidRegister "0x0001")) (after (runLine "POP 1".toList) m) := by rfl
  obtain ⟨-, hmemory, -, hinput, -⟩ := error_intact.2 _ _ _ _ hline
  exact ⟨⟨_, c, hexecute, error_intact.1 i c c _ hexecute⟩, _, _, hline, hmemory, hinput⟩

end Machine

end DosMonitor
