import Mathlib
import DosMonitor.Proofs.Observation

/-!
# Machines on which programs run alike

What a line of source does hangs on registers, memory, console input and status alone. Machines that
agree in these agree after it, whatever their programs, breakpoints, watches and trace settings are.

With `echo`, lines of trace are shown on the console, so that what agreeing machines have put out may
differ; without it they have put out the same.
-/

namespace DosMonitor

/-- Two machines with the same registers (with their recorded past), memory, disk, unread input, status
and configuration, and the same output as long as lines of trace are not shown on the console. -/
structure Machine.Agree (echo : Bool) (m n : Machine) : Prop where
  registers : m.registers = n.registers
  memory : m.memory = n.memory
  input : m.console.input = n.console.input
  output : echo = false → m.console.output = n.console.output
  disk : m.disk = n.disk
  status : m.status = n.status
  config : m.config = n.config
  echo_left : m.trace.echo = echo
  echo_right : n.trace.echo = echo

namespace Machine

variable {echo : Bool} {m n : Machine}

theorem Agree.refl (m : Machine) : Agree m.trace.echo m m where
  registers := rfl
  memory := rfl
  input := rfl
  output _ := rfl
  disk := rfl
  status := rfl
  config := rfl
  echo_left := rfl
  echo_right := rfl

theorem Agree.symm (h : Agree echo m n) : Agree echo n m where
  registers := h.registers.symm
  memory := h.memory.symm
  input := h.input.symm
  output he := (h.output he).symm
  disk := h.disk.symm
  status := h.status.symm
  config := h.config.symm
  echo_left := h.echo_right
  echo_right := h.echo_left

/-- Lines of trace are put out on one machine alone. -/
theorem Agree.reported (h : Agree echo m n) (reports : List String) :
    Agree echo (m.reported reports) n :=
  { h with
    input := (m.input_reported reports).trans h.input
    output := fun he => by
      rw [console_reported (h.echo_left.trans he)]
      exact h.output he }

/-- The debuggers of agreeing machines may be anything. -/
theorem Agree.withDebugger (h : Agree echo m n) (d : Debugger) :
    Agree echo { m with debugger := d } n :=
  { h with }

theorem Agree.withStatus (h : Agree echo m n) (status : Status) :
    Agree echo (m.withStatus status) (n.withStatus status) :=
  { h with status := rfl }

/-- The cores of agreeing machines: on these an instruction cannot tell them apart. -/
abbrev SameCore (echo : Bool) (page : Nat) : Context Memory → Context Memory → Prop :=
  Context.Related (fun m n => m = n ∧ n.activePage = page)
    (fun c d => c.input = d.input ∧ (echo = false → c.output = d.output))

theorem Agree.core (h : Agree echo m n) : SameCore echo n.memory.activePage m.core n.core where
  registers := h.registers
  bus := ⟨h.memory, rfl⟩
  console := ⟨h.input, h.output⟩

theorem Agree.withCore (h : Agree echo m n) {page : Nat} {c d : Context Memory}
    (hcd : SameCore echo page c d) : Agree echo (m.withCore c) (n.withCore d) :=
  { h with
    registers := hcd.registers
    memory := hcd.bus.1
    input := hcd.console.1
    output := hcd.console.2 }

theorem Agree.observed (h : Agree echo m n) {page : Nat} {c d : Context Memory}
    (hcd : SameCore echo page c d) (ws vs : Watches) (rs qs : List String) :
    Agree echo (m.observed c ws rs) (n.observed d vs qs) := by
  have hws : Agree echo ((m.withCore c).withWatches ws) ((n.withCore d).withWatches vs) :=
    ((h.withCore hcd).withDebugger _).symm.withDebugger _ |>.symm
  exact ((hws.reported rs).symm.reported qs).symm

/-- **A line does the same on agreeing machines**, and they agree after it. -/
theorem exec_agree (echo : Bool) (line : String) :
    Lockstep (Agree echo) (exec line) (exec line) := by
  intro m n h
  obtain ⟨ws, rs, -, hm⟩ := exec_eq line m
  obtain ⟨vs, qs, -, hn⟩ := exec_eq line n
  have hcore := Execution.lineEffect_lockstep (busRelation_memory n.memory.activePage)
    (consoleRelation_input (echo = false)) line.toList m.core n.core h.core
  rw [hm, hn]
  generalize Execution.lineEffect line.toList m.core = r at hcore
  generalize Execution.lineEffect line.toList n.core = q at hcore
  cases hcore with
  | ok outcome hcd =>
    rw [h.status]
    exact .ok outcome ((h.observed hcd ws vs rs qs).withStatus _)
  | error e hcd => exact .error e (h.observed hcd ws vs rs qs)

end Machine

end DosMonitor
