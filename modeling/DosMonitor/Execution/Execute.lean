import DosMonitor.Execution.Units
import DosMonitor.Execution.Interrupt

/-!
# Carrying out an instruction

An instruction goes to the unit that its opcode belongs to.
-/

namespace DosMonitor.Execution

variable {β : Type} [Bus β]

/-- Has an instruction carried out by a unit. -/
@[specialize] def runOn (unit : ExecutionUnit) (i : Instruction) : Exec β Outcome :=
  match unit with
  | .transfer => transfer i
  | .arithmetic => arithmetic i
  | .logic => logic i
  | .interrupt => interrupt i

/-- Has an instruction carried out by the unit of its opcode. -/
@[specialize] def execute (i : Instruction) : Exec β Outcome :=
  runOn i.opcode.unit i

end DosMonitor.Execution
