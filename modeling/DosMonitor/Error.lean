import DosMonitor.Text.Numeral
import DosMonitor.Opcode
import DosMonitor.Host.Fault

/-!
# Errors

One type for the errors of each part of the monitor, with the cause in the constructor and the
wording in one function `message`. `Error` joins them with the errors of the debugger.
-/

namespace DosMonitor

/-- A rejected access to memory. -/
inductive MemoryError
  | invalidPage (page pages : Nat)
  | invalidAddress (address : Nat)
  | invalidValue (value : Nat)
  | overflow (address length : Nat)
  deriving DecidableEq, Repr

def MemoryError.message : MemoryError → String
  | invalidPage page pages => s!"invalid page {Text.hex 4 page} (memory has {pages} page(s))"
  | invalidAddress address => s!"invalid address {Text.hex 1 address} (pages are 64K)"
  | invalidValue value => s!"invalid byte value {value} (must be 0-255)"
  | overflow address length =>
    s!"{length} byte(s) at {Text.hex 4 address} would overflow the page"

/-- A rejected access to the disk. -/
inductive DiskError
  | invalidSector (sector : Int) (size : Nat)
  | invalidValue (value : Nat)
  /-- The file that backs the disk could not be read or written. -/
  | host (path : String) (fault : Fault)
  deriving DecidableEq, Repr

def DiskError.message : DiskError → String
  | invalidSector sector size => s!"invalid sector {sector} (disk has {size} sectors)"
  | invalidValue value => s!"invalid byte value {value} (must be 0-255)"
  | host path fault => s!"problem accessing {path}: {fault.message}"

/-- A source line that is no instruction. Columns count characters from one. -/
inductive ParseError
  | unknownOpcode (text : String) (column : Nat)
  | invalidOperand (text : String) (column : Nat)
  | unexpectedToken (text : String) (column : Nat)
  | unexpectedEnd (text : String)
  | operandCount (opcode : Opcode) (found : Nat)
  deriving DecidableEq, Repr

def ParseError.message : ParseError → String
  | unknownOpcode text column => s!"unknown opcode '{text}' at column {column}"
  | invalidOperand text column => s!"invalid operand '{text}' at column {column}"
  | unexpectedToken text column => s!"unexpected token '{text}' at column {column}"
  | unexpectedEnd text => s!"unexpected end of line after '{text}'"
  | operandCount opcode found =>
    s!"{opcode.name} expects {opcode.operandCount} operand(s), found {found}"

/-- An instruction that the machine cannot carry out. -/
inductive ExecError
  | invalidRegister (text : String)
  | unsupportedInterrupt (vector : UInt16)
  | unsupportedService (service : UInt8)
  /-- The instruction has no byte code. -/
  | encoding (text : String)
  deriving DecidableEq, Repr

def ExecError.message : ExecError → String
  | invalidRegister text => s!"invalid register '{text}'"
  | unsupportedInterrupt vector => s!"unsupported interrupt vector 0x{Text.hex 2 vector.toNat}"
  | unsupportedService service =>
    s!"unsupported INT 21h service AH=0x{Text.hex 2 service.toNat}"
  | encoding text => s!"cannot encode '{text}'"

/-- Any error of the monitor. -/
inductive Error
  | parse (e : ParseError)
  | exec (e : ExecError)
  | memory (e : MemoryError)
  | disk (e : DiskError)
  | unknownLabel (text : String)
  | invalidWatch (text : String)
  | noProgram
  /-- A program file could not be read. -/
  | host (path : String) (fault : Fault)
  deriving DecidableEq, Repr

def Error.message : Error → String
  | parse e => e.message
  | exec e => e.message
  | memory e => e.message
  | disk e => e.message
  | unknownLabel text => s!"unknown label '{text}'"
  | invalidWatch text => s!"invalid watch expression '{text}'"
  | noProgram => "no program loaded"
  | host path fault => s!"problem reading {path}: {fault.message}"

end DosMonitor
