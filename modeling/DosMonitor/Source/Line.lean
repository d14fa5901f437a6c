import DosMonitor.Source.Token
import DosMonitor.Instruction

/-!
# Source lines

A source line is blank, a label, or an instruction: an opcode, then operands with commas between
them, as many as the opcode takes. `label?` recognises the lines that only name a place, `instruction?`
reads the others.
-/

namespace DosMonitor.Source

/-- The characters of which a label is made. -/
def isLabelChar (c : Char) : Bool :=
  Text.isWordChar c || c == '.'

def isLabelName (name : List Char) : Bool :=
  !name.isEmpty && !name.head?.any Char.isDigit && name.all isLabelChar

/-- The name on a line that holds a label and nothing else but a comment. -/
def label? (line : List Char) : Option (List Char) :=
  ((Text.dropLast? ':' (Text.trim (code line))).map Text.trim).filter isLabelName

def operand (t : Token) : Except ParseError Operand :=
  match t.kind with
  | .register r => .ok (.register r)
  | .number value => .ok (.immediate value)
  | .word => .error (.invalidOperand t.text t.column)
  | .opcode _ | .comma => .error (.unexpectedToken t.text t.column)

/-- Operands with commas between them, at least one. The line is for the report of one that is
missing at its end. -/
def operands (line : List Char) : List Token → Except ParseError (List Operand)
  | [] => .error (.unexpectedEnd (.ofList (Text.trim line)))
  | [t] => do
    let first ← operand t
    return [first]
  | t :: separator :: rest => do
    let first ← operand t
    if separator.kind = .comma then
      let more ← operands line rest
      return first :: more
    else throw (.unexpectedToken separator.text separator.column)

/-- The instruction that a list of tokens spells, none where the list is empty. -/
def instructionOf (line : List Char) : List Token → Except ParseError (Option Instruction)
  | [] => .ok none
  | t :: rest =>
    match t.kind with
    | .opcode op => do
      let args ← if rest.isEmpty then pure [] else operands line rest
      if args.length = op.operandCount then return some ⟨op, args⟩
      else throw (.operandCount op args.length)
    | _ => .error (.unknownOpcode t.text t.column)

/-- The instruction on a source line, none where the line is blank or only a comment. -/
def instruction? (line : List Char) : Except ParseError (Option Instruction) := do
  instructionOf line (← tokens line)

end DosMonitor.Source
