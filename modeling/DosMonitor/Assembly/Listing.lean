import DosMonitor.Source.Line
import DosMonitor.Assembly.Encoding
import DosMonitor.Text.Dump

/-!
# Assembling source and listing it

`assemble` joins the byte codes of the lines of a source; labels and blank lines have none. A listing
shows an executable line with its address and its byte code, or `--` where it has none.
-/

namespace DosMonitor.Assembly

/-- The byte code of a source line, empty for labels and blank lines. -/
def assembleLine (line : List Char) : Except Error (List UInt8) :=
  if (Source.label? line).isSome then .ok []
  else
    match Source.instruction? line with
    | .ok (some i) => encode i
    | .ok none => .ok []
    | .error e => .error (.parse e)

/-- The byte code of the lines of a source, in order. The first line without one is the error. -/
def assemble : (lines : List String) → Except Error (List UInt8)
  | [] => .ok []
  | line :: lines => do
    let first ← assembleLine line.toList
    let rest ← assemble lines
    return first ++ rest

/-- What listings and traces show for a byte code: its bytes, or `--` where there are none. -/
def codeText (bytes : Option (List UInt8)) : String :=
  match bytes with
  | some (b :: bytes) => Text.bytesText (b :: bytes)
  | _ => "--"

def sourceColumnWidth : Nat := 24

/-- A source line as it is listed at an address: its code without comment, then its byte code. -/
def listingLine (line : List Char) (address : UInt16) : String :=
  let source := String.ofList (Text.padRight sourceColumnWidth (Text.trim (Source.code line)))
  let bytes := codeText (assembleLine line).toOption
  s!"{Text.hex 4 address.toNat}: {source} bytes(pseudo): {bytes}"

end DosMonitor.Assembly
