import DosMonitor.Text.Numeral

/-!
# Bytes as listings

`bytesText` writes bytes as pairs of hexadecimal digits with spaces between them. A dump shows
sixteen bytes a row, first in that form and then as characters, each row behind a label that tells
where it starts.
-/

namespace DosMonitor.Text

/-- Two hexadecimal digits for each byte, with a space between bytes. -/
def bytesText (bytes : List UInt8) : String :=
  " ".intercalate (bytes.map fun b => hex 2 b.toNat)

/-- The byte as a character: itself for visible ASCII and the space, a point for all others. -/
def byteChar (b : UInt8) : Char :=
  if 0x20 ≤ b.toNat ∧ b.toNat ≤ 0x7E then Char.ofNat b.toNat else '.'

/-- The width of the hexadecimal column of a dump, which is that of sixteen bytes. -/
def hexColumnWidth : Nat := 47

/-- One row of a dump without its label: the bytes as digits, then as characters. -/
def dumpRow (bytes : List UInt8) : String :=
  .ofList (padRight hexColumnWidth (bytesText bytes).toList ++ [' ', ' '] ++ bytes.map byteChar)

def rowLength : Nat := 16

/-- The bytes cut into rows, of which all but the last are full. -/
def rows (bytes : List UInt8) : List (List UInt8) :=
  let cells := bytes.toArray
  (List.range ((bytes.length + rowLength - 1) / rowLength)).map fun k =>
    (cells.extract (k * rowLength) (k * rowLength + rowLength)).toList

/-- A dump of bytes that stand at `start` and after it. The label of a row is made from the address
of its first byte. -/
def dump (label : Nat → String) (start : Nat) (bytes : List UInt8) : List String :=
  (rows bytes).mapIdx fun k row => s!"{label (start + k * rowLength)}  {dumpRow row}"

end DosMonitor.Text
