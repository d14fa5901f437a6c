import DosMonitor.Text.Letters
import DosMonitor.Text.Blank

/-!
# Numerals

Numbers are read in base two, ten or sixteen by one rule (`readUnsigned`): an optional single plus
sign, then one digit or more, in either case, any number of leading zeros, and a value below the
limit of the word that receives it. They are written in upper-case hexadecimal, padded with zeros to
a least width (`hex`), or in decimal.
-/

namespace DosMonitor.Text

/-- Addresses, page numbers and counts are words of 64 bits, so they lie below this number. -/
def wordLimit : Nat := 0x10000000000000000

/-! ### Reading -/

/-- The value of a digit of bases up to thirty-six. -/
def digitValue? (c : Char) : Option Nat :=
  if '0' ≤ c ∧ c ≤ '9' then some (c.toNat - 48)
  else if 'a' ≤ c ∧ c ≤ 'z' then some (c.toNat - 87)
  else if 'A' ≤ c ∧ c ≤ 'Z' then some (c.toNat - 55)
  else none

/-- The value of a digit of the given base. -/
def digit? (base : Nat) (c : Char) : Option Nat :=
  (digitValue? c).filter (· < base)

/-- The number that the digits continue, when `n` is what the digits before them denote. -/
def readDigits (base : Nat) : (n : Nat) → List Char → Option Nat
  | n, [] => some n
  | n, c :: s =>
    match digit? base c with
    | some d => readDigits base (n * base + d) s
    | none => none

/-- The digits of a numeral without its plus sign. -/
def unsigned (s : List Char) : List Char :=
  match s with
  | '+' :: digits => digits
  | digits => digits

/-- An unsigned number in the given base that is below `limit`. -/
def readUnsigned (base limit : Nat) (s : List Char) : Option Nat :=
  match unsigned s with
  | [] => none
  | digits => (readDigits base 0 digits).filter (· < limit)

/-- A number below 2^16 behind `0b` (base two), behind `0x` (base sixteen), or in base ten. The
letters may be in either case. -/
def number? (s : List Char) : Option UInt16 :=
  let s := lower s
  let value :=
    match dropStart? ['0', 'b'] s, dropStart? ['0', 'x'] s with
    | some digits, _ => readUnsigned 2 0x10000 digits
    | none, some digits => readUnsigned 16 0x10000 digits
    | none, none => readUnsigned 10 0x10000 s
  value.map UInt16.ofNat

/-- A number below 2^64 in base sixteen, with or without `0x` in front, blanks around it being
passed over. -/
def hexNumber? (s : List Char) : Option Nat :=
  let s := trim s
  let digits :=
    match dropStart? ['0', 'x'] s, dropStart? ['0', 'X'] s with
    | some digits, _ => digits
    | none, some digits => digits
    | none, none => s
  readUnsigned 16 wordLimit digits

/-- A hexadecimal number that fits into `limit`. -/
def hexBelow? (limit : Nat) (s : List Char) : Option Nat :=
  (hexNumber? s).filter (· < limit)

/-! ### Writing -/

/-- The digit of a value below sixteen, letters in upper case. -/
def hexDigit (d : Nat) : Char :=
  Char.ofNat (if d < 10 then 48 + d else 55 + d)

/-- The `width` lowest hexadecimal digits of `n`. -/
def hexFixed : (width n : Nat) → List Char
  | 0, _ => []
  | width + 1, n => hexFixed width (n / 16) ++ [hexDigit (n % 16)]

/-- The least number of hexadecimal digits that `n` needs. -/
def hexWidth (n : Nat) : Nat :=
  n.log2 / 4 + 1

/-- The number in upper-case hexadecimal, padded with zeros to at least `width` digits. -/
def hexChars (width n : Nat) : List Char :=
  hexFixed (max width (hexWidth n)) n

def hex (width n : Nat) : String :=
  .ofList (hexChars width n)

/-- Two digits for each byte, and nothing between the bytes. -/
def hexString (bytes : List UInt8) : String :=
  .ofList (bytes.flatMap fun b => hexFixed 2 b.toNat)

/-- The text followed by as many spaces as it needs to have `width` characters. -/
def padRight (width : Nat) (s : List Char) : List Char :=
  s ++ List.replicate (width - s.length) ' '

end DosMonitor.Text
