/-!
# Text as bytes

Text is stored in memory, files and the console as UTF-8. `bytes` encodes; `ofBytes?` decodes and
refuses malformed input; `ofBytesLossy` decodes anything, a replacement character standing for each
maximal part that could have begun a character and each byte that could not.
-/

namespace DosMonitor.Text

def bytes (text : String) : List UInt8 :=
  text.toUTF8.data.toList

/-- The text whose UTF-8 form is given, if it is well formed. -/
def ofBytes? (bytes : List UInt8) : Option String :=
  String.fromUTF8? ⟨bytes.toArray⟩

/-- A character of which the first bytes have been read: how many more it takes after the next one,
the range that the next one has to be in, and the bits collected so far. -/
structure PartialChar where
  remaining : Nat
  least : Nat
  greatest : Nat
  bits : Nat

/-- What the first byte of a character announces. -/
inductive LeadByte
  | whole (c : Char)
  | start (p : PartialChar)
  | malformed

/-- The first byte of a character by the ranges of the UTF-8 definition, which leave out overlong
forms, surrogates and code points above U+10FFFF. -/
def leadByte (b : Nat) : LeadByte :=
  if b < 0x80 then .whole (Char.ofNat b)
  else if b < 0xC2 then .malformed
  else if b < 0xE0 then .start ⟨0, 0x80, 0xBF, b - 0xC0⟩
  else if b < 0xF0 then
    .start ⟨1, if b = 0xE0 then 0xA0 else 0x80, if b = 0xED then 0x9F else 0xBF, b - 0xE0⟩
  else if b < 0xF5 then
    .start ⟨2, if b = 0xF0 then 0x90 else 0x80, if b = 0xF4 then 0x8F else 0xBF, b - 0xF0⟩
  else .malformed

/-- U+FFFD, which stands for what is not text. -/
def replacementChar : Char := '\uFFFD'

/-- A text being decoded: the characters so far and the one that is incomplete. -/
structure Decoding where
  text : String
  pending : Option PartialChar

/-- A byte at which a new character has to start. -/
def Decoding.startByte (text : String) (b : Nat) : Decoding :=
  match leadByte b with
  | .whole c => ⟨text.push c, none⟩
  | .start p => ⟨text, some p⟩
  | .malformed => ⟨text.push replacementChar, none⟩

/-- One more byte. One that cannot continue the pending character ends it as malformed and starts
the next. -/
def Decoding.step (d : Decoding) (byte : UInt8) : Decoding :=
  let b := byte.toNat
  match d.pending with
  | none => startByte d.text b
  | some p =>
    if p.least ≤ b ∧ b ≤ p.greatest then
      let bits := p.bits * 64 + (b - 0x80)
      match p.remaining with
      | 0 => ⟨d.text.push (Char.ofNat bits), none⟩
      | remaining + 1 => ⟨d.text, some ⟨remaining, 0x80, 0xBF, bits⟩⟩
    else startByte (d.text.push replacementChar) b

/-- The text at the end of the input: a character left incomplete counts as malformed. -/
def Decoding.finish (d : Decoding) : String :=
  if d.pending.isSome then d.text.push replacementChar else d.text

/-- The text in the bytes, U+FFFD standing for each malformed part. -/
def ofBytesLossy (bytes : List UInt8) : String :=
  (bytes.foldl Decoding.step ⟨"", none⟩).finish

end DosMonitor.Text
