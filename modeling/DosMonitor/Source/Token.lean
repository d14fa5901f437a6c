import DosMonitor.Text.Blank
import DosMonitor.Register
import DosMonitor.Error

/-!
# Tokens of a source line

A source line is cut at its comment and grouped into maximal runs of word characters and single other
characters (`pieces`). Blanks fall away, a comma is a token, a word is an opcode, a register, a
number or some other word, and any other character is an error. Each token knows the column at which
it stands, counted in characters from one.

Main statement: grouping loses nothing (`flatMap_chars_pieces`).
-/

namespace DosMonitor

/-- What a token is. -/
inductive TokenKind
  | opcode (op : Opcode)
  | register (r : Register)
  | number (value : UInt16)
  | comma
  /-- A word that is neither an opcode nor a register. -/
  | word
  deriving DecidableEq, Repr

/-- A token with its text and the column of its first character, counted from one. -/
structure Token where
  kind : TokenKind
  text : String
  column : Nat
  deriving DecidableEq, Repr

namespace Source

/-- The line up to its comment, which a semicolon starts. -/
def code (line : List Char) : List Char :=
  line.takeWhile (· != ';')

/-- A part of a line: a maximal run of word characters, or one other character. -/
inductive Piece
  | word (chars : List Char)
  | other (c : Char)
  deriving DecidableEq, Repr

def Piece.chars : Piece → List Char
  | word chars => chars
  | other c => [c]

/-- Puts one more character in front of a line that has been cut into parts. -/
def consPiece (c : Char) (rest : List Piece) : List Piece :=
  if Text.isWordChar c then
    match rest with
    | .word chars :: rest => .word (c :: chars) :: rest
    | rest => .word [c] :: rest
  else .other c :: rest

def pieces (line : List Char) : List Piece :=
  line.foldr consPiece []

/-- What a word is. One that starts with a digit has to be a number of 16 bits. -/
def wordKind? (chars : List Char) : Option TokenKind :=
  if chars.head?.any Char.isDigit then (Text.number? chars).map .number
  else
    match Opcode.ofName? chars, Register.ofName? chars with
    | some op, _ => some (.opcode op)
    | none, some r => some (.register r)
    | none, none => some .word

/-- The tokens of the parts of a line, the first of which stands at `column`. -/
def tokensAt : (column : Nat) → List Piece → Except ParseError (List Token)
  | _, [] => .ok []
  | column, .word chars :: rest =>
    match wordKind? chars with
    | some kind => do
      let tokens ← tokensAt (column + chars.length) rest
      return ⟨kind, .ofList chars, column⟩ :: tokens
    | none => .error (.invalidOperand (.ofList chars) column)
  | column, .other c :: rest =>
    if Text.isBlank c then tokensAt (column + 1) rest
    else if c == ',' then do
      let tokens ← tokensAt (column + 1) rest
      return ⟨.comma, ",", column⟩ :: tokens
    else .error (.unexpectedToken (.ofList [c]) column)

/-- The tokens of a source line, its comment left out. -/
def tokens (line : List Char) : Except ParseError (List Token) :=
  tokensAt 1 (pieces (code line))

theorem chars_consPiece (c : Char) (rest : List Piece) :
    (consPiece c rest).flatMap Piece.chars = c :: rest.flatMap Piece.chars := by
  unfold consPiece
  split
  · split <;> simp [Piece.chars]
  · simp [Piece.chars]

theorem flatMap_chars_pieces (line : List Char) : (pieces line).flatMap Piece.chars = line := by
  induction line with
  | nil => rfl
  | cons c line ih => rw [pieces, List.foldr_cons, chars_consPiece, ← pieces, ih]

end Source

end DosMonitor
