/-!
# Letters, digits and the case of names

Names of registers, flags, opcodes, labels and commands are compared without regard to the case of
the 26 ASCII letters, and no other character has a case here. `sameName` is that comparison;
`sameName_iff` reduces it to an equality of lower-case spellings, from which it inherits being an
equivalence.
-/

namespace DosMonitor.Text

/-- The characters of which a word of a source line is made: ASCII letters and digits, and `_`. -/
def isWordChar (c : Char) : Bool :=
  c.isAlphanum || c == '_'

/-- Every ASCII letter in upper case, all other characters as they are. -/
def upper (s : List Char) : List Char :=
  s.map Char.toUpper

/-- Every ASCII letter in lower case, all other characters as they are. -/
def lower (s : List Char) : List Char :=
  s.map Char.toLower

/-- Two spellings of one name: they differ at most in the case of ASCII letters. -/
def sameName (s t : List Char) : Bool :=
  lower s == lower t

theorem sameName_iff {s t : List Char} : sameName s t = true ↔ lower s = lower t := by
  simp [sameName]

@[simp] theorem sameName_refl (s : List Char) : sameName s s = true := by
  simp [sameName]

@[simp] theorem toUpper_toUpper (c : Char) : c.toUpper.toUpper = c.toUpper := by
  unfold Char.toUpper
  split
  · rename_i h
    split
    · rename_i h'
      exfalso
      have hlow : 97 ≤ c.val.toNat := h.1
      have hhigh : c.val.toNat ≤ 122 := h.2
      have hsum := h'.1
      have hshift : ('A'.val - 'a'.val).toNat = 4294967264 := by decide
      have ha : ('a'.val).toNat = 97 := by decide
      simp only [UInt32.le_iff_toNat_le, UInt32.toNat_add, hshift, ha] at hsum
      omega
    · rfl
  · rfl

@[simp] theorem upper_upper (s : List Char) : upper (upper s) = upper s := by
  simp [upper, Function.comp_def]

/-- What is left of `s` after `start`, when `s` begins with it. -/
def dropStart? : (start s : List Char) → Option (List Char)
  | [], s => some s
  | _ :: _, [] => none
  | a :: start, c :: s => if a == c then dropStart? start s else none

/-- What stands before `last`, when `s` ends with that character. -/
def dropLast? (last : Char) (s : List Char) : Option (List Char) :=
  if s.getLast? == some last then some s.dropLast else none

theorem dropStart?_eq_some_iff {start s rest : List Char} :
    dropStart? start s = some rest ↔ s = start ++ rest := by
  induction start generalizing s with
  | nil => simp [dropStart?, eq_comm]
  | cons a start ih =>
    cases s with
    | nil => simp [dropStart?]
    | cons c s =>
      by_cases h : a = c
      · simp [dropStart?, h, ih]
      · simp [dropStart?, h, Ne.symm h]

theorem dropLast?_eq_some_iff {last : Char} {s rest : List Char} :
    dropLast? last s = some rest ↔ s = rest ++ [last] := by
  unfold dropLast?
  by_cases h : s.getLast? = some last
  · obtain ⟨init, rfl⟩ := List.getLast?_eq_some_iff.1 h
    simp [eq_comm]
  · simp only [beq_iff_eq, h, if_false]
    constructor
    · simp
    · rintro rfl
      simp at h

end DosMonitor.Text
