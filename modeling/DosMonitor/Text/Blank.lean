import DosMonitor.Text.Letters

/-!
# Blank characters

A character is blank when it has the Unicode property `White_Space`. Lines are trimmed, split into
words and cut at their first blank by this class, everywhere in the monitor.

Main statements: trimming removes blanks only (`isBlank_of_mem_takeWhile`), and what is left starts with
no blank (`head?_trimStart`).
-/

namespace DosMonitor.Text

/-- First and last code points of the ranges of `White_Space`. -/
def blankRanges : List (Nat × Nat) :=
  [(0x0009, 0x000D), (0x0020, 0x0020), (0x0085, 0x0085), (0x00A0, 0x00A0), (0x1680, 0x1680),
   (0x2000, 0x200A), (0x2028, 0x2029), (0x202F, 0x202F), (0x205F, 0x205F), (0x3000, 0x3000)]

/-- Whether the character has the property `White_Space`. -/
def isBlank (c : Char) : Bool :=
  blankRanges.any fun range => range.1 ≤ c.toNat && c.toNat ≤ range.2

/-- The text from its first character that is not blank. -/
def trimStart (s : List Char) : List Char :=
  s.dropWhile isBlank

/-- The text up to its last character that is not blank. -/
def trimEnd (s : List Char) : List Char :=
  (s.reverse.dropWhile isBlank).reverse

/-- The text without the blanks at its two ends. -/
def trim (s : List Char) : List Char :=
  trimEnd (trimStart s)

/-- The text without any of its blanks. -/
def squeeze (s : List Char) : List Char :=
  s.filter fun c => !isBlank c

/-- A word put in front of a list of words, unless it is empty. -/
def consWord (word : List Char) (words : List (List Char)) : List (List Char) :=
  if word.isEmpty then words else word :: words

/-- One more character in front of a text of which the first word and the further words are known. -/
def growWords (c : Char) (state : List Char × List (List Char)) : List Char × List (List Char) :=
  if isBlank c then ([], consWord state.1 state.2) else (c :: state.1, state.2)

/-- The maximal runs of characters that are not blank, in order. -/
def words (s : List Char) : List (List Char) :=
  let state := s.foldr growWords ([], [])
  consWord state.1 state.2

/-- The text before the first blank and the text after it; nothing after it where there is none. -/
def cutAtBlank (s : List Char) : List Char × List Char :=
  (s.takeWhile fun c => !isBlank c, (s.dropWhile fun c => !isBlank c).drop 1)

/-- What follows the first `n` words, without the blanks in front of it. -/
def dropWords : Nat → List Char → List Char
  | 0, s => trimStart s
  | n + 1, s => dropWords n ((trimStart s).dropWhile fun c => !isBlank c)

theorem isBlank_of_mem_takeWhile {s : List Char} {c : Char} (h : c ∈ s.takeWhile isBlank) :
    isBlank c = true := by
  induction s with
  | nil => simp at h
  | cons d s ih =>
    by_cases hd : isBlank d
    · simp only [List.takeWhile_cons, hd, if_true, List.mem_cons] at h
      rcases h with rfl | h
      · exact hd
      · exact ih h
    · simp [hd] at h

theorem head?_trimStart {s : List Char} {c : Char} (h : (trimStart s).head? = some c) :
    isBlank c = false := by
  induction s with
  | nil => simp [trimStart] at h
  | cons d s ih =>
    by_cases hd : isBlank d
    · exact ih (by simpa [trimStart, hd] using h)
    · simp only [trimStart, List.dropWhile_cons, hd] at h
      simp only [Bool.false_eq_true, if_false, List.head?_cons, Option.some.injEq] at h
      simpa [h] using hd

theorem not_isBlank_of_mem_squeeze {s : List Char} {c : Char} (h : c ∈ squeeze s) :
    isBlank c = false := by
  simpa using (List.mem_filter.1 h).2

@[simp] theorem isBlank_toUpper (c : Char) : isBlank c.toUpper = isBlank c := by
  unfold Char.toUpper
  split
  · rename_i h
    have hlow : 97 ≤ c.val.toNat := h.1
    have hhigh : c.val.toNat ≤ 122 := h.2
    have hshift : ('A'.val - 'a'.val).toNat = 4294967264 := by decide
    have hsmall : isBlank c = false := by
      simp only [isBlank, blankRanges, List.any_cons, List.any_nil, Char.toNat]
      simp only [Bool.or_false, Bool.or_eq_false_iff, Bool.and_eq_false_iff, decide_eq_false_iff_not]
      omega
    rw [hsmall]
    simp only [isBlank, blankRanges, List.any_cons, List.any_nil, Char.toNat, UInt32.toNat_add, hshift]
    simp only [Bool.or_false, Bool.or_eq_false_iff, Bool.and_eq_false_iff, decide_eq_false_iff_not]
    omega
  · rfl

theorem squeeze_upper (s : List Char) : squeeze (upper s) = upper (squeeze s) := by
  simp [squeeze, upper, List.filter_map, Function.comp_def]

@[simp] theorem squeeze_squeeze (s : List Char) : squeeze (squeeze s) = squeeze s := by
  simp [squeeze]

end DosMonitor.Text
