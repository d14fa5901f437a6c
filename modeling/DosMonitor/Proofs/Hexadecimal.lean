import Mathlib
import DosMonitor.Text.Numeral

/-!
# Hexadecimal numbers read back

What is written in hexadecimal is read back as the number it was written from.

Main statements: the digits of `hexFixed` denote the number (`readDigits_hexFixed`), so what
`hexChars` writes is read back by `readUnsigned` (`readUnsigned_hexChars`), and it has exactly
`width` characters where the number fits into them (`length_hexChars`).
-/

namespace DosMonitor.Text

@[simp] theorem length_hexFixed (width n : Nat) : (hexFixed width n).length = width := by
  induction width generalizing n with
  | zero => rfl
  | succ width ih => simp [hexFixed, ih]

theorem digit?_hexDigit {d : Nat} (h : d < 16) : digit? 16 (hexDigit d) = some d := by
  have all : ∀ d : Fin 16, digit? 16 (hexDigit d) = some d.val := by decide
  exact all ⟨d, h⟩

theorem readDigits_append (base n : Nat) (s t : List Char) :
    readDigits base n (s ++ t) = (readDigits base n s).bind fun m => readDigits base m t := by
  induction s generalizing n with
  | nil => rfl
  | cons c s ih =>
    simp only [List.cons_append, readDigits]
    cases digit? base c <;> simp [ih]

theorem readDigits_hexFixed (width n m : Nat) :
    readDigits 16 m (hexFixed width n) = some (m * 16 ^ width + n % 16 ^ width) := by
  induction width generalizing n with
  | zero => simp [hexFixed, readDigits, Nat.mod_one]
  | succ width ih =>
    have hd : n % 16 < 16 := Nat.mod_lt _ (by decide)
    have hmod : n % 16 ^ (width + 1) = n % 16 + 16 * (n / 16 % 16 ^ width) := by
      rw [Nat.pow_succ, Nat.mul_comm (16 ^ width) 16, Nat.mod_mul]
    simp only [hexFixed, readDigits_append, ih, Option.bind_some, readDigits, digit?_hexDigit hd,
      Option.some.injEq]
    rw [hmod, Nat.pow_succ]
    have hmul : m * (16 ^ width * 16) = m * 16 ^ width * 16 := (Nat.mul_assoc ..).symm
    omega

theorem lt_pow_hexWidth (n : Nat) : n < 16 ^ hexWidth n := by
  have h : n < 2 ^ (n.log2 + 1) := Nat.lt_log2_self
  have hle : 2 ^ (n.log2 + 1) ≤ 2 ^ (4 * hexWidth n) :=
    Nat.pow_le_pow_right (by decide) (by unfold hexWidth; omega)
  have hpow : (16 : Nat) ^ hexWidth n = 2 ^ (4 * hexWidth n) := by
    rw [show (16 : Nat) = 2 ^ 4 from rfl, Nat.pow_mul]
  omega

theorem hexWidth_le {n width : Nat} (hpos : 0 < width) (h : n < 16 ^ width) :
    hexWidth n ≤ width := by
  unfold hexWidth
  by_cases hn : n = 0
  · subst hn
    exact hpos
  · have hpow : (16 : Nat) ^ width = 2 ^ (4 * width) := by
      rw [show (16 : Nat) = 2 ^ 4 from rfl, Nat.pow_mul]
    have : n.log2 < 4 * width := (Nat.log2_lt hn).2 (hpow ▸ h)
    omega

theorem length_hexChars {n width : Nat} (hpos : 0 < width) (h : n < 16 ^ width) :
    (hexChars width n).length = width := by
  simp [hexChars, Nat.max_eq_left (hexWidth_le hpos h)]

theorem readDigits_hexChars (width n : Nat) : readDigits 16 0 (hexChars width n) = some n := by
  have hle : 16 ^ hexWidth n ≤ 16 ^ max width (hexWidth n) :=
    Nat.pow_le_pow_right (by decide) (Nat.le_max_right ..)
  have hlt : n < 16 ^ max width (hexWidth n) := Nat.lt_of_lt_of_le (lt_pow_hexWidth n) hle
  simp [hexChars, readDigits_hexFixed, Nat.mod_eq_of_lt hlt]

theorem hexFixed_cons (width n : Nat) :
    ∃ d s, d < 16 ∧ hexFixed (width + 1) n = hexDigit d :: s := by
  induction width generalizing n with
  | zero => exact ⟨n % 16, [], Nat.mod_lt _ (by decide), rfl⟩
  | succ width ih =>
    obtain ⟨d, s, hd, hs⟩ := ih (n / 16)
    exact ⟨d, s ++ [hexDigit (n % 16)], hd, by rw [hexFixed, hs, List.cons_append]⟩

theorem exists_hexDigit_of_mem_hexFixed {width n : Nat} {c : Char} (h : c ∈ hexFixed width n) :
    ∃ d : Fin 16, hexDigit d = c := by
  induction width generalizing n with
  | zero => cases h
  | succ width ih =>
    rcases List.mem_append.1 h with h | h
    · exact ih h
    · exact ⟨⟨n % 16, Nat.mod_lt _ (by decide)⟩, (List.mem_singleton.1 h).symm⟩

theorem unsigned_hexDigit_cons {d : Nat} (h : d < 16) (s : List Char) :
    unsigned (hexDigit d :: s) = hexDigit d :: s := by
  have all : ∀ d : Fin 16, hexDigit d ≠ '+' := by decide
  unfold unsigned
  split
  · rename_i heq
    exact absurd (List.cons.inj heq).1 (all ⟨d, h⟩)
  · rfl

/-- A number written in hexadecimal is read back, whatever the padding. -/
theorem readUnsigned_hexChars {width limit n : Nat} (h : n < limit) :
    readUnsigned 16 limit (hexChars width n) = some n := by
  have hread := readDigits_hexChars width n
  obtain ⟨d, s, hd, hs⟩ := hexFixed_cons (max width (hexWidth n) - 1) n
  have hcons : hexChars width n = hexDigit d :: s := by
    have hpos : max width (hexWidth n) - 1 + 1 = max width (hexWidth n) := by
      unfold hexWidth
      omega
    rw [hexChars, ← hs, hpos]
  rw [hcons] at hread ⊢
  simp [readUnsigned, unsigned_hexDigit_cons hd, hread, h]

end DosMonitor.Text
