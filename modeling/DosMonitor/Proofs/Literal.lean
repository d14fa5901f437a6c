import Mathlib
import DosMonitor.Proofs.Hexadecimal

/-!
# Numbers of a source line

`Literal w n` says what a number of a source line looks like and which value it has, without reading it:
`0b`, `0x` or nothing, then one digit or more of base two, sixteen or ten, with `n` as their value by
position (`Denotes`). Letters may be in either case and zeros may stand in front.

Main statement: of the words of a line, `number?` reads exactly these, as long as the value fits into
16 bits (`number?_eq_some_iff`).
-/

namespace DosMonitor.Text

/-- The character stands for the digit `d` of the base, in either case. -/
def IsDigitOf (base : Nat) (c : Char) (d : Nat) : Prop :=
  d < base ∧ (c = d.digitChar ∨ c = d.digitChar.toUpper)

/-- One digit or more of the base, with `n` as their value by position. -/
def Denotes (base : Nat) (s : List Char) (n : Nat) : Prop :=
  s ≠ [] ∧ ∃ ds, List.Forall₂ (IsDigitOf base) s ds ∧ Nat.ofDigits base ds.reverse = n

/-- The written forms of the number `n`. -/
inductive Literal : List Char → Nat → Prop
  | binary {b : Char} {s : List Char} {n : Nat} (hb : b = 'b' ∨ b = 'B') (h : Denotes 2 s n) :
      Literal ('0' :: b :: s) n
  | hexadecimal {x : Char} {s : List Char} {n : Nat} (hx : x = 'x' ∨ x = 'X') (h : Denotes 16 s n) :
      Literal ('0' :: x :: s) n
  | decimal {s : List Char} {n : Nat} (h : Denotes 10 s n) : Literal s n

/-! ## The case of letters -/

theorem toNat_toLower (c : Char) :
    c.toLower.toNat = if 65 ≤ c.toNat ∧ c.toNat ≤ 90 then c.toNat + 32 else c.toNat := by
  have hle : ∀ a : Char, a.val ≤ c.val ↔ a.toNat ≤ c.toNat := fun a => UInt32.le_iff_toNat_le
  have hge : ∀ a : Char, c.val ≤ a.val ↔ c.toNat ≤ a.toNat := fun a => UInt32.le_iff_toNat_le
  have hA : 'A'.toNat = 65 := rfl
  have hZ : 'Z'.toNat = 90 := rfl
  have hshift : ('a'.val - 'A'.val).toNat = 32 := rfl
  unfold Char.toLower
  simp only [ge_iff_le, hle, hge, hA, hZ]
  split_ifs with h
  · show (c.val + ('a'.val - 'A'.val)).toNat = c.toNat + 32
    rw [UInt32.toNat_add, hshift, Char.toNat_val]
    omega
  · rfl

theorem toLower_eq_iff {c low high : Char} (h : 97 ≤ low.toNat) (h' : low.toNat ≤ 122)
    (hhigh : high.toNat + 32 = low.toNat) : c.toLower = low ↔ c = low ∨ c = high := by
  rw [← Char.toNat_inj, ← Char.toNat_inj, ← Char.toNat_inj, toNat_toLower]
  split_ifs <;> omega

theorem toLower_eq_iff_of_lt {c a : Char} (ha : a.toNat < 65) : c.toLower = a ↔ c = a := by
  rw [← Char.toNat_inj, ← Char.toNat_inj, toNat_toLower]
  split_ifs <;> omega

theorem plus_notMem_lower {s : List Char} (hs : '+' ∉ s) : '+' ∉ lower s := by
  intro h
  obtain ⟨c, hc, hlower⟩ := List.mem_map.1 h
  exact hs ((toLower_eq_iff_of_lt (by decide)).1 hlower ▸ hc)

/-! ## Digits -/

theorem digitValue?_eq (c : Char) :
    digitValue? c =
      if 48 ≤ c.toNat ∧ c.toNat ≤ 57 then some (c.toNat - 48)
      else if 97 ≤ c.toNat ∧ c.toNat ≤ 122 then some (c.toNat - 87)
      else if 65 ≤ c.toNat ∧ c.toNat ≤ 90 then some (c.toNat - 55)
      else none := by
  simp only [digitValue?, Char.le_def, UInt32.le_iff_toNat_le, Char.toNat_val]
  rfl

theorem digitValue?_eq_some_iff {c : Char} {d : Nat} (hd : d < 16) :
    digitValue? c = some d ↔ c = d.digitChar ∨ c = d.digitChar.toUpper := by
  have codes : ∀ d : Fin 16, d.val.digitChar.toNat = (if d.val < 10 then 48 + d.val else 87 + d.val) ∧
      d.val.digitChar.toUpper.toNat = if d.val < 10 then 48 + d.val else 55 + d.val := by decide
  have hlow : d.digitChar.toNat = if d < 10 then 48 + d else 87 + d := (codes ⟨d, hd⟩).1
  have hhigh : d.digitChar.toUpper.toNat = if d < 10 then 48 + d else 55 + d := (codes ⟨d, hd⟩).2
  rw [← Char.toNat_inj, ← Char.toNat_inj, hlow, hhigh, digitValue?_eq]
  simp only [apply_ite (· = some d), Option.some.injEq, reduceCtorEq]
  split_ifs <;> first | omega | (rw [false_iff]; omega)

theorem digit?_eq_some_iff {base : Nat} (hbase : base ≤ 16) {c : Char} {d : Nat} :
    digit? base c = some d ↔ IsDigitOf base c d := by
  rw [digit?, Option.filter_eq_some_iff, decide_eq_true_eq, and_comm]
  exact and_congr_right fun hd => digitValue?_eq_some_iff (Nat.lt_of_lt_of_le hd hbase)

theorem digitValue?_toLower (c : Char) : digitValue? c.toLower = digitValue? c := by
  rw [digitValue?_eq, digitValue?_eq, toNat_toLower]
  split_ifs <;> first | omega | exact congrArg some (by omega) | rfl

theorem readDigits_lower (base n : Nat) (s : List Char) :
    readDigits base n (lower s) = readDigits base n s := by
  induction s generalizing n with
  | nil => rfl
  | cons c s ih =>
    have hdigit : digit? base c.toLower = digit? base c := by rw [digit?, digitValue?_toLower, digit?]
    change readDigits base n (c.toLower :: lower s) = _
    rw [readDigits, readDigits, hdigit]
    cases digit? base c with
    | none => rfl
    | some d => exact ih _

/-- Digits continue a number `m` by their value, after it has been shifted by their count. -/
theorem readDigits_eq_some_iff {base : Nat} (hbase : base ≤ 16) {m n : Nat} {s : List Char} :
    readDigits base m s = some n ↔
      ∃ ds, List.Forall₂ (IsDigitOf base) s ds ∧
        m * base ^ ds.length + Nat.ofDigits base ds.reverse = n := by
  induction s generalizing m with
  | nil => simp [readDigits]
  | cons c s ih =>
    have shift : ∀ (d : Nat) (ds : List Nat),
        m * base ^ (d :: ds).length + Nat.ofDigits base (d :: ds).reverse =
          (m * base + d) * base ^ ds.length + Nat.ofDigits base ds.reverse := fun d ds => by
      rw [List.reverse_cons, Nat.ofDigits_append, Nat.ofDigits_singleton, List.length_reverse,
        List.length_cons]
      ring
    rw [readDigits]
    constructor
    · intro h
      cases hd : digit? base c with
      | none => rw [hd] at h; cases h
      | some d =>
        rw [hd] at h
        obtain ⟨ds, hds, hn⟩ := ih.1 h
        exact ⟨d :: ds, .cons ((digit?_eq_some_iff hbase).1 hd) hds, (shift d ds).trans hn⟩
    · rintro ⟨ds, hds, hn⟩
      cases hds with
      | @cons _ d _ ds hd hds =>
        rw [(digit?_eq_some_iff hbase).2 hd]
        exact ih.2 ⟨ds, hds, (shift d ds).symm.trans hn⟩

/-! ## Numbers of 16 bits -/

theorem readUnsigned_eq_some_iff {base limit n : Nat} (hbase : base ≤ 16) {s : List Char}
    (hs : '+' ∉ s) : readUnsigned base limit s = some n ↔ Denotes base s n ∧ n < limit := by
  have hunsigned : unsigned s = s := by
    unfold unsigned
    split
    · simp at hs
    · rfl
  rw [readUnsigned, hunsigned, Denotes]
  cases s with
  | nil => simp
  | cons c s =>
    dsimp only
    rw [Option.filter_eq_some_iff, decide_eq_true_eq, readDigits_eq_some_iff hbase]
    simp

theorem readWord_eq_some_iff {base : Nat} (hbase : base ≤ 16) {s : List Char} (hs : '+' ∉ s)
    {v : UInt16} :
    (readUnsigned base 0x10000 (lower s)).map UInt16.ofNat = some v ↔ Denotes base s v.toNat := by
  have hlower : ∀ n, Denotes base (lower s) n ↔ Denotes base s n := fun n => by
    have hread : (∃ ds, List.Forall₂ (IsDigitOf base) (lower s) ds ∧
        Nat.ofDigits base ds.reverse = n) ↔
        ∃ ds, List.Forall₂ (IsDigitOf base) s ds ∧ Nat.ofDigits base ds.reverse = n := by
      have hzero := readDigits_eq_some_iff hbase (m := 0) (n := n) (s := lower s)
      rw [readDigits_lower, readDigits_eq_some_iff hbase] at hzero
      simpa using hzero.symm
    rw [Denotes, Denotes, hread, lower, Ne, List.map_eq_nil_iff]
  rw [Option.map_eq_some_iff]
  simp only [readUnsigned_eq_some_iff hbase (plus_notMem_lower hs), hlower]
  constructor
  · rintro ⟨n, ⟨h, hn⟩, rfl⟩
    rwa [UInt16.toNat_ofNat', Nat.mod_eq_of_lt hn]
  · intro h
    exact ⟨v.toNat, ⟨h, v.toNat_lt⟩, UInt16.ofNat_toNat⟩

/-- A decimal number does not look like one with a prefix. -/
theorem not_denotes_ten {c : Char} (hc : 57 < c.toNat) {s : List Char} {n : Nat} :
    ¬Denotes 10 ('0' :: c :: s) n := by
  have codes : ∀ d : Fin 10, d.val.digitChar.toNat ≤ 57 ∧ d.val.digitChar.toUpper.toNat ≤ 57 := by
    decide
  rintro ⟨-, ds, hds, -⟩
  cases hds with
  | cons _ hds =>
    cases hds with
    | @cons _ d _ _ hd _ =>
      obtain ⟨hlow, hhigh⟩ := codes ⟨d, hd.1⟩
      rcases hd.2 with rfl | rfl
      · exact absurd hlow (Nat.not_le.2 hc)
      · exact absurd hhigh (Nat.not_le.2 hc)

/-! ### The three forms -/

theorem dropStart?_lower_eq_some_iff {low high : Char} (h : 97 ≤ low.toNat) (h' : low.toNat ≤ 122)
    (hhigh : high.toNat + 32 = low.toNat) {w rest : List Char} :
    dropStart? ['0', low] (lower w) = some rest ↔
      ∃ c s, (c = low ∨ c = high) ∧ w = '0' :: c :: s ∧ rest = lower s := by
  rw [dropStart?_eq_some_iff]
  constructor
  · intro hw
    obtain ⟨z, w', rfl, hz, hw'⟩ := List.map_eq_cons_iff.1 hw
    obtain ⟨c, s, rfl, hc, hs⟩ := List.map_eq_cons_iff.1 hw'
    have hzero : z = '0' := (toLower_eq_iff_of_lt (by decide)).1 hz
    exact ⟨c, s, (toLower_eq_iff h h' hhigh).1 hc, by rw [hzero], hs.symm⟩
  · rintro ⟨c, s, hc, rfl, rfl⟩
    have hlower : c.toLower = low := (toLower_eq_iff h h' hhigh).2 hc
    show '0' :: c.toLower :: lower s = _
    rw [hlower]
    rfl

theorem literal_binary_iff {c : Char} (hc : c = 'b' ∨ c = 'B') {s : List Char} {n : Nat} :
    Literal ('0' :: c :: s) n ↔ Denotes 2 s n := by
  constructor
  · intro h
    cases h with
    | binary _ h => exact h
    | hexadecimal hx _ => exact absurd hx (by rcases hc with rfl | rfl <;> decide)
    | decimal h => exact absurd h (not_denotes_ten (by rcases hc with rfl | rfl <;> decide))
  · exact .binary hc

theorem literal_hexadecimal_iff {c : Char} (hc : c = 'x' ∨ c = 'X') {s : List Char} {n : Nat} :
    Literal ('0' :: c :: s) n ↔ Denotes 16 s n := by
  constructor
  · intro h
    cases h with
    | binary hb _ => exact absurd hb (by rcases hc with rfl | rfl <;> decide)
    | hexadecimal _ h => exact h
    | decimal h => exact absurd h (not_denotes_ten (by rcases hc with rfl | rfl <;> decide))
  · exact .hexadecimal hc

/-- **Of the words of a line, the numbers are the written forms of 16-bit values.** No word holds a plus
sign, which a number could begin with elsewhere. -/
theorem number?_eq_some_iff {w : List Char} (hw : '+' ∉ w) {v : UInt16} :
    number? w = some v ↔ Literal w v.toNat := by
  have tail : ∀ {a b : Char} {s : List Char}, w = a :: b :: s → '+' ∉ s := by
    rintro a b s rfl hs
    exact hw (List.mem_cons_of_mem _ (List.mem_cons_of_mem _ hs))
  have hbinary := @dropStart?_lower_eq_some_iff 'b' 'B' (by decide) (by decide) rfl w
  have hhexadecimal := @dropStart?_lower_eq_some_iff 'x' 'X' (by decide) (by decide) rfl w
  unfold number?
  dsimp only
  cases hb : dropStart? ['0', 'b'] (lower w) with
  | some rest =>
    obtain ⟨c, s, hc, hws, rfl⟩ := hbinary.1 hb
    rw [readWord_eq_some_iff (by decide) (tail hws), hws, literal_binary_iff hc]
  | none =>
    cases hx : dropStart? ['0', 'x'] (lower w) with
    | some rest =>
      obtain ⟨c, s, hc, hws, rfl⟩ := hhexadecimal.1 hx
      rw [readWord_eq_some_iff (by decide) (tail hws), hws, literal_hexadecimal_iff hc]
    | none =>
      rw [readWord_eq_some_iff (by decide) hw]
      refine ⟨.decimal, fun h => ?_⟩
      cases h with
      | binary hc h => exact absurd (hbinary.2 ⟨_, _, hc, rfl, rfl⟩) (by simp [hb])
      | hexadecimal hc h => exact absurd (hhexadecimal.2 ⟨_, _, hc, rfl, rfl⟩) (by simp [hx])
      | decimal h => exact h

end DosMonitor.Text
