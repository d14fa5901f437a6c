import Mathlib
import DosMonitor.Execution.Execute
import DosMonitor.Memory.Paged

/-!
# What arithmetic and logic instructions compute

Fourteen opcodes work on registers alone. `Computes` has one law for each of them: an equation over the
integers (for the bitwise ones, an equation for each bit) between the old value of the destination, the
source, the new value and the carry, and what the flags are afterwards.

An instruction gives its destination an `Effect` of the two values (`execute_unary`, `execute_binary`).
Each effect is shown to obey the law of its opcode first, from the two facts that carries stand for:
what the top bit (`toNat_topBit`) and the bottom bit (`toNat_bottomBit`) of a word are as numbers.
`execute_computes` joins the two and adds that nothing else has changed.
-/

namespace DosMonitor

/-! ## The laws -/

/-- The number of ones in the low byte. -/
def lowOnes (r : UInt16) : Nat :=
  (Nat.digits 2 (r.toNat % 0x100)).count 1

/-- Zero, sign and parity are those of a result. -/
structure Flags.Follow (f : Flags) (r : UInt16) : Prop where
  zero : f.zf = true ↔ r = 0
  sign : f.sf = true ↔ 0x8000 ≤ r.toNat
  parity : f.pf = true ↔ Even (lowOnes r)

section Laws
variable (a b : UInt16) (f : Flags) (r : UInt16) (f' : Flags)

/-- What an opcode makes of the old value `a` of its destination, the source `b` and the flags `f`: the
new value `r` and the flags `f'`. -/
inductive Computes : Opcode → Prop
  | mov (value : r = b) (flags : f' = f) : Computes .mov
  | add (value : (a.toNat + b.toNat : ℤ) = r.toNat + 65536 * f'.cf.toNat) (flags : f'.Follow r) :
      Computes .add
  | sub (value : (a.toNat + 65536 * f'.cf.toNat : ℤ) = b.toNat + r.toNat) (flags : f'.Follow r) :
      Computes .sub
  | and (value : ∀ k, r.toNat.testBit k = (a.toNat.testBit k && b.toNat.testBit k))
      (carry : f'.cf = false) (flags : f'.Follow r) : Computes .and
  | or (value : ∀ k, r.toNat.testBit k = (a.toNat.testBit k || b.toNat.testBit k))
      (carry : f'.cf = false) (flags : f'.Follow r) : Computes .or
  | xor (value : ∀ k, r.toNat.testBit k = (a.toNat.testBit k ^^ b.toNat.testBit k))
      (carry : f'.cf = false) (flags : f'.Follow r) : Computes .xor
  | not (value : (r.toNat : ℤ) = 65535 - a.toNat) (flags : f' = f) : Computes .not
  | neg (value : (65536 * f'.cf.toNat : ℤ) = a.toNat + r.toNat) (flags : f'.Follow r) : Computes .neg
  | inc (value : (r.toNat : ℤ) = (a.toNat + 1) % 65536) (carry : f'.cf = f.cf) (flags : f'.Follow r) :
      Computes .inc
  | dec (value : (r.toNat : ℤ) = (a.toNat - 1) % 65536) (carry : f'.cf = f.cf) (flags : f'.Follow r) :
      Computes .dec
  | shl (value : (2 * a.toNat : ℤ) = r.toNat + 65536 * f'.cf.toNat) (flags : f'.Follow r) :
      Computes .shl
  | shr (value : (a.toNat : ℤ) = 2 * r.toNat + f'.cf.toNat) (flags : f'.Follow r) : Computes .shr
  | rol (value : (r.toNat : ℤ) = 2 * a.toNat - 65535 * f'.cf.toNat) (flags : f'.Follow r) :
      Computes .rol
  | ror (value : (a.toNat : ℤ) = 2 * r.toNat - 65535 * f'.cf.toNat) (flags : f'.Follow r) :
      Computes .ror

end Laws

/-! ## Flags and results -/

theorem evenParity_of_lt : ∀ n < 0x100, evenParity n = true ↔ Even ((Nat.digits 2 n).count 1) := by
  decide +kernel

/-- The parity looks at the low byte alone. -/
theorem evenParity_mod (n : Nat) : evenParity (n % 0x100) = evenParity n := by
  unfold evenParity
  have hbits : ∀ i ∈ List.range 8, (n % 0x100).testBit i = n.testBit i := fun i hi => by
    have hlt : i < 8 := List.mem_range.1 hi
    rw [show 0x100 = 2 ^ 8 from rfl, Nat.testBit_mod_two_pow, decide_eq_true hlt, Bool.true_and]
  rw [List.countP_congr fun i hi => by rw [hbits i hi]]

theorem Flags.follow_ofResult (f : Flags) (value : Nat) (family : Option FlagFamily)
    (carry : Option Bool) : (f.ofResult value family carry).Follow (UInt16.ofNat value) where
  zero := by
    rw [← UInt16.toNat_inj]
    simp [ofResult]
  sign := by
    have hsign : value.testBit 15 = (value % 2 ^ 16).testBit 15 := by
      rw [Nat.testBit_mod_two_pow]
      simp
    change value.testBit 15 = true ↔ _
    rw [hsign, UInt16.toNat_ofNat', Nat.testBit_eq_decide_div_mod_eq, decide_eq_true_eq]
    omega
  parity := by
    have hbyte : (UInt16.ofNat value).toNat % 0x100 = value % 0x100 := by
      rw [UInt16.toNat_ofNat']
      omega
    rw [lowOnes, hbyte, ← evenParity_of_lt _ (Nat.mod_lt _ (by decide)), evenParity_mod]
    rfl

/-! ## Effects -/

namespace Effect

def flagsAfter (e : Effect) (f : Flags) : Flags :=
  match e.flags with
  | some (family, carry) => f.ofResult e.value (some family) carry
  | none => f

/-- The effect obeys the law of an opcode, for these two values. -/
def Obeys (e : Effect) (op : Opcode) (a b : UInt16) : Prop :=
  ∀ f, Computes a b f (UInt16.ofNat e.value) (e.flagsAfter f) op

variable (a b : UInt16)

theorem toNat_topBit : (topBit a).toNat = a.toNat / 0x8000 := by
  have ha := a.toNat_lt
  unfold topBit
  rw [Nat.testBit_eq_decide_div_mod_eq]
  by_cases h : a.toNat / 2 ^ 15 % 2 = 1
  · rw [decide_eq_true h, Bool.toNat_true]
    omega
  · rw [decide_eq_false h, Bool.toNat_false]
    omega

theorem toNat_bottomBit : (bottomBit a).toNat = a.toNat % 2 := by
  unfold bottomBit
  rw [Nat.testBit_zero]
  rcases Nat.mod_two_eq_zero_or_one a.toNat with h | h <;> simp [h]

theorem toNat_shl : (a <<< 1).toNat = 2 * a.toNat % 0x10000 := by
  simp [Nat.shiftLeft_eq, Nat.mul_comm]

theorem toNat_shr : (a >>> 1).toNat = a.toNat / 2 := by
  simp [Nat.shiftRight_eq_div_pow]

/-- The bit that comes back at the right is alone there. -/
theorem toNat_rol : (a <<< 1 ||| a >>> 15).toNat = 2 * a.toNat % 0x10000 + a.toNat / 0x8000 := by
  have ha := a.toNat_lt
  have hhigh : 2 * a.toNat % 0x10000 = (a.toNat % 0x8000) <<< 1 := by
    rw [Nat.shiftLeft_eq]
    omega
  have hlow : (a >>> 15).toNat = a.toNat / 0x8000 := by simp [Nat.shiftRight_eq_div_pow]
  rw [UInt16.toNat_or, toNat_shl, hlow, hhigh]
  exact (Nat.shiftLeft_add_eq_or_of_lt (by omega) _).symm

/-- The bit that comes back at the left is alone there. -/
theorem toNat_ror : (a >>> 1 ||| a <<< 15).toNat = a.toNat % 2 * 0x8000 + a.toNat / 2 := by
  have ha := a.toNat_lt
  have hhigh : (a <<< 15).toNat = (a.toNat % 2) <<< 15 := by
    rw [Nat.shiftLeft_eq]
    simp [Nat.shiftLeft_eq]
    omega
  rw [UInt16.toNat_or, toNat_shr, hhigh, Nat.or_comm,
    ← Nat.shiftLeft_add_eq_or_of_lt (by omega), Nat.shiftLeft_eq]

theorem obeys_mov : (plain b).Obeys .mov a b :=
  fun _ => .mov UInt16.ofNat_toNat rfl

theorem obeys_not : (not a).Obeys .not a b := by
  intro f
  refine .not ?_ rfl
  have ha := a.toNat_lt
  have hvalue : (~~~a).toNat = 65535 - a.toNat := UInt16.toNat_not a
  rw [not, plain, UInt16.ofNat_toNat, hvalue]
  omega

theorem obeys_add : (add a b).Obeys .add a b := by
  intro f
  refine .add ?_ (f.follow_ofResult (a.toNat + b.toNat) (some .add)
    (some (0xFFFF < a.toNat + b.toNat)))
  have ha := a.toNat_lt
  have hb := b.toNat_lt
  simp only [add, flagsAfter, Flags.ofResult, FlagFamily.definesCarry, if_true, UInt16.toNat_ofNat']
  by_cases h : 0xFFFF < a.toNat + b.toNat
  · rw [decide_eq_true h, Bool.toNat_true]
    omega
  · rw [decide_eq_false h, Bool.toNat_false]
    omega

/-- What is stored of a flagged effect is its value, and its carry is the one that it names. -/
theorem obeys_flagged {op : Opcode} {value : UInt16} {family : FlagFamily} {carry : Option Bool}
    (h : ∀ f f' : Flags, f'.Follow value →
      (f'.cf = match carry with
        | some c => if family.definesCarry then c else f.cf
        | none => f.cf) → Computes a b f value f' op) :
    (flagged value family carry).Obeys op a b := by
  intro f
  have hfollow := f.follow_ofResult value.toNat (some family) carry
  simp only [flagged, flagsAfter, UInt16.ofNat_toNat] at hfollow ⊢
  refine h f _ hfollow ?_
  cases carry <;> rfl

theorem obeys_sub : (sub a b).Obeys .sub a b := by
  refine obeys_flagged a b fun f f' hfollow hcarry => .sub ?_ hfollow
  have ha := a.toNat_lt
  have hb := b.toNat_lt
  simp only [FlagFamily.definesCarry, if_true] at hcarry
  rw [hcarry, UInt16.toNat_sub]
  by_cases h : a < b
  · rw [decide_eq_true h, Bool.toNat_true]
    rw [UInt16.lt_iff_toNat_lt] at h
    omega
  · rw [decide_eq_false h, Bool.toNat_false]
    rw [UInt16.lt_iff_toNat_lt] at h
    omega

theorem obeys_neg : (neg a).Obeys .neg a b := by
  refine obeys_flagged a b fun f f' hfollow hcarry => .neg ?_ hfollow
  have ha := a.toNat_lt
  simp only [FlagFamily.definesCarry, if_true] at hcarry
  rw [hcarry, UInt16.toNat_sub]
  by_cases h : a = 0
  · subst h
    rfl
  · have hpos : a.toNat ≠ 0 := fun h' => h (UInt16.toNat_inj.1 h')
    rw [bne_iff_ne.2 h, Bool.toNat_true]
    simp only [UInt16.toNat_zero]
    omega

theorem obeys_inc : (inc a).Obeys .inc a b := by
  refine obeys_flagged a b fun f f' hfollow hcarry => .inc ?_ hcarry hfollow
  rw [UInt16.toNat_add]
  simp

theorem obeys_dec : (dec a).Obeys .dec a b := by
  refine obeys_flagged a b fun f f' hfollow hcarry => .dec ?_ hcarry hfollow
  have ha := a.toNat_lt
  rw [UInt16.toNat_sub]
  simp only [UInt16.toNat_one]
  omega

theorem obeys_and : (bitwise (a &&& b)).Obeys .and a b :=
  obeys_flagged a b fun f f' hfollow hcarry =>
    .and (fun k => by rw [UInt16.toNat_and, Nat.testBit_and]) hcarry hfollow

theorem obeys_or : (bitwise (a ||| b)).Obeys .or a b :=
  obeys_flagged a b fun f f' hfollow hcarry =>
    .or (fun k => by rw [UInt16.toNat_or, Nat.testBit_or]) hcarry hfollow

theorem obeys_xor : (bitwise (a ^^^ b)).Obeys .xor a b :=
  obeys_flagged a b fun f f' hfollow hcarry =>
    .xor (fun k => by rw [UInt16.toNat_xor, Nat.testBit_xor]) hcarry hfollow

theorem obeys_shl : (shl a).Obeys .shl a b := by
  refine obeys_flagged a b fun f f' hfollow hcarry => .shl ?_ hfollow
  have ha := a.toNat_lt
  simp only [FlagFamily.definesCarry, if_true] at hcarry
  rw [hcarry, toNat_shl, toNat_topBit]
  omega

theorem obeys_shr : (shr a).Obeys .shr a b := by
  refine obeys_flagged a b fun f f' hfollow hcarry => .shr ?_ hfollow
  simp only [FlagFamily.definesCarry, if_true] at hcarry
  rw [hcarry, toNat_shr, toNat_bottomBit]
  omega

theorem obeys_rol : (rol a).Obeys .rol a b := by
  refine obeys_flagged a b fun f f' hfollow hcarry => .rol ?_ hfollow
  have ha := a.toNat_lt
  simp only [FlagFamily.definesCarry, if_true] at hcarry
  rw [hcarry, toNat_rol, toNat_topBit]
  omega

theorem obeys_ror : (ror a).Obeys .ror a b := by
  refine obeys_flagged a b fun f f' hfollow hcarry => .ror ?_ hfollow
  simp only [FlagFamily.definesCarry, if_true] at hcarry
  rw [hcarry, toNat_ror, toNat_bottomBit]
  omega

end Effect

/-! ## Instructions -/

section RegisterFile
variable (rf : RegisterFile) (d : Register) (e : Effect)

theorem RegisterFile.get_apply_self : (rf.apply d e).get d = UInt16.ofNat e.value := by
  unfold apply
  cases e.flags <;> simp

theorem RegisterFile.get_apply_ne {r : Register} (h : r ≠ d) : (rf.apply d e).get r = rf.get r := by
  unfold apply
  cases e.flags <;> simp [get_set_ne _ _ h]

theorem RegisterFile.flags_apply : (rf.apply d e).flags = e.flagsAfter rf.flags := by
  unfold apply Effect.flagsAfter
  rcases e.flags with _ | ⟨family, carry⟩ <;> rfl

end RegisterFile

/-- The value of the second operand; zero where there is none. -/
def Instruction.sourceValue (i : Instruction) (rf : RegisterFile) : UInt16 :=
  match i.operands[1]? with
  | some (Operand.register r) => rf.get r
  | some (Operand.immediate value) => value
  | none => 0

namespace Execution

variable {β : Type}

theorem computes_of_obeys {c : Context β} {op : Opcode} {d : Register} {b : UInt16} {e : Effect}
    {r : EStateM.Result Error (Context β) Outcome} (h : e.Obeys op (c.registers.get d) b)
    (hr : r = .ok .proceed { c with registers := c.registers.apply d e }) :
    ∃ rf, r = .ok .proceed { c with registers := rf } ∧
      Computes (c.registers.get d) b c.registers.flags (rf.get d) rf.flags op ∧
      ∀ s, s ≠ d → rf.get s = c.registers.get s := by
  refine ⟨_, hr, ?_, fun s hs => RegisterFile.get_apply_ne _ _ _ hs⟩
  rw [RegisterFile.get_apply_self, RegisterFile.flags_apply]
  exact h c.registers.flags

theorem computes_unary {op : Opcode} {operation : UInt16 → Effect}
    (h : ∀ a b, (operation a).Obeys op a b) (d : Register) (c : Context β) :
    ∃ rf, unary ⟨op, [.register d]⟩ operation c = .ok .proceed { c with registers := rf } ∧
      Computes (c.registers.get d) (Instruction.sourceValue ⟨op, [.register d]⟩ c.registers)
        c.registers.flags (rf.get d) rf.flags op ∧
      ∀ s, s ≠ d → rf.get s = c.registers.get s :=
  computes_of_obeys (h _ _) rfl

/-- The source is read before the destination is written, so the two may be one register. -/
theorem computes_binary {op : Opcode} {operation : UInt16 → UInt16 → Effect}
    (h : ∀ a b, (operation a b).Obeys op a b) (d : Register) (s : Operand) (c : Context β) :
    ∃ rf, binary ⟨op, [.register d, s]⟩ operation c = .ok .proceed { c with registers := rf } ∧
      Computes (c.registers.get d) (Instruction.sourceValue ⟨op, [.register d, s]⟩ c.registers)
        c.registers.flags (rf.get d) rf.flags op ∧
      ∀ s, s ≠ d → rf.get s = c.registers.get s := by
  refine computes_of_obeys (h _ _) ?_
  cases s <;> rfl

/-- **Instructions compute exactly.** A well-formed instruction that neither reaches memory nor calls a
service, with a register as its destination, succeeds; it obeys the law of its opcode and changes no
other register, nothing in memory and nothing on the console. -/
theorem execute_computes [Bus β] {i : Instruction} {d : Register}
    (hop : i.opcode ∉ [Opcode.push, .pop, .int]) (hi : i.WellFormed)
    (hd : i.operands.head? = some (.register d)) (c : Context β) :
    ∃ rf, execute i c = .ok .proceed { c with registers := rf } ∧
      Computes (c.registers.get d) (i.sourceValue c.registers) c.registers.flags (rf.get d) rf.flags
        i.opcode ∧
      ∀ s, s ≠ d → rf.get s = c.registers.get s := by
  obtain ⟨op, operands⟩ := i
  obtain ⟨rest, rfl⟩ : ∃ rest, operands = .register d :: rest := by
    cases operands with
    | nil => cases hd
    | cons first rest => exact ⟨rest, by rw [Option.some.inj hd]⟩
  have hone : op.operandCount = 1 → rest = [] := fun h => by
    rw [Instruction.WellFormed, h, List.length_cons] at hi
    exact List.length_eq_zero_iff.1 (by omega)
  have htwo : op.operandCount = 2 → ∃ s, rest = [s] := fun h => by
    rw [Instruction.WellFormed, h, List.length_cons] at hi
    exact List.length_eq_one_iff.1 (by omega)
  cases op with
  | mov =>
    obtain ⟨s, rfl⟩ := htwo rfl
    exact computes_binary Effect.obeys_mov d s c
  | add =>
    obtain ⟨s, rfl⟩ := htwo rfl
    exact computes_binary Effect.obeys_add d s c
  | sub =>
    obtain ⟨s, rfl⟩ := htwo rfl
    exact computes_binary Effect.obeys_sub d s c
  | and =>
    obtain ⟨s, rfl⟩ := htwo rfl
    exact computes_binary Effect.obeys_and d s c
  | or =>
    obtain ⟨s, rfl⟩ := htwo rfl
    exact computes_binary Effect.obeys_or d s c
  | xor =>
    obtain ⟨s, rfl⟩ := htwo rfl
    exact computes_binary Effect.obeys_xor d s c
  | not =>
    obtain rfl := hone rfl
    exact computes_unary Effect.obeys_not d c
  | neg =>
    obtain rfl := hone rfl
    exact computes_unary Effect.obeys_neg d c
  | inc =>
    obtain rfl := hone rfl
    exact computes_unary Effect.obeys_inc d c
  | dec =>
    obtain rfl := hone rfl
    exact computes_unary Effect.obeys_dec d c
  | shl =>
    obtain rfl := hone rfl
    exact computes_unary Effect.obeys_shl d c
  | shr =>
    obtain rfl := hone rfl
    exact computes_unary Effect.obeys_shr d c
  | rol =>
    obtain rfl := hone rfl
    exact computes_unary Effect.obeys_rol d c
  | ror =>
    obtain rfl := hone rfl
    exact computes_unary Effect.obeys_ror d c
  | push => simp at hop
  | pop => simp at hop
  | int => simp at hop

/-- A register added to itself, with a carry. -/
theorem execute_computes_doubling :
    let c : Context Memory :=
      ⟨RegisterFile.zero.set .ax 0x8000, Memory.ofPages 1, Console.ofInput []⟩
    let i : Instruction := ⟨.add, [.register .ax, .register .ax]⟩
    i.opcode ∉ [Opcode.push, .pop, .int] ∧ i.WellFormed ∧
      i.operands.head? = some (.register .ax) ∧
      ∃ rf, execute i c = .ok .proceed { c with registers := rf } ∧
        Computes 0x8000 0x8000 Flags.clear (rf.get .ax) rf.flags .add ∧
        ∀ s, s ≠ .ax → rf.get s = c.registers.get s := by
  intro c i
  have hop : i.opcode ∉ [Opcode.push, .pop, .int] := by decide
  have hi : i.WellFormed := by decide
  exact ⟨hop, hi, rfl, execute_computes hop hi rfl c⟩

end Execution

end DosMonitor
