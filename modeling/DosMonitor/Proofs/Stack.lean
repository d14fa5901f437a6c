import Mathlib
import DosMonitor.Proofs.Arithmetic
import DosMonitor.Proofs.Atomicity

/-!
# The stack is last-in first-out

PUSH and POP move words between registers and the active page, where the stack grows downwards from
wherever SP stands and wraps at the end of the page. A sequence of instructions is well nested
(`Nests`) if no POP takes a word that the sequence has not pushed and no PUSH goes beyond a limit.

The invariant ties the height of the stack to SP, and confines all writes to the words between the floor
below which the sequence does not pop and its limit (`Nests.keeps`). As long as the limit is 32768 words
the page has room for all of them, so what is pushed is still there when its POP comes (`pop_delivers`).
-/

namespace DosMonitor

/-! ## Words of the active page -/

/-- The place so many bytes further down than the one just below `s`. -/
def beneath (s : UInt16) (k : Nat) : UInt16 :=
  s - 1 - UInt16.ofNat k

theorem toNat_beneath (s : UInt16) {k : Nat} (h : k < 0x10000) :
    (beneath s k).toNat = (s.toNat + 0x1FFFF - k) % 0x10000 := by
  have hs := s.toNat_lt
  have hk : (UInt16.ofNat k).toNat = k := UInt16.toNat_ofNat_of_lt' h
  rw [beneath, UInt16.toNat_sub, UInt16.toNat_sub, hk, UInt16.toNat_one]
  omega

/-- Over the whole page all these places are different. -/
theorem beneath_inj {s : UInt16} {j k : Nat} (hj : j < 0x10000) (hk : k < 0x10000)
    (h : beneath s j = beneath s k) : j = k := by
  have hs := s.toNat_lt
  have hplaces := congrArg UInt16.toNat h
  rw [toNat_beneath s hj, toNat_beneath s hk] at hplaces
  omega

theorem beneath_add_one (s : UInt16) (k : Nat) : beneath s (k + 1) + 1 = beneath s k := by
  unfold beneath
  rw [UInt16.ofNat_add]
  grind

/-- The stack pointer after so many words. -/
def spAt (s : UInt16) (height : Nat) : UInt16 :=
  s - UInt16.ofNat (2 * height)

theorem spAt_succ_eq (s : UInt16) (height : Nat) :
    spAt s (height + 1) = beneath s (2 * height + 1) := by
  unfold spAt beneath
  rw [Nat.mul_add, UInt16.ofNat_add, UInt16.ofNat_add]
  grind

theorem spAt_sub_two (s : UInt16) (height : Nat) : spAt s height - 2 = spAt s (height + 1) := by
  unfold spAt
  rw [Nat.mul_add, UInt16.ofNat_add]
  grind

theorem spAt_succ_add (s : UInt16) (height : Nat) : spAt s (height + 1) + 2 = spAt s height := by
  rw [← spAt_sub_two]
  grind

namespace Memory

def byteAt (m : Memory) (a : UInt16) : UInt8 :=
  m.active[a.toNat]?.getD 0

/-- The word at a place of the active page, low byte first. -/
def wordAt (m : Memory) (a : UInt16) : UInt16 :=
  UInt16.ofNat ((m.byteAt (a + 1)).toNat * 0x100 + (m.byteAt a).toNat)

/-- Memory with a word written to a place of the active page, low byte first. -/
def writeWord (m : Memory) (a value : UInt16) : Memory :=
  (m.write m.activePage a.toNat (UInt8.ofNat (value.toNat % 0x100))).write m.activePage (a + 1).toNat
    (UInt8.ofNat (value.toNat / 0x100))

variable (m : Memory) (a : UInt16)

theorem byte?_byteAt : m.byte? m.activePage a.toNat = some (m.byteAt a) := by
  have hpage : m.pages[m.activePage]? = some m.active :=
    Array.getElem?_eq_getElem m.activePage_lt
  have hplace : a.toNat < pageSize := a.toNat_lt
  simp [byte?, byteAt, hpage, hplace]

theorem toNat_add_one : (a.toNat + 1) % pageSize = (a + 1).toNat := by
  rw [UInt16.toNat_add, UInt16.toNat_one]
  rfl

theorem peek_active : Bus.peek m.activePage a.toNat m = .ok (m.byteAt a) m := by
  change peek _ _ m = _
  rw [peek_eq, byte?_byteAt]

theorem read16_active : Bus.read16 m.activePage a.toNat m = .ok (m.wordAt a) m := by
  have hhigh := m.peek_active (a + 1)
  rw [← toNat_add_one] at hhigh
  rw [Bus.read16, bind_of_ok (m.peek_active a), bind_of_ok hhigh]
  rfl

theorem write16_active (value : UInt16) :
    Bus.write16 m.activePage a.toNat value m = .ok () (m.writeWord a value) := by
  have hvalue := value.toNat_lt
  have hplace : a.toNat < pageSize := a.toNat_lt
  have hplace' : (a + 1).toNat < pageSize := (a + 1).toNat_lt
  have hlow := poke_ok (m := m) m.activePage_lt hplace
    (show value.toNat % 0x100 < 0x100 by omega)
  have hpage := (m.write m.activePage a.toNat (UInt8.ofNat (value.toNat % 0x100))).activePage_lt
  have hhigh := poke_ok hpage hplace' (show value.toNat / 0x100 < 0x100 by omega)
  rw [Bus.write16, bind_of_ok (checkAccess_ok m.activePage_lt hplace), bind_of_ok hlow, toNat_add_one]
  exact hhigh

theorem byteAt_write (b : UInt8) (a' : UInt16) :
    (m.write m.activePage a.toNat b).byteAt a' = if a' = a then b else m.byteAt a' := by
  have h := byte?_write m m.activePage a.toNat b m.activePage a'.toNat
  rw [byte?_byteAt, byte?_byteAt] at h
  have hactive := (m.write m.activePage a.toNat b).byte?_byteAt a'
  rw [activePage_write, h] at hactive
  by_cases ha : a' = a
  · subst ha
    rw [if_pos ⟨rfl, rfl⟩] at hactive
    rw [if_pos rfl]
    exact (Option.some.inj hactive).symm
  · rw [if_neg fun hplace => ha (UInt16.toNat_inj.1 hplace.2)] at hactive
    rw [if_neg ha]
    exact (Option.some.inj hactive).symm

/-- What is written can be read. -/
theorem wordAt_writeWord (value : UInt16) : (m.writeWord a value).wordAt a = value := by
  have hvalue := value.toNat_lt
  have hne : a ≠ a + 1 := by grind
  have hlow : (m.writeWord a value).byteAt a = UInt8.ofNat (value.toNat % 0x100) := by
    have hfirst := m.byteAt_write a (UInt8.ofNat (value.toNat % 0x100)) a
    rw [if_pos rfl] at hfirst
    have hsecond := (m.write m.activePage a.toNat (UInt8.ofNat (value.toNat % 0x100))).byteAt_write
      (a + 1) (UInt8.ofNat (value.toNat / 0x100)) a
    rw [if_neg hne, hfirst] at hsecond
    exact hsecond
  have hhigh : (m.writeWord a value).byteAt (a + 1) = UInt8.ofNat (value.toNat / 0x100) := by
    have hsecond := (m.write m.activePage a.toNat (UInt8.ofNat (value.toNat % 0x100))).byteAt_write
      (a + 1) (UInt8.ofNat (value.toNat / 0x100)) (a + 1)
    rw [if_pos rfl] at hsecond
    exact hsecond
  rw [wordAt, hlow, hhigh, ← UInt16.toNat_inj]
  simp only [UInt16.toNat_ofNat', UInt8.toNat_ofNat']
  omega

end Memory

/-- Two memories with the same active page that differ at most in its bytes at `beneath s k` for
`floor ≤ k < limit`. -/
structure SameButBeneath (s : UInt16) (floor limit : Nat) (m n : Memory) : Prop where
  activePage : n.activePage = m.activePage
  changed : ∀ page address, n.byte? page address ≠ m.byte? page address →
    page = m.activePage ∧ ∃ k, floor ≤ k ∧ k < limit ∧ address = (beneath s k).toNat

namespace SameButBeneath

variable {s : UInt16} {floor limit : Nat} {m n o : Memory}

theorem refl (s : UInt16) (floor limit : Nat) (m : Memory) : SameButBeneath s floor limit m m where
  activePage := rfl
  changed _ _ h := absurd rfl h

theorem trans (h : SameButBeneath s floor limit m n) (h' : SameButBeneath s floor limit n o) :
    SameButBeneath s floor limit m o where
  activePage := h'.activePage.trans h.activePage
  changed page address hne := by
    by_cases hstep : o.byte? page address = n.byte? page address
    · exact h.changed page address fun hsame => hne (hstep.trans hsame)
    · rw [← h.activePage]
      exact h'.changed page address hstep

/-- A word is written at two of the places. -/
theorem writeWord {k : Nat} (hfloor : floor ≤ k) (hlimit : k + 1 < limit) (value : UInt16) :
    SameButBeneath s floor limit m (m.writeWord (beneath s (k + 1)) value) where
  activePage := rfl
  changed page address hne := by
    rw [Memory.writeWord, Memory.byte?_write, beneath_add_one] at hne
    by_cases hhigh : page = m.activePage ∧ address = (beneath s k).toNat
    · exact ⟨hhigh.1, k, hfloor, by omega, hhigh.2⟩
    · rw [if_neg hhigh, Memory.byte?_write] at hne
      by_cases hlow : page = m.activePage ∧ address = (beneath s (k + 1)).toNat
      · exact ⟨hlow.1, k + 1, by omega, hlimit, hlow.2⟩
      · rw [if_neg hlow] at hne
        exact absurd rfl hne

/-- What lies outside keeps its value, as long as the page does not wrap into it. -/
theorem byteAt_eq (h : SameButBeneath s floor limit m n) {j : Nat} (hj : j < floor)
    (hlimit : limit ≤ 0x10000) : n.byteAt (beneath s j) = m.byteAt (beneath s j) := by
  by_contra hne
  have hbytes : n.byte? m.activePage (beneath s j).toNat ≠ m.byte? m.activePage (beneath s j).toNat := by
    rw [Memory.byte?_byteAt, ← h.activePage, Memory.byte?_byteAt]
    exact fun hsome => hne (Option.some.inj hsome)
  -- All places beneath `limit` are different, so a changed one cannot be the one beneath the floor.
  obtain ⟨-, k, hfloor, hk, hplace⟩ := h.changed _ _ hbytes
  have hjk := beneath_inj (by omega) (by omega) (UInt16.toNat_inj.1 hplace)
  omega

theorem wordAt_eq (h : SameButBeneath s floor limit m n) {j : Nat} (hj : j + 1 < floor)
    (hlimit : limit ≤ 0x10000) : n.wordAt (beneath s (j + 1)) = m.wordAt (beneath s (j + 1)) := by
  rw [Memory.wordAt, Memory.wordAt, beneath_add_one, h.byteAt_eq hj hlimit,
    h.byteAt_eq (Nat.lt_of_succ_lt hj) hlimit]

end SameButBeneath

/-! ## Instructions -/

namespace Instruction

def push (r : Register) : Instruction :=
  ⟨.push, [.register r]⟩

def pop (r : Register) : Instruction :=
  ⟨.pop, [.register r]⟩

/-- A MOV or an arithmetic or logic instruction that does not write SP. -/
structure LeavesStack (i : Instruction) : Prop where
  opcode : i.opcode ∉ [Opcode.push, .pop, .int]
  destination : i.operands.head? ≠ some (.register .sp)

end Instruction

namespace Execution

open Exec

variable {i : Instruction}

theorem execute_push (r : Register) (c : Context Memory) :
    execute (.push r) c = .ok .proceed
      { c with
        registers := c.registers.set .sp (c.registers.get .sp - 2).toNat
        bus := c.bus.writeWord (c.registers.get .sp - 2) (c.registers.get r) } := by
  have hdestination : (ofExcept (Instruction.push r).destination : Exec Memory _) c = .ok r c := rfl
  have hregisters : (registers : Exec Memory _) c = .ok c.registers c := rfl
  have hwrite := c.bus.write16_active (c.registers.get .sp - 2) (c.registers.get r)
  refine (bind_of_ok hdestination).trans ((bind_of_ok hregisters).trans ?_)
  exact (bind_of_ok (onBus_ok hwrite)).trans rfl

theorem execute_pop (r : Register) (c : Context Memory) :
    execute (.pop r) c = .ok .proceed
      { c with
        registers := (c.registers.set .sp (c.registers.get .sp + 2).toNat).set r
          (c.bus.wordAt (c.registers.get .sp)).toNat } := by
  have hdestination : (ofExcept (Instruction.pop r).destination : Exec Memory _) c = .ok r c := rfl
  have hregisters : (registers : Exec Memory _) c = .ok c.registers c := rfl
  have hread := c.bus.read16_active (c.registers.get .sp)
  refine (bind_of_ok hdestination).trans ((bind_of_ok hregisters).trans ?_)
  exact (bind_of_ok (onBus_ok hread)).trans rfl

section Stack
variable {c : Context Memory} {s : UInt16} {height : Nat}

/-- A PUSH makes the stack one word higher. -/
theorem push_stack (r : Register) (hsp : c.registers.get .sp = spAt s height) :
    (endState (execute (.push r) c)).registers.get .sp = spAt s (height + 1) ∧
      (endState (execute (.push r) c)).bus =
        c.bus.writeWord (beneath s (2 * height + 1)) (c.registers.get r) := by
  rw [execute_push, hsp, spAt_sub_two, ← spAt_succ_eq]
  simp

/-- A POP makes the stack one word lower and leaves memory alone. -/
theorem pop_stack {d : Register} (hd : d ≠ .sp) (hsp : c.registers.get .sp = spAt s (height + 1)) :
    (endState (execute (.pop d) c)).registers.get .sp = spAt s height ∧
      (endState (execute (.pop d) c)).bus = c.bus := by
  rw [execute_pop, hsp]
  dsimp only [endState_ok]
  rw [RegisterFile.get_set_ne _ _ hd.symm, RegisterFile.get_set_self, UInt16.ofNat_toNat,
    spAt_succ_add]
  exact ⟨rfl, rfl⟩

/-- A POP delivers the topmost word, also to SP. -/
theorem get_pop (d : Register) (hsp : c.registers.get .sp = spAt s (height + 1)) :
    (endState (execute (.pop d) c)).registers.get d = c.bus.wordAt (beneath s (2 * height + 1)) := by
  rw [execute_pop, hsp, spAt_succ_eq]
  dsimp only [endState_ok]
  rw [RegisterFile.get_set_self, UInt16.ofNat_toNat]

end Stack

/-- Whether it fails or not, the action leaves memory and SP alone. -/
def KeepsStack (x : Exec Memory Outcome) : Prop :=
  ∀ c, (endState (x c)).bus = c.bus ∧ (endState (x c)).registers.get .sp = c.registers.get .sp

theorem KeepsStack.bind {α : Type} {x : Exec Memory α} {f : α → Exec Memory Outcome} (hx : Reads x)
    (hf : ∀ c a, x c = .ok a c → KeepsStack (f a)) : KeepsStack (x >>= f) := by
  intro c
  have hc := hx c
  cases hr : x c with
  | ok a c' =>
    rw [hr] at hc
    obtain rfl : c' = c := hc
    rw [bind_of_ok hr]
    exact hf c' a hr c'
  | error e c' =>
    rw [hr] at hc
    obtain rfl : c' = c := hc
    rw [bind_of_error hr]
    exact ⟨rfl, rfl⟩

/-- The register that is written is the first operand. -/
theorem destination_ne_sp (h : i.operands.head? ≠ some (.register .sp)) {c c' : Context Memory}
    {r : Register} (hr : (ofExcept i.destination : Exec Memory Register) c = .ok r c') : r ≠ .sp := by
  rintro rfl
  unfold Instruction.destination at hr
  split at hr
  · cases hr
    exact h ‹_›
  · cases hr
  · cases hr

theorem keepsStack_apply {r : Register} (hr : r ≠ .sp) (effect : RegisterFile → Effect) :
    KeepsStack (do
      setRegisters fun rf => rf.apply r (effect rf)
      return .proceed) :=
  fun c => ⟨rfl, RegisterFile.get_apply_ne c.registers r _ hr.symm⟩

theorem keepsStack_unary (h : i.operands.head? ≠ some (.register .sp))
    (operation : UInt16 → Effect) : KeepsStack (unary i operation) :=
  .bind (Reads.ofExcept _) fun _ _ hr => keepsStack_apply (destination_ne_sp h hr) _

theorem keepsStack_binary (h : i.operands.head? ≠ some (.register .sp))
    (operation : UInt16 → UInt16 → Effect) : KeepsStack (binary i operation) :=
  .bind (Reads.ofExcept _) fun _ _ hr => .bind reads_registers fun _ _ _ =>
    .bind (Reads.ofExcept _) fun _ _ _ => keepsStack_apply (destination_ne_sp h hr) _

theorem keepsStack_execute (h : i.LeavesStack) : KeepsStack (execute i) := by
  have hopcode := h.opcode
  simp only [List.mem_cons, List.not_mem_nil, or_false, not_or] at hopcode
  exact execute_cases (keepsStack_unary h.destination) (keepsStack_binary h.destination)
    (fun hpush => absurd hpush hopcode.1) (fun hpop => absurd hpop hopcode.2.1)
    fun hint => absurd hint hopcode.2.2

end Execution

/-- The context after some instructions, whatever each comes to. -/
def Context.carriedOut (is : List Instruction) (c : Context Memory) : Context Memory :=
  is.foldl (fun c i => endState (Execution.execute i c)) c

theorem Context.carriedOut_append (is js : List Instruction) (c : Context Memory) :
    c.carriedOut (is ++ js) = (c.carriedOut is).carriedOut js :=
  List.foldl_append

/-! ## Well-nested sequences -/

/-- The instructions take a stack of one height to one of another height. They never pop below `floor`
and never push beyond `limit`; no POP goes to SP, and all between leaves the stack alone. -/
inductive Nests (limit floor : Nat) : Nat → List Instruction → Nat → Prop
  | nil (height : Nat) : Nests limit floor height [] height
  | push {height last : Nat} {is : List Instruction} (r : Register) (hroom : height < limit)
      (h : Nests limit floor (height + 1) is last) : Nests limit floor height (.push r :: is) last
  | pop {height last : Nat} {is : List Instruction} {d : Register} (hd : d ≠ .sp)
      (hfloor : floor ≤ height) (h : Nests limit floor height is last) :
      Nests limit floor (height + 1) (.pop d :: is) last
  | other {height last : Nat} {is : List Instruction} {i : Instruction} (hi : i.LeavesStack)
      (h : Nests limit floor height is last) : Nests limit floor height (i :: is) last

namespace Nests

variable {limit floor height last : Nat} {is : List Instruction}

/-- SP follows the height of the stack, and memory changes between the floor and the limit only. -/
theorem keeps (h : Nests limit floor height is last) (hfloor : floor ≤ height) {c : Context Memory}
    {s : UInt16} (hsp : c.registers.get .sp = spAt s height) :
    (c.carriedOut is).registers.get .sp = spAt s last ∧
      SameButBeneath s (2 * floor) (2 * limit) c.bus (c.carriedOut is).bus := by
  -- by induction on the nesting; `s` and the floor stay, the height and the context move on
  induction h generalizing c with
  | nil height => exact ⟨hsp, .refl _ _ _ _⟩
  | push r hroom h ih =>
    obtain ⟨hnext, hbus⟩ := Execution.push_stack r hsp
    obtain ⟨hlast, hrest⟩ := ih (by omega) hnext
    rw [hbus] at hrest
    exact ⟨hlast, .trans (.writeWord (by omega) (by omega) _) hrest⟩
  | pop hd hpop h ih =>
    obtain ⟨hnext, hbus⟩ := Execution.pop_stack hd hsp
    obtain ⟨hlast, hrest⟩ := ih hpop hnext
    rw [hbus] at hrest
    exact ⟨hlast, hrest⟩
  | other hi h ih =>
    obtain ⟨hbus, hkept⟩ := Execution.keepsStack_execute hi c
    obtain ⟨hlast, hrest⟩ := ih hfloor (hkept.trans hsp)
    rw [hbus] at hrest
    exact ⟨hlast, hrest⟩

/-- A word that has been pushed is on top again after a sequence that does not pop below it. -/
theorem pop_delivers (hlimit : limit ≤ 32768) (h : Nests limit (height + 1) (height + 1) is (height + 1))
    (c : Context Memory) (r d : Register) :
    (c.carriedOut (.push r :: is ++ [.pop d])).registers.get d = c.registers.get r := by
  -- the place where a stack of height 0 would end
  obtain ⟨s, hsp⟩ : ∃ s, c.registers.get .sp = spAt s height :=
    ⟨c.registers.get .sp + UInt16.ofNat (2 * height), by unfold spAt; grind⟩
  obtain ⟨hpushed, hbus⟩ := Execution.push_stack r hsp
  have hall : c.carriedOut (.push r :: is ++ [.pop d]) =
      ((endState (Execution.execute (.push r) c)).carriedOut is).carriedOut [.pop d] :=
    Context.carriedOut_append (.push r :: is) [.pop d] c
  rw [hall]
  generalize endState (Execution.execute (.push r) c) = c₁ at hpushed hbus
  obtain ⟨hreached, hsame⟩ := h.keeps (Nat.le_refl _) hpushed
  calc ((c₁.carriedOut is).carriedOut [.pop d]).registers.get d
    _ = (c₁.carriedOut is).bus.wordAt (beneath s (2 * height + 1)) :=
      Execution.get_pop d hreached
    _ = c₁.bus.wordAt (beneath s (2 * height + 1)) := hsame.wordAt_eq (by omega) (by omega)
    _ = c.registers.get r := by rw [hbus, Memory.wordAt_writeWord]

theorem of_append {is js : List Instruction} (h : Nests limit floor height (is ++ js) last) :
    ∃ between, Nests limit floor height is between ∧ Nests limit floor between js last := by
  induction is generalizing height with
  | nil => exact ⟨height, .nil height, h⟩
  | cons i is ih =>
    cases h with
    | push r hroom h =>
      obtain ⟨between, his, hjs⟩ := ih h
      exact ⟨between, .push r hroom his, hjs⟩
    | pop hd hfloor h =>
      obtain ⟨between, his, hjs⟩ := ih h
      exact ⟨between, .pop hd hfloor his, hjs⟩
    | other hi h =>
      obtain ⟨between, his, hjs⟩ := ih h
      exact ⟨between, .other hi his, hjs⟩

/-- A POP finds a stack that is not empty. -/
theorem height_of_pop {d : Register} (h : Nests limit floor height (.pop d :: is) last) :
    ∃ lower, height = lower + 1 := by
  cases h with
  | pop hd hfloor h => exact ⟨_, rfl⟩
  | other hi h => exact absurd hi.opcode (by simp [Instruction.pop])

/-- The PUSH that a stack of some height owes its last word to: the sequence goes on above it, or had this
height from the beginning. -/
theorem last_push {target : Nat} (h : Nests limit floor height is last) (hlast : target < last) :
    target < height ∧ Nests limit (target + 1) height is last ∨
      ∃ pre r mid, is = pre ++ .push r :: mid ∧ Nests limit (target + 1) (target + 1) mid last := by
  -- The rest of the sequence has the PUSH, or never goes below `target`; then it may be the one in front.
  induction h with
  | nil height => exact .inl ⟨hlast, .nil height⟩
  | @push height last is r hroom h ih =>
    rcases ih hlast with ⟨hheight, hrest⟩ | ⟨pre, r', mid, rfl, hmid⟩
    · by_cases hhere : target < height
      · exact .inl ⟨hhere, .push r hroom hrest⟩
      · obtain rfl : height = target := by omega
        exact .inr ⟨[], r, is, rfl, hrest⟩
    · exact .inr ⟨.push r :: pre, r', mid, rfl, hmid⟩
  | @pop height last is d hd hfloor h ih =>
    rcases ih hlast with ⟨hheight, hrest⟩ | ⟨pre, r', mid, rfl, hmid⟩
    · exact .inl ⟨by omega, .pop hd (by omega) hrest⟩
    · exact .inr ⟨.pop d :: pre, r', mid, rfl, hmid⟩
  | @other height last is i hi h ih =>
    rcases ih hlast with ⟨hheight, hrest⟩ | ⟨pre, r', mid, rfl, hmid⟩
    · exact .inl ⟨hheight, .other hi hrest⟩
    · exact .inr ⟨i :: pre, r', mid, rfl, hmid⟩

end Nests

open Execution in
/-- **The stack is last-in first-out for every SP.** PUSH and POP of registers succeed and change no
flags. A sequence that starts with an empty stack, pops nothing that it has not pushed, never has more
than `limit` words on the stack, 32768 at most, and writes SP in no other way:
it leaves SP below its start by the words that are left, so where it began if none are;
it changes memory at most in the `2 * limit` bytes just below that start, around the end of the active
page if need be; and each of its POPs delivers what the PUSH that matches it has read, where the
instructions between the two are balanced.
A POP into SP that follows, with no more than a PUSH and balanced instructions in between, leaves in SP
what this PUSH has read. -/
theorem stack_lifo {limit : Nat} (hlimit : limit ≤ 32768) (c : Context Memory) :
    (∀ r, ∃ c', execute (.push r) c = .ok .proceed c' ∧ c'.registers.flags = c.registers.flags) ∧
    (∀ d, ∃ c', execute (.pop d) c = .ok .proceed c' ∧ c'.registers.flags = c.registers.flags) ∧
    ∀ is last, Nests limit 0 0 is last →
      (c.carriedOut is).registers.get .sp = c.registers.get .sp - UInt16.ofNat (2 * last) ∧
      SameButBeneath (c.registers.get .sp) 0 (2 * limit) c.bus (c.carriedOut is).bus ∧
      (∀ before d rest, is = before ++ .pop d :: rest → ∃ pre r mid height,
        before = pre ++ .push r :: mid ∧ Nests limit (height + 1) (height + 1) mid (height + 1) ∧
        (c.carriedOut (before ++ [.pop d])).registers.get d = (c.carriedOut pre).registers.get r) ∧
      ∀ r mid, Nests limit (last + 1) (last + 1) mid (last + 1) →
        (c.carriedOut (is ++ (.push r :: mid ++ [.pop .sp]))).registers.get .sp =
          (c.carriedOut is).registers.get r := by
  refine ⟨fun r => ⟨_, execute_push r c, rfl⟩, fun d => ⟨_, execute_pop d c, rfl⟩, ?_⟩
  intro is last his
  have hstart : c.registers.get .sp = spAt (c.registers.get .sp) 0 := by simp [spAt]
  obtain ⟨hsp, hsame⟩ := his.keeps (Nat.zero_le 0) hstart
  refine ⟨hsp, hsame, ?_, ?_⟩
  · rintro before d rest rfl
    obtain ⟨height, hbefore, hpop⟩ := his.of_append
    obtain ⟨lower, rfl⟩ := hpop.height_of_pop
    rcases hbefore.last_push (Nat.lt_succ_self lower) with ⟨hnever, -⟩ | ⟨pre, r, mid, rfl, hmid⟩
    · exact absurd hnever (Nat.not_lt_zero lower)
    · refine ⟨pre, r, mid, lower, rfl, hmid, ?_⟩
      rw [List.append_assoc, Context.carriedOut_append]
      exact hmid.pop_delivers hlimit _ r d
  · intro r mid hmid
    rw [Context.carriedOut_append]
    exact hmid.pop_delivers hlimit _ r .sp

/-- A stack that wraps at the beginning of the page and in the middle of a word. -/
theorem stack_lifo_wrap :
    let c : Context Memory :=
      ⟨(RegisterFile.zero.set .sp 1).set .ax 0xBEEF, Memory.ofPages 1, Console.ofInput []⟩
    let is : List Instruction :=
      [.push .ax, .push .sp, ⟨.add, [.register .ax, .register .sp]⟩, .pop .bx, .pop .cx]
    2 ≤ 32768 ∧ Nests 2 0 0 is 0 ∧
      (c.carriedOut is).registers.get .sp = 1 ∧
      SameButBeneath 1 0 4 c.bus (c.carriedOut is).bus ∧
      (c.carriedOut (is ++ [.push .ax, .pop .sp])).registers.get .sp = 0xBEEC := by
  intro c is
  have hnests : Nests 2 0 0 is 0 :=
    .push .ax (by decide) (.push .sp (by decide) (.other ⟨by decide, by decide⟩
      (.pop (by decide) (by decide) (.pop (by decide) (by decide) (.nil 0)))))
  have hlimit : 2 ≤ 32768 := by decide
  obtain ⟨-, -, hall⟩ := stack_lifo hlimit c
  obtain ⟨hsp, hsame, -, hpop⟩ := hall is 0 hnests
  have hax : (c.carriedOut is).registers.get .ax = 0xBEEC := by decide +kernel
  exact ⟨hlimit, hnests, hsp.trans (by decide), hsame, (hpop .ax [] (.nil 1)).trans hax⟩

end DosMonitor
