import Mathlib
import DosMonitor.Assembly.Listing
import DosMonitor.Proofs.Grammar

/-!
# The byte code read back

`decode?` reads the instruction in front of a row of bytes. Every byte code is one of six forms (`Coded`),
and in front of any bytes it is read back as its instruction and leaves those bytes
(`decode?_append_of_encode?`). So no byte code begins another one, and the bytes of a source tell its
instructions one after the other.
-/

namespace DosMonitor

/-- The general register with this field. -/
def Register.ofField : Fin 8 → Register
  | 0 => ax | 1 => cx | 2 => dx | 3 => bx
  | 4 => sp | 5 => bp | 6 => si | 7 => di

theorem Register.ofField_of_field? {r : Register} {f : Fin 8} (h : r.field? = some f) :
    ofField f = r := by
  cases r <;> simp only [field?, Option.some.injEq, reduceCtorEq] at h <;> subst h <;> rfl

namespace Assembly

/-- The register of the three lowest bits of a byte. -/
def registerOf (b : UInt8) : Register :=
  .ofField ⟨b.toNat % 8, Nat.mod_lt _ (by decide)⟩

/-- The word of two bytes, the low one first. -/
def wordOf (low high : UInt8) : UInt16 :=
  UInt16.ofNat (low.toNat + 0x100 * high.toNat)

/-- The operation on two operands with this number among those that have a byte code. -/
def pairOperation? : Nat → Option Opcode
  | 0 => some .add
  | 1 => some .sub
  | 2 => some .and
  | 3 => some .or
  | 4 => some .xor
  | _ => none

/-- The operation on one register whose first bytes form this group of eight. -/
def singleOperation? : Nat → Option Opcode
  | 8 => some .inc
  | 9 => some .dec
  | 10 => some .push
  | 11 => some .pop
  | _ => none

/-- The instruction whose byte code stands in front, and what follows it. The first byte tells the form by
its group of eight, and has a register or an operation in its three lowest bits. -/
def decode? : List UInt8 → Option (Instruction × List UInt8)
  | [] => none
  | lead :: bytes =>
    match lead.toNat / 8, bytes with
    | 23, low :: high :: rest =>
      some (⟨.mov, [.register (registerOf lead), .immediate (wordOf low high)]⟩, rest)
    | 17, pair :: rest =>
      some (⟨.mov, [.register (registerOf (pair / 8)), .register (registerOf pair)]⟩, rest)
    | 25, vector :: rest => some (⟨.int, [.immediate (UInt16.ofNat vector.toNat)]⟩, rest)
    | 14, field :: low :: high :: rest =>
      (pairOperation? (lead.toNat % 8)).map fun op =>
        (⟨op, [.register (registerOf field), .immediate (wordOf low high)]⟩, rest)
    | 2, pair :: rest =>
      (pairOperation? (lead.toNat % 8)).map fun op =>
        (⟨op, [.register (registerOf (pair / 8)), .register (registerOf pair)]⟩, rest)
    | group, rest =>
      (singleOperation? group).map fun op => (⟨op, [.register (registerOf lead)]⟩, rest)

/-! ## The forms of the byte code -/

/-- The six forms of instructions that have a byte code. -/
inductive Coded : Instruction → List UInt8 → Prop
  | moveNumber {r : Register} {f : UInt8} (hf : field? r = some f) (value : UInt16) :
      Coded ⟨.mov, [.register r, .immediate value]⟩ ((0xB8 + f) :: wordBytes value)
  | moveRegister {d s : Register} {p : UInt8} (hp : pair? d s = some p) :
      Coded ⟨.mov, [.register d, .register s]⟩ [0x8B, p]
  | interrupt {vector : UInt16} (h : vector.toNat < 0x100) :
      Coded ⟨.int, [.immediate vector]⟩ [0xCD, UInt8.ofNat vector.toNat]
  | pairNumber {op : Opcode} {leads : UInt8 × UInt8} {f : UInt8} {r : Register}
      (hop : pairLeads? op = some leads) (hf : field? r = some f) (value : UInt16) :
      Coded ⟨op, [.register r, .immediate value]⟩ (leads.1 :: f :: wordBytes value)
  | pairRegister {op : Opcode} {leads : UInt8 × UInt8} {p : UInt8} {d s : Register}
      (hop : pairLeads? op = some leads) (hp : pair? d s = some p) :
      Coded ⟨op, [.register d, .register s]⟩ [leads.2, p]
  | single {op : Opcode} {lead f : UInt8} {r : Register} (hop : singleLead? op = some lead)
      (hf : field? r = some f) : Coded ⟨op, [.register r]⟩ [lead + f]

theorem coded_of_encode? {i : Instruction} {bytes : List UInt8} (h : encode? i = some bytes) :
    Coded i bytes := by
  obtain ⟨op, os⟩ := i
  simp only [encode?] at h
  split at h
  · obtain ⟨f, hf, h⟩ := Option.bind_eq_some_iff.mp h
    cases h
    exact .moveNumber hf _
  · obtain ⟨p, hp, h⟩ := Option.bind_eq_some_iff.mp h
    cases h
    exact .moveRegister hp
  · split at h
    · cases h
      exact .interrupt ‹_›
    · cases h
  · obtain ⟨leads, hl, h⟩ := Option.bind_eq_some_iff.mp h
    obtain ⟨f, hf, h⟩ := Option.bind_eq_some_iff.mp h
    cases h
    exact .pairNumber hl hf _
  · obtain ⟨leads, hl, h⟩ := Option.bind_eq_some_iff.mp h
    obtain ⟨p, hp, h⟩ := Option.bind_eq_some_iff.mp h
    cases h
    exact .pairRegister hl hp
  · obtain ⟨lead, hl, h⟩ := Option.bind_eq_some_iff.mp h
    obtain ⟨f, hf, h⟩ := Option.bind_eq_some_iff.mp h
    cases h
    exact .single hl hf
  · cases h

/-! ## Reading the parts of a byte code -/

theorem registerOf_eq {r : Register} {b : UInt8} {f : Fin 8} (hf : r.field? = some f)
    (h : b.toNat % 8 = f) : registerOf b = r := by
  have hb : (⟨b.toNat % 8, Nat.mod_lt _ (by decide)⟩ : Fin 8) = f := Fin.ext h
  rw [registerOf, hb, Register.ofField_of_field? hf]

theorem exists_field?_eq {r : Register} {f : UInt8} (h : field? r = some f) :
    ∃ g : Fin 8, r.field? = some g ∧ f.toNat = g := by
  obtain ⟨n, hn, rfl⟩ := Option.map_eq_some_iff.mp h
  obtain ⟨g, hg, hn⟩ := Option.bind_eq_some_iff.mp hn
  cases hn
  refine ⟨g, hg, ?_⟩
  rw [UInt8.toNat_ofNat']
  omega

theorem registerOf_field {r : Register} {f : UInt8} (h : field? r = some f) : registerOf f = r := by
  obtain ⟨g, hg, hf⟩ := exists_field?_eq h
  exact registerOf_eq hg (by omega)

/-- A field added to the first byte of a group of eight stays in the group and can be read off. -/
theorem group_add_field {lead f : UInt8} {r : Register} (hl : lead.toNat % 8 = 0)
    (h : field? r = some f) :
    (lead + f).toNat / 8 = lead.toNat / 8 ∧ registerOf (lead + f) = r := by
  obtain ⟨g, hg, hf⟩ := exists_field?_eq h
  have hlt := lead.toNat_lt
  have hadd : (lead + f).toNat = lead.toNat + g := by
    rw [UInt8.toNat_add, hf]
    omega
  exact ⟨by omega, registerOf_eq hg (by omega)⟩

theorem registerOf_pair {d s : Register} {p : UInt8} (h : pair? d s = some p) :
    registerOf (p / 8) = d ∧ registerOf p = s := by
  obtain ⟨x, hx, h⟩ := Option.bind_eq_some_iff.mp h
  obtain ⟨y, hy, h⟩ := Option.bind_eq_some_iff.mp h
  cases h
  obtain ⟨dField, hd, hx⟩ := exists_field?_eq hx
  obtain ⟨sField, hs, hy⟩ := exists_field?_eq hy
  have hp : (0xC0 + 8 * x + y).toNat = 0xC0 + 8 * dField + sField := by
    simp only [UInt8.toNat_add, UInt8.toNat_mul, UInt8.reduceToNat, hx, hy]
    omega
  refine ⟨registerOf_eq hd ?_, registerOf_eq hs (by omega)⟩
  rw [UInt8.toNat_div, hp]
  simp only [UInt8.reduceToNat]
  omega

theorem wordOf_wordBytes (value : UInt16) :
    wordOf (.ofNat value.toNat) (.ofNat (value.toNat / 0x100)) = value := by
  have hlt := value.toNat_lt
  apply UInt16.toNat.inj
  simp only [wordOf, UInt16.toNat_ofNat', UInt8.toNat_ofNat']
  omega

/-! ## Reading a byte code -/

theorem pairOperation?_of_pairLeads? {op : Opcode} {leads : UInt8 × UInt8}
    (h : pairLeads? op = some leads) :
    (leads.1.toNat / 8 = 14 ∧ pairOperation? (leads.1.toNat % 8) = some op) ∧
    (leads.2.toNat / 8 = 2 ∧ pairOperation? (leads.2.toNat % 8) = some op) := by
  cases op <;> simp only [pairLeads?, Option.some.injEq, reduceCtorEq] at h <;> subst h <;> decide

theorem singleOperation?_of_singleLead? {op : Opcode} {lead : UInt8} (h : singleLead? op = some lead) :
    lead.toNat % 8 = 0 ∧ singleOperation? (lead.toNat / 8) = some op := by
  cases op <;> simp only [singleLead?, Option.some.injEq, reduceCtorEq] at h <;> subst h <;> decide

theorem decode?_of_singleOperation? {lead : UInt8} {op : Opcode}
    (h : singleOperation? (lead.toNat / 8) = some op) (rest : List UInt8) :
    decode? (lead :: rest) = some (⟨op, [.register (registerOf lead)]⟩, rest) := by
  have hgroup : lead.toNat / 8 = 8 ∨ lead.toNat / 8 = 9 ∨ lead.toNat / 8 = 10 ∨ lead.toNat / 8 = 11 := by
    unfold singleOperation? at h
    split at h <;> simp_all
  obtain hg | hg | hg | hg := hgroup <;> rw [hg] at h <;> simp only [decode?, hg, h, Option.map_some]

/-- A byte code in front of any bytes is read back, and those bytes are left. -/
theorem decode?_append_of_encode? {i : Instruction} {bytes : List UInt8}
    (h : encode? i = some bytes) (rest : List UInt8) :
    decode? (bytes ++ rest) = some (i, rest) := by
  -- for each form, the group of its first byte leads to its row in `decode?`
  cases coded_of_encode? h with
  | @moveNumber _ f hf value =>
    obtain ⟨hgroup, hr⟩ := group_add_field (by decide : (0xB8 : UInt8).toNat % 8 = 0) hf
    change (0xB8 + f).toNat / 8 = 23 at hgroup
    simp only [wordBytes, List.cons_append, List.nil_append, decode?, hgroup, hr, wordOf_wordBytes]
  | moveRegister hp =>
    obtain ⟨hd, hs⟩ := registerOf_pair hp
    have hgroup : (0x8B : UInt8).toNat / 8 = 17 := by decide
    simp only [List.cons_append, List.nil_append, decode?, hgroup, hd, hs]
  | @interrupt vector hv =>
    have hgroup : (0xCD : UInt8).toNat / 8 = 25 := by decide
    have hvector : UInt16.ofNat (UInt8.ofNat vector.toNat).toNat = vector := by
      rw [UInt8.toNat_ofNat_of_lt' hv, UInt16.ofNat_toNat]
    simp only [List.cons_append, List.nil_append, decode?, hgroup, hvector]
  | pairNumber hop hf value =>
    obtain ⟨⟨hgroup, hpair⟩, -⟩ := pairOperation?_of_pairLeads? hop
    simp only [wordBytes, List.cons_append, List.nil_append, decode?, hgroup, hpair,
      registerOf_field hf, wordOf_wordBytes, Option.map_some]
  | pairRegister hop hp =>
    obtain ⟨hd, hs⟩ := registerOf_pair hp
    obtain ⟨-, hgroup, hpair⟩ := pairOperation?_of_pairLeads? hop
    simp only [List.cons_append, List.nil_append, decode?, hgroup, hpair, hd, hs, Option.map_some]
  | single hop hf =>
    obtain ⟨hl, hop⟩ := singleOperation?_of_singleLead? hop
    obtain ⟨hgroup, hr⟩ := group_add_field hl hf
    rw [← hgroup] at hop
    rw [List.singleton_append, decode?_of_singleOperation? hop, hr]

theorem encode_eq_ok_iff {i : Instruction} {bytes : List UInt8} :
    encode i = .ok bytes ↔ encode? i = some bytes := by
  unfold encode
  split <;> simp [*]

/-- Where two byte codes stand in front of the same bytes, they are of one instruction, and the same bytes
follow them. -/
theorem eq_of_encode_append_eq {i j : Instruction} {a b s t : List UInt8} (ha : encode i = .ok a)
    (hb : encode j = .ok b) (h : a ++ s = b ++ t) : i = j ∧ s = t := by
  have hi := decode?_append_of_encode? (encode_eq_ok_iff.mp ha) s
  have hj := decode?_append_of_encode? (encode_eq_ok_iff.mp hb) t
  rw [h, hj] at hi
  simpa [eq_comm] using hi

/-! ## Whole sources -/

/-- The instruction on a source line, none for labels, blank lines and lines in error. -/
def instructionOn? (line : List Char) : Option Instruction :=
  if (Source.label? line).isSome then none else (Source.instruction? line).toOption.join

/-- The instructions of a source, in order. -/
def instructions (lines : List String) : List Instruction :=
  lines.filterMap fun line => instructionOn? line.toList

theorem instructions_cons (line : String) (lines : List String) :
    instructions (line :: lines) = (instructionOn? line.toList).toList ++ instructions lines := by
  simp only [instructions, List.filterMap_cons]
  cases instructionOn? line.toList <;> rfl

/-- A line that has bytes has those of its instruction, or none where it has no instruction. -/
theorem assembleLine_eq_ok {line : List Char} {bytes : List UInt8}
    (h : assembleLine line = .ok bytes) :
    (instructionOn? line = none ∧ bytes = []) ∨
      ∃ i, instructionOn? line = some i ∧ encode i = .ok bytes := by
  unfold assembleLine at h
  unfold instructionOn?
  split at h
  case isTrue hlabel =>
    cases h
    exact .inl ⟨if_pos hlabel, rfl⟩
  case isFalse hlabel =>
    rw [if_neg hlabel]
    split at h
    case h_1 i hi => exact .inr ⟨i, by rw [hi]; rfl, h⟩
    case h_2 hi =>
      cases h
      exact .inl ⟨by rw [hi]; rfl, rfl⟩
    case h_3 => cases h

/-- The bytes of a source are the byte codes of its instructions, one after the other. -/
theorem exists_codes_of_assemble {lines : List String} {bytes : List UInt8}
    (h : assemble lines = .ok bytes) :
    ∃ codes, List.Forall₂ (fun i code => encode i = .ok code) (instructions lines) codes ∧
      bytes = codes.flatten := by
  induction lines generalizing bytes with
  | nil =>
    cases h
    exact ⟨[], .nil, rfl⟩
  | cons line lines ih =>
    obtain ⟨first, hfirst, h⟩ := Source.bind_eq_ok_iff.mp h
    obtain ⟨rest, hrest, h⟩ := Source.bind_eq_ok_iff.mp h
    cases h
    obtain ⟨codes, hcodes, rfl⟩ := ih hrest
    obtain ⟨hnone, rfl⟩ | ⟨i, hi, hcode⟩ := assembleLine_eq_ok hfirst
    · refine ⟨codes, ?_, rfl⟩
      rwa [instructions_cons, hnone]
    · refine ⟨first :: codes, ?_, rfl⟩
      rw [instructions_cons, hi]
      exact .cons hcode hcodes

/-- A byte code has at least one byte, so an empty row of bytes has no instruction. -/
theorem ne_nil_of_encode {i : Instruction} {bytes : List UInt8} (h : encode i = .ok bytes) :
    bytes ≠ [] := by
  rintro rfl
  have hread := decode?_append_of_encode? (encode_eq_ok_iff.mp h) []
  simp [decode?] at hread

/-- Two rows of byte codes with the same bytes are of the same instructions. -/
theorem instructions_eq_of_flatten_eq {is js : List Instruction} {as bs : List (List UInt8)}
    (ha : List.Forall₂ (fun i code => encode i = .ok code) is as)
    (hb : List.Forall₂ (fun i code => encode i = .ok code) js bs) (h : as.flatten = bs.flatten) :
    is = js := by
  induction ha generalizing js bs with
  | nil =>
    cases hb with
    | nil => rfl
    | cons hj _ => simp [ne_nil_of_encode hj] at h
  | cons hi _ ih =>
    cases hb with
    | nil => simp [ne_nil_of_encode hi] at h
    | cons hj hb =>
      -- the first codes stand in front of the same bytes, so nothing after them is out of step
      obtain ⟨rfl, hrest⟩ := eq_of_encode_append_eq hi hj h
      rw [ih hb hrest]

/-- The byte code is uniquely decodable: no byte code begins that of another instruction, and sources with
the same bytes have the same instructions. -/
theorem encode_uniquely_decodable :
    (∀ (i j : Instruction) (a b : List UInt8), encode i = .ok a → encode j = .ok b →
      (a <+: b ∨ b <+: a) → i = j) ∧
    (∀ (source source' : List String) (bytes : List UInt8), assemble source = .ok bytes →
      assemble source' = .ok bytes → instructions source = instructions source') := by
  constructor
  · rintro i j a b ha hb (⟨t, rfl⟩ | ⟨t, rfl⟩)
    · exact (eq_of_encode_append_eq (s := t) (t := []) ha hb (by simp)).1
    · exact (eq_of_encode_append_eq (s := []) (t := t) ha hb (by simp)).1
  · intro source source' bytes h h'
    obtain ⟨codes, hcodes, rfl⟩ := exists_codes_of_assemble h
    obtain ⟨codes', hcodes', heq⟩ := exists_codes_of_assemble h'
    exact instructions_eq_of_flatten_eq hcodes hcodes' heq

/-- Two spellings of a move and an increment, and a register named in two ways. -/
theorem encode_uniquely_decodable_spellings :
    assemble ["start:", "mov ax, 0x3 ; three", "", "INC BX"] = .ok [0xB8, 3, 0, 0x43] ∧
    assemble ["MOV AX,3", "inc bx"] = .ok [0xB8, 3, 0, 0x43] ∧
    instructions ["start:", "mov ax, 0x3 ; three", "", "INC BX"] =
      instructions ["MOV AX,3", "inc bx"] ∧
    encode ⟨.inc, [.register .bx]⟩ = .ok [0x43] ∧
    encode ⟨.inc, [.register (.ofField 3)]⟩ = .ok [0x43] ∧
    (⟨.inc, [.register .bx]⟩ : Instruction) = ⟨.inc, [.register (.ofField 3)]⟩ := by
  have h : assemble ["start:", "mov ax, 0x3 ; three", "", "INC BX"] = .ok [0xB8, 3, 0, 0x43] := by
    decide +kernel
  have h' : assemble ["MOV AX,3", "inc bx"] = .ok [0xB8, 3, 0, 0x43] := by
    decide +kernel
  have hi : encode ⟨.inc, [.register .bx]⟩ = .ok [0x43] := by decide
  have hj : encode ⟨.inc, [.register (.ofField 3)]⟩ = .ok [0x43] := by decide
  exact ⟨h, h', encode_uniquely_decodable.2 _ _ _ h h', hi, hj,
    encode_uniquely_decodable.1 _ _ _ _ hi hj (.inl List.prefix_rfl)⟩

end Assembly

end DosMonitor
