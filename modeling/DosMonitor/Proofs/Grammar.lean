import Mathlib
import DosMonitor.Source.Line
import DosMonitor.Proofs.Literal
import DosMonitor.Proofs.Pieces

/-!
# The grammar of source lines

What a line has to look like to be an instruction is said here without reading it (`IsInstruction`): a
mnemonic, then as many operands as the opcode takes, with single commas between them, where blanks may
stand anywhere but inside a word.

Main statement: lines are read as this grammar has them (`instruction?_grammar`). On the way there a line
is seen as the kinds of its parts (`Spells`): its tokens add nothing to these but texts and columns, which
only errors show, and the parser looks at nothing else (`instruction?_eq_ok_iff`).
-/

namespace DosMonitor

namespace Source

/-- The word spells the operand: a register by its name, in either case, or a number of 16 bits. -/
inductive IsOperand : List Char → Operand → Prop
  | register {w : List Char} {r : Register} (h : Text.sameName r.name.toList w = true) :
      IsOperand w (.register r)
  | number {w : List Char} {n : Nat} (h : Text.Literal w n) (hn : n ≤ 0xFFFF) :
      IsOperand w (.immediate (UInt16.ofNat n))

/-- The text spells the instruction. Cut into maximal runs of word characters and single other
characters, and without its blanks, it is the mnemonic, in either case, and then the operands, as many as
the opcode takes, with single commas between them. -/
def IsInstruction (s : List Char) (i : Instruction) : Prop :=
  ∃ ps mnemonic words, IsSplit s ps ∧
    (ps.filter fun p => !p.isBlank) =
      .word mnemonic :: (words.map Piece.word).intersperse (.other ',') ∧
    Text.sameName i.opcode.name.toList mnemonic = true ∧
    List.Forall₂ IsOperand words i.operands ∧ i.operands.length = i.opcode.operandCount

end Source

/-- The kind of token that spells the operand. -/
def Operand.kind : Operand → TokenKind
  | .register r => .register r
  | .immediate value => .number value

/-- The kinds of the tokens that spell the instruction. -/
def Instruction.kinds (i : Instruction) : List TokenKind :=
  .opcode i.opcode :: (i.operands.map Operand.kind).intersperse .comma

namespace Source

def Piece.kind? : Piece → Option TokenKind
  | .word w => wordKind? w
  | .other c => if c == ',' then some .comma else none

@[simp] theorem kind?_word (w : List Char) : (Piece.word w).kind? = wordKind? w := rfl

@[simp] theorem kind?_other (c : Char) :
    (Piece.other c).kind? = if c = ',' then some .comma else none := by
  simp [Piece.kind?]

/-- The parts of the text are tokens of these kinds. -/
def Spells (s : List Char) (ks : List TokenKind) : Prop :=
  List.Forall₂ (fun p k => p.kind? = some k) (parts s) ks

/-! ## Tokens -/

theorem exists_cons_ok_iff {r : Except ParseError (List Token)} {t : Token} {ks : List TokenKind} :
    (∃ ts, (do let ts ← r; return t :: ts) = .ok ts ∧ ts.map Token.kind = ks) ↔
      ∃ ks', (∃ ts, r = .ok ts ∧ ts.map Token.kind = ks') ∧ ks = t.kind :: ks' := by
  cases r with
  | error e => simp [bind, Except.bind]
  | ok ts => simp [bind, Except.bind, pure, Except.pure, eq_comm]

theorem forall₂_cons_kind_iff {p : Piece} {k : TokenKind} (hk : p.kind? = some k) {ps : List Piece}
    {ks : List TokenKind} :
    List.Forall₂ (fun p k => p.kind? = some k) (p :: ps) ks ↔
      ∃ ks', List.Forall₂ (fun p k => p.kind? = some k) ps ks' ∧ ks = k :: ks' := by
  rw [List.forall₂_cons_left_iff]
  constructor
  · rintro ⟨k', ks', hk', h, rfl⟩
    obtain rfl := Option.some.inj (hk.symm.trans hk')
    exact ⟨ks', h, rfl⟩
  · rintro ⟨ks', h, rfl⟩
    exact ⟨k, ks', hk, h, rfl⟩

theorem tokensAt_iff {ps : List Piece} {ks : List TokenKind} (column : Nat) :
    (∃ ts, tokensAt column ps = .ok ts ∧ ts.map Token.kind = ks) ↔
      List.Forall₂ (fun p k => p.kind? = some k) (ps.filter fun p => !p.isBlank) ks := by
  induction ps generalizing column ks with
  | nil => simp [tokensAt, eq_comm]
  | cons p ps ih =>
    cases p with
    | word w =>
      rw [List.filter_cons_of_pos (by rfl), tokensAt]
      cases hk : wordKind? w with
      | none => simp [List.forall₂_cons_left_iff, Piece.kind?, hk]
      | some k =>
        dsimp only
        rw [exists_cons_ok_iff, forall₂_cons_kind_iff (p := .word w) hk]
        exact exists_congr fun ks' => and_congr_left' (ih _)
    | other c =>
      rw [tokensAt]
      by_cases hblank : Text.isBlank c = true
      · rw [if_pos hblank, List.filter_cons_of_neg (by simp [Piece.isBlank, hblank])]
        exact ih _
      · rw [if_neg hblank, List.filter_cons_of_pos (by simp [Piece.isBlank, hblank])]
        by_cases hcomma : (c == ',') = true
        · rw [if_pos hcomma, exists_cons_ok_iff, forall₂_cons_kind_iff (p := .other c) (if_pos hcomma)]
          exact exists_congr fun ks' => and_congr_left' (ih _)
        · have hkind : (Piece.other c).kind? = none := if_neg hcomma
          simp [List.forall₂_cons_left_iff, hkind, hcomma]

/-- A line has tokens where its parts are tokens, and their kinds are those of the parts. -/
theorem spells_iff {line : List Char} {ks : List TokenKind} :
    Spells (code line) ks ↔ ∃ ts, tokens line = .ok ts ∧ ts.map Token.kind = ks :=
  (tokensAt_iff 1).symm

/-! ## The parser -/

theorem operand_eq_ok_iff {t : Token} {o : Operand} : operand t = .ok o ↔ t.kind = o.kind := by
  unfold operand
  cases t.kind <;> cases o <;> simp [Operand.kind]

theorem bind_eq_ok_iff {α β ε : Type} {r : Except ε α} {f : α → Except ε β} {b : β} :
    (do let a ← r; f a) = .ok b ↔ ∃ a, r = .ok a ∧ f a = .ok b := by
  cases r <;> simp [bind, Except.bind]

theorem bind_eq_error_iff {α β ε : Type} {r : Except ε α} {f : α → Except ε β} {e : ε} :
    (do let a ← r; f a) = .error e ↔ r = .error e ∨ ∃ a, r = .ok a ∧ f a = .error e := by
  cases r <;> simp [bind, Except.bind]

theorem operands_cons_cons_iff {line : List Char} {t separator : Token} {rest : List Token}
    {os : List Operand} :
    operands line (t :: separator :: rest) = .ok os ↔
      separator.kind = .comma ∧
        ∃ o more, t.kind = o.kind ∧ operands line rest = .ok more ∧ o :: more = os := by
  rw [operands, bind_eq_ok_iff]
  simp only [operand_eq_ok_iff]
  by_cases hcomma : separator.kind = .comma
  · simp [hcomma, bind_eq_ok_iff, pure, Except.pure]
  · simp [hcomma]

/-- Operands are read where they stand with single commas between them, and there is at least one. -/
theorem operands_eq_ok_iff {line : List Char} {ts : List Token} {os : List Operand} :
    operands line ts = .ok os ↔
      os ≠ [] ∧ ts.map Token.kind = (os.map Operand.kind).intersperse .comma := by
  induction ts using operands.induct generalizing os with
  | case1 =>
    rcases os with _ | ⟨o, _ | ⟨o', os⟩⟩ <;> simp [operands]
  | case2 t =>
    simp only [operands, bind_eq_ok_iff, operand_eq_ok_iff, pure, Except.pure]
    rcases os with _ | ⟨o, _ | ⟨o', os⟩⟩ <;> simp
  | case3 t separator rest ih =>
    rw [operands_cons_cons_iff]
    simp only [ih]
    rcases os with _ | ⟨o, _ | ⟨o', os⟩⟩
    · simp
    · simp
    · simp [and_left_comm]

theorem instructionOf_cons_iff {line : List Char} {t : Token} {rest : List Token}
    {r : Option Instruction} :
    instructionOf line (t :: rest) = .ok r ↔
      ∃ i : Instruction, some i = r ∧ t.kind = .opcode i.opcode ∧
        rest.map Token.kind = (i.operands.map Operand.kind).intersperse .comma ∧ i.WellFormed := by
  have count : ∀ (op : Opcode) (args : List Operand),
      (if args.length = op.operandCount then pure (some ⟨op, args⟩)
        else throw (.operandCount op args.length) : Except ParseError _) = .ok r ↔
        some ⟨op, args⟩ = r ∧ (⟨op, args⟩ : Instruction).WellFormed := fun op args => by
    by_cases h : args.length = op.operandCount <;> simp [h, Instruction.WellFormed, pure, Except.pure]
  have noArgs : ∀ {args : List Operand},
      [] = (args.map Operand.kind).intersperse .comma ↔ args = [] := fun {args} => by
    rcases args with _ | ⟨o, _ | ⟨o', args⟩⟩ <;> simp
  rw [instructionOf]
  cases hkind : t.kind with
  | opcode op =>
    cases rest with
    | nil =>
      simp only [List.isEmpty_nil, if_true, pure_bind, count]
      constructor
      · rintro ⟨hr, h⟩
        exact ⟨⟨op, []⟩, hr, rfl, rfl, h⟩
      · rintro ⟨⟨_, args⟩, hr, hop, hrest, h⟩
        obtain rfl := TokenKind.opcode.inj hop
        obtain rfl := noArgs.1 hrest
        exact ⟨hr, h⟩
    | cons t' rest =>
      simp only [List.isEmpty_cons, Bool.false_eq_true, if_false, bind_eq_ok_iff, operands_eq_ok_iff,
        count]
      constructor
      · rintro ⟨args, ⟨-, hrest⟩, hr, h⟩
        exact ⟨⟨op, args⟩, hr, rfl, hrest, h⟩
      · rintro ⟨⟨_, args⟩, hr, hop, hrest, h⟩
        obtain rfl := TokenKind.opcode.inj hop
        refine ⟨args, ⟨?_, hrest⟩, hr, h⟩
        rintro rfl
        cases hrest
  | _ => simp

/-- A line is an instruction where its tokens spell one, with as many operands as its opcode takes. -/
theorem instructionOf_eq_ok_iff {line : List Char} {ts : List Token} {i : Instruction} :
    instructionOf line ts = .ok (some i) ↔ ts.map Token.kind = i.kinds ∧ i.WellFormed := by
  cases ts with
  | nil => simp [instructionOf, Instruction.kinds]
  | cons t rest =>
    rw [instructionOf_cons_iff]
    simp [Instruction.kinds, and_assoc]

theorem instructionOf_eq_none_iff {line : List Char} {ts : List Token} :
    instructionOf line ts = .ok none ↔ ts = [] := by
  cases ts with
  | nil => simp [instructionOf]
  | cons t rest => simp [instructionOf_cons_iff]

/-- Only tokens decide what a line is, and of them only the kinds. -/
theorem instruction?_eq_ok_iff {line : List Char} {i : Instruction} :
    instruction? line = .ok (some i) ↔ Spells (code line) i.kinds ∧ i.WellFormed := by
  rw [instruction?, bind_eq_ok_iff, spells_iff]
  simp only [instructionOf_eq_ok_iff]
  constructor
  · rintro ⟨ts, hts, hkinds, h⟩
    exact ⟨⟨ts, hts, hkinds⟩, h⟩
  · rintro ⟨⟨ts, hts, hkinds⟩, h⟩
    exact ⟨ts, hts, hkinds, h⟩

theorem instruction?_eq_none_iff {line : List Char} :
    instruction? line = .ok none ↔ ∀ c ∈ code line, Text.isBlank c = true := by
  have hspells : Spells (code line) [] ↔ parts (code line) = [] := List.forall₂_nil_right_iff
  rw [instruction?, bind_eq_ok_iff, ← parts_eq_nil_iff, ← hspells, spells_iff]
  simp [instructionOf_eq_none_iff]

/-! ## Words -/

theorem isDigit_toLower (c : Char) : c.toLower.isDigit = c.isDigit := by
  have h0 : '0'.toNat = 48 := rfl
  have h9 : '9'.toNat = 57 := rfl
  rw [Bool.eq_iff_iff, Char.isDigit_iff_toNat, Char.isDigit_iff_toNat, Text.toNat_toLower]
  split_ifs <;> omega

theorem head?_isDigit_of_sameName {s w : List Char} (h : Text.sameName s w = true) :
    w.head?.any Char.isDigit = s.head?.any Char.isDigit := by
  have hlower : ∀ u, (Text.lower u).head?.any Char.isDigit = u.head?.any Char.isDigit := fun u => by
    cases u with
    | nil => rfl
    | cons c u => exact isDigit_toLower c
  rw [← hlower, ← hlower s, Text.sameName_iff.1 h]

/-- Where a table finds each entry by its own name, it finds it by every spelling of the name. -/
theorem find?_sameName_iff {α : Type} {all : List α} {name : α → List Char}
    (hself : ∀ a, all.find? (fun b => Text.sameName (name b) (name a)) = some a)
    {w : List Char} {a : α} :
    all.find? (fun b => Text.sameName (name b) w) = some a ↔ Text.sameName (name a) w = true := by
  refine ⟨fun h => by simpa using List.find?_some h, fun h => ?_⟩
  have ha := hself a
  unfold Text.sameName at ha ⊢
  rwa [Text.sameName_iff.1 h] at ha

theorem opcode_ofName?_eq_some_iff {w : List Char} {op : Opcode} :
    Opcode.ofName? w = some op ↔ Text.sameName op.name.toList w = true :=
  find?_sameName_iff Opcode.ofName?_name

theorem register_ofName?_eq_some_iff {w : List Char} {r : Register} :
    Register.ofName? w = some r ↔ Text.sameName r.name.toList w = true :=
  find?_sameName_iff Register.ofName?_name

theorem wordKind?_eq_opcode_iff {w : List Char} {op : Opcode} :
    wordKind? w = some (.opcode op) ↔ Text.sameName op.name.toList w = true := by
  rw [← opcode_ofName?_eq_some_iff]
  unfold wordKind?
  constructor
  · intro h
    split_ifs at h
    · simp at h
    · split at h
      · rename_i hop
        simpa [hop] using h
      · simp at h
      · simp at h
  · intro h
    have hdigit : op.name.toList.head?.any Char.isDigit = false := by cases op <;> decide
    rw [← head?_isDigit_of_sameName (opcode_ofName?_eq_some_iff.1 h)] at hdigit
    simp [hdigit, h]

theorem wordKind?_eq_register_iff {w : List Char} {r : Register} :
    wordKind? w = some (.register r) ↔ Text.sameName r.name.toList w = true := by
  rw [← register_ofName?_eq_some_iff]
  unfold wordKind?
  constructor
  · intro h
    split_ifs at h
    · simp at h
    · split at h
      · simp at h
      · rename_i hr
        simpa [hr] using h
      · simp at h
  · intro h
    have hsame := register_ofName?_eq_some_iff.1 h
    have hdigit : r.name.toList.head?.any Char.isDigit = false := by cases r <;> decide
    have hop : Opcode.ofName? r.name.toList = none := by cases r <;> decide
    have hop' : Opcode.ofName? w = none := by
      unfold Opcode.ofName? Text.sameName at hop ⊢
      rwa [Text.sameName_iff.1 hsame] at hop
    rw [← head?_isDigit_of_sameName hsame] at hdigit
    simp [hdigit, h, hop']

theorem head?_isDigit_of_literal {w : List Char} {n : Nat} (h : Text.Literal w n) :
    w.head?.any Char.isDigit = true := by
  have digits : ∀ d : Fin 10, d.val.digitChar.isDigit = true ∧ d.val.digitChar.toUpper.isDigit = true := by
    decide
  cases h with
  | binary => rfl
  | hexadecimal => rfl
  | decimal h =>
    obtain ⟨hne, ds, hds, -⟩ := h
    cases hds with
    | nil => exact absurd rfl hne
    | @cons c d _ _ hd _ =>
      obtain ⟨hlow, hhigh⟩ := digits ⟨d, hd.1⟩
      rcases hd.2 with rfl | rfl
      · exact hlow
      · exact hhigh

theorem wordKind?_eq_number_iff {w : List Char} (hw : ∀ c ∈ w, Text.isWordChar c = true) {v : UInt16} :
    wordKind? w = some (.number v) ↔ Text.Literal w v.toNat := by
  have hplus : '+' ∉ w := fun h => absurd (hw _ h) (by decide)
  rw [← Text.number?_eq_some_iff hplus]
  unfold wordKind?
  constructor
  · intro h
    split_ifs at h
    · simpa using h
    · split at h <;> simp at h
  · intro h
    have hdigit := head?_isDigit_of_literal ((Text.number?_eq_some_iff hplus).1 h)
    simp [hdigit, h]

theorem wordKind?_ne_comma (w : List Char) : wordKind? w ≠ some .comma := by
  unfold wordKind?
  split_ifs
  · simp
  · split <;> simp

/-! ## The grammar -/

theorem kind?_eq_comma_iff {p : Piece} : p.kind? = some .comma ↔ p = .other ',' := by
  cases p with
  | word w => simp [wordKind?_ne_comma w]
  | other c => simp

theorem kind?_eq_opcode_iff {p : Piece} {op : Opcode} :
    p.kind? = some (.opcode op) ↔ ∃ w, p = .word w ∧ Text.sameName op.name.toList w = true := by
  cases p with
  | word w => simp [wordKind?_eq_opcode_iff]
  | other c => simp

theorem kind?_eq_operand_iff {p : Piece} {o : Operand} :
    p.kind? = some o.kind ↔ ∃ w, p = .word w ∧ wordKind? w = some o.kind := by
  cases p with
  | word w => simp
  | other c => cases o <;> simp [Operand.kind]

/-- Operands are spelled by words with single commas between them. -/
theorem forall₂_intersperse_iff {ps : List Piece} {os : List Operand} :
    List.Forall₂ (fun p k => p.kind? = some k) ps ((os.map Operand.kind).intersperse .comma) ↔
      ∃ words, ps = (words.map Piece.word).intersperse (.other ',') ∧
        List.Forall₂ (fun w o => wordKind? w = some o.kind) words os := by
  induction os using List.twoStepInduction generalizing ps with
  | nil => simp
  | singleton o =>
    constructor
    · intro h
      obtain ⟨p, ps, hp, hps, rfl⟩ := List.forall₂_cons_right_iff.1 h
      obtain rfl := List.forall₂_nil_right_iff.1 hps
      obtain ⟨w, rfl, hw⟩ := kind?_eq_operand_iff.1 hp
      exact ⟨[w], rfl, .cons hw .nil⟩
    · rintro ⟨words, rfl, h⟩
      obtain ⟨w, words, hw, hwords, rfl⟩ := List.forall₂_cons_right_iff.1 h
      obtain rfl := List.forall₂_nil_right_iff.1 hwords
      exact .cons hw .nil
  | cons_cons o o' os _ ih =>
    constructor
    · intro h
      obtain ⟨p, ps', hp, h', rfl⟩ := List.forall₂_cons_right_iff.1 h
      obtain ⟨q, ps, hq, hps, rfl⟩ := List.forall₂_cons_right_iff.1 h'
      obtain ⟨w, rfl, hw⟩ := kind?_eq_operand_iff.1 hp
      obtain rfl := kind?_eq_comma_iff.1 hq
      obtain ⟨words, rfl, hwords⟩ := (ih o').1 hps
      obtain ⟨w', words, _, _, rfl⟩ := List.forall₂_cons_right_iff.1 hwords
      exact ⟨w :: w' :: words, rfl, .cons hw hwords⟩
    · rintro ⟨words, rfl, h⟩
      obtain ⟨w, words, hw, hwords, rfl⟩ := List.forall₂_cons_right_iff.1 h
      obtain ⟨w', words, _, _, rfl⟩ := List.forall₂_cons_right_iff.1 hwords
      exact .cons hw (.cons (kind?_eq_comma_iff.2 rfl) ((ih o').2 ⟨_, rfl, hwords⟩))

/-- A text spells an instruction by a mnemonic, and operands behind it with single commas between
them. -/
theorem spells_kinds_iff {s : List Char} {i : Instruction} :
    Spells s i.kinds ↔
      ∃ mnemonic words, parts s = .word mnemonic :: (words.map Piece.word).intersperse (.other ',') ∧
        Text.sameName i.opcode.name.toList mnemonic = true ∧
        List.Forall₂ (fun w o => wordKind? w = some o.kind) words i.operands := by
  unfold Spells Instruction.kinds
  constructor
  · intro h
    obtain ⟨p, ps, hp, hps, hparts⟩ := List.forall₂_cons_right_iff.1 h
    obtain ⟨mnemonic, rfl, hname⟩ := kind?_eq_opcode_iff.1 hp
    obtain ⟨words, rfl, hwords⟩ := forall₂_intersperse_iff.1 hps
    exact ⟨mnemonic, words, hparts, hname, hwords⟩
  · rintro ⟨mnemonic, words, hparts, hname, hwords⟩
    rw [hparts]
    exact .cons (kind?_eq_opcode_iff.2 ⟨mnemonic, rfl, hname⟩)
      (forall₂_intersperse_iff.2 ⟨words, rfl, hwords⟩)

/-! ## Reading by the grammar -/

theorem mem_intersperse {α : Type} {a separator : α} {l : List α} (h : a ∈ l) :
    a ∈ l.intersperse separator := by
  obtain ⟨n, hn⟩ := List.mem_iff_getElem?.1 h
  exact List.mem_of_getElem? (List.getElem?_intersperse_two_mul.trans hn)

theorem isOperand_iff {w : List Char} (hw : ∀ c ∈ w, Text.isWordChar c = true) {o : Operand} :
    IsOperand w o ↔ wordKind? w = some o.kind := by
  cases o with
  | register r =>
    rw [Operand.kind, wordKind?_eq_register_iff]
    exact ⟨fun h => by cases h; assumption, .register⟩
  | immediate v =>
    rw [Operand.kind, wordKind?_eq_number_iff hw]
    constructor
    · intro h
      cases h with
      | number h hn => rwa [UInt16.toNat_ofNat', Nat.mod_eq_of_lt (Nat.lt_succ_of_le hn)]
    · intro h
      have hv := IsOperand.number h (Nat.le_of_lt_succ v.toNat_lt)
      rwa [UInt16.ofNat_toNat] at hv

theorem forall₂_isOperand_iff {words : List (List Char)} {os : List Operand}
    (hwords : ∀ w ∈ words, ∀ c ∈ w, Text.isWordChar c = true) :
    List.Forall₂ IsOperand words os ↔
      List.Forall₂ (fun w o => wordKind? w = some (Operand.kind o)) words os := by
  induction words generalizing os with
  | nil => simp
  | cons w words ih =>
    obtain ⟨hw, hwords⟩ := List.forall_mem_cons.1 hwords
    cases os with
    | nil => simp
    | cons o os =>
      rw [List.forall₂_cons, List.forall₂_cons]
      exact and_congr (isOperand_iff hw) (ih hwords)

theorem isInstruction_iff {s : List Char} {i : Instruction} :
    IsInstruction s i ↔ Spells s i.kinds ∧ i.WellFormed := by
  -- the words of a split consist of word characters, so that numbers among them are literals
  have hoperands : ∀ {mnemonic words},
      parts s = .word mnemonic :: (words.map Piece.word).intersperse (.other ',') →
      (List.Forall₂ IsOperand words i.operands ↔
        List.Forall₂ (fun w o => wordKind? w = some (Operand.kind o)) words i.operands) := by
    intro mnemonic words hparts
    refine forall₂_isOperand_iff fun w hw => ?_
    have hmem : Piece.word w ∈ parts s := by
      rw [hparts]
      exact List.mem_cons_of_mem _ (mem_intersperse (List.mem_map_of_mem hw))
    exact isWordChar_of_mem_parts hmem
  rw [spells_kinds_iff]
  constructor
  · rintro ⟨ps, mnemonic, words, hps, hparts, hname, hwords, hcount⟩
    obtain rfl := hps.pieces_eq
    exact ⟨⟨mnemonic, words, hparts, hname, (hoperands hparts).1 hwords⟩, hcount⟩
  · rintro ⟨⟨mnemonic, words, hparts, hname, hwords⟩, hcount⟩
    exact ⟨pieces s, mnemonic, words, isSplit_pieces s, hparts, hname, (hoperands hparts).2 hwords,
      hcount⟩

/-- **A line is read as the grammar has it.** It is blank where there are only blanks before its comment,
it is the instruction that the text before its comment spells, and in all other cases it is an error. -/
theorem instruction?_grammar (line : List Char) :
    (instruction? line = .ok none ↔ ∀ c ∈ code line, Text.isBlank c = true) ∧
      (∀ i, instruction? line = .ok (some i) ↔ IsInstruction (code line) i) ∧
      ((∃ e, instruction? line = .error e) ↔
        (∃ c ∈ code line, Text.isBlank c = false) ∧ ∀ i, ¬IsInstruction (code line) i) := by
  have hblank : instruction? line = .ok none ↔ ∀ c ∈ code line, Text.isBlank c = true :=
    instruction?_eq_none_iff
  have hinstruction : ∀ i, instruction? line = .ok (some i) ↔ IsInstruction (code line) i :=
    fun i => instruction?_eq_ok_iff.trans isInstruction_iff.symm
  refine ⟨hblank, hinstruction, ?_⟩
  simp only [← hinstruction]
  constructor
  · rintro ⟨e, he⟩
    refine ⟨?_, fun i hi => by rw [he] at hi; cases hi⟩
    by_contra hall
    push Not at hall
    rw [hblank.2 fun c hc => by simpa using hall c hc] at he
    cases he
  · rintro ⟨⟨c, hc, hblank'⟩, hnone⟩
    cases hr : instruction? line with
    | error e => exact ⟨e, rfl⟩
    | ok r =>
      cases r with
      | none => rw [hblank.1 hr c hc] at hblank'; cases hblank'
      | some i => exact absurd hr (hnone i)

/-- A line with a comment is read up to the comment, in which anything may stand, a line that is nothing but a
comment is blank, and a comma that nothing but a comment follows is an error. -/
theorem instruction?_grammar_comment :
    let i : Instruction := ⟨.mov, [.register .ax, .immediate 16]⟩
    let spelled := "Mov ax , 0X0010\t; , POP ;".toList
    let refused := "MOV AX, ; BX".toList
    (code spelled = "Mov ax , 0X0010\t".toList ∧ code refused = "MOV AX, ".toList) ∧
      instruction? spelled = .ok (some i) ∧ IsInstruction (code spelled) i ∧
      instruction? " ; INC AX".toList = .ok none ∧
      instruction? refused = .error (.unexpectedEnd "MOV AX, ; BX") ∧
      ∀ j, ¬IsInstruction (code refused) j := by
  intro i spelled refused
  have hread : instruction? spelled = .ok (some i) := by decide +kernel
  have hrefused : instruction? refused = .error (.unexpectedEnd "MOV AX, ; BX") := by decide +kernel
  have hcode : code spelled = "Mov ax , 0X0010\t".toList ∧ code refused = "MOV AX, ".toList := by
    decide +kernel
  have hcomment : ∀ c ∈ code " ; INC AX".toList, Text.isBlank c = true :=
    List.all_eq_true.1 (by decide +kernel)
  obtain ⟨-, hspelled, -⟩ := instruction?_grammar spelled
  obtain ⟨hblank, -, -⟩ := instruction?_grammar " ; INC AX".toList
  obtain ⟨-, -, herror⟩ := instruction?_grammar refused
  exact ⟨hcode, hread, (hspelled i).1 hread, hblank.2 hcomment, hrefused,
    (herror.1 ⟨_, hrefused⟩).2⟩

end Source

end DosMonitor
