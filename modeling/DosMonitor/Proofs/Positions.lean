import Mathlib
import DosMonitor.Proofs.Grammar

/-!
# Where tokens stand

Columns count characters from one. `StandsAt` and `RunAt` say what it is for a text to stand at a column, and
for a word to be a maximal run there, and `Cover` what it is for tokens to cover a text, without cutting it.

Main statement: the tokens of a line cover its code, and every error that has a column names what stands
there (`tokens_cover`). On the way there the parts of a text get their places (`placed`), and the tokens
are read part by part, each at its place (`tokensAt_eq`).
-/

namespace DosMonitor

/-- The text that an error complains about and the column where it stands, if the error has one. -/
def ParseError.place? : ParseError → Option (String × Nat)
  | unknownOpcode text column => some (text, column)
  | invalidOperand text column => some (text, column)
  | unexpectedToken text column => some (text, column)
  | unexpectedEnd _ => none
  | operandCount _ _ => none

namespace Source

/-- The text is what `s` holds from the column on. -/
def StandsAt (s text : List Char) (column : Nat) : Prop :=
  ∃ before after, s = before ++ (text ++ after) ∧ column = before.length + 1

/-- The text is a run of word characters that `s` holds from the column on, and the run can be extended on
neither side. -/
def RunAt (s w : List Char) (column : Nat) : Prop :=
  (∀ c ∈ w, Text.isWordChar c = true) ∧
    ∃ before after, s = before ++ (w ++ after) ∧ column = before.length + 1 ∧
      (∀ c ∈ before.getLast?, Text.isWordChar c = false) ∧ ∀ c ∈ after.head?, Text.isWordChar c = false

/-- The tokens, in order, are the text without its blanks. -/
structure Cover (s : List Char) (ts : List Token) : Prop where
  /-- Each token ends before the next one begins. -/
  ordered : ts.Pairwise fun t u => t.column + t.text.length ≤ u.column
  stands : ∀ t ∈ ts, t.text ≠ "" ∧ StandsAt s t.text.toList t.column
  /-- The character at index `k`, which has column `k + 1`, is in one token. -/
  covered : ∀ k c, s[k]? = some c → Text.isBlank c = false →
    ∃! t, t ∈ ts ∧ t.column ≤ k + 1 ∧ k + 1 < t.column + t.text.length
  runs : ∀ t ∈ ts, t.kind ≠ .comma → RunAt s t.text.toList t.column
  commas : ∀ t ∈ ts, t.kind = .comma → t.text = ","

/-! ## The places of the parts -/

/-- The parts with their columns, the first of which is given. -/
def placed : (column : Nat) → List Piece → List (Nat × Piece)
  | _, [] => []
  | column, p :: ps => (column, p) :: placed (column + p.chars.length) ps

def places (s : List Char) : List (Nat × Piece) :=
  (placed 1 (pieces s)).filter fun q => !q.2.isBlank

theorem mem_placed {column : Nat} {ps : List Piece} {q : Nat × Piece} (h : q ∈ placed column ps) :
    ∃ front back, ps = front ++ q.2 :: back ∧ q.1 = column + (front.flatMap Piece.chars).length := by
  induction ps generalizing column with
  | nil => cases h
  | cons p ps ih =>
    rcases List.mem_cons.1 h with rfl | h
    · exact ⟨[], ps, rfl, rfl⟩
    · obtain ⟨front, back, rfl, hcolumn⟩ := ih h
      refine ⟨p :: front, back, rfl, ?_⟩
      rw [hcolumn, List.flatMap_cons, List.length_append, Nat.add_assoc]

theorem pairwise_placed (column : Nat) (ps : List Piece) :
    (placed column ps).Pairwise fun q r => q.1 + q.2.chars.length ≤ r.1 := by
  induction ps generalizing column with
  | nil => exact .nil
  | cons p ps ih =>
    refine .cons (fun r hr => ?_) (ih _)
    obtain ⟨_, _, _, hcolumn⟩ := mem_placed hr
    exact hcolumn ▸ Nat.le_add_right _ _

/-- Every character of the parts is in one of them, at its place. -/
theorem exists_mem_placed (column : Nat) {k : Nat} {ps : List Piece} {c : Char}
    (h : (ps.flatMap Piece.chars)[k]? = some c) :
    ∃ q ∈ placed column ps, q.1 ≤ column + k ∧ column + k < q.1 + q.2.chars.length ∧ c ∈ q.2.chars := by
  induction ps generalizing column k with
  | nil => cases h
  | cons p ps ih =>
    rw [List.flatMap_cons] at h
    by_cases hk : k < p.chars.length
    · rw [List.getElem?_append_left hk] at h
      exact ⟨(column, p), List.mem_cons_self, Nat.le_add_right _ _, Nat.add_lt_add_left hk _,
        List.mem_of_getElem? h⟩
    · rw [List.getElem?_append_right (Nat.le_of_not_lt hk)] at h
      obtain ⟨q, hq, hle, hlt, hc⟩ := ih (column + p.chars.length) h
      exact ⟨q, List.mem_cons_of_mem _ hq, by omega, by omega, hc⟩

section Places
variable {s : List Char} {q : Nat × Piece}

theorem pairwise_places (s : List Char) :
    (places s).Pairwise fun q r => q.1 + q.2.chars.length ≤ r.1 :=
  (pairwise_placed 1 (pieces s)).filter _

theorem exists_mem_places {k : Nat} {c : Char} (h : s[k]? = some c) (hblank : Text.isBlank c = false) :
    ∃ q ∈ places s, q.1 ≤ k + 1 ∧ k + 1 < q.1 + q.2.chars.length := by
  rw [← flatMap_chars_pieces s] at h
  obtain ⟨q, hq, hle, hlt, hc⟩ := exists_mem_placed 1 h
  refine ⟨q, List.mem_filter.2 ⟨hq, ?_⟩, by omega, by omega⟩
  obtain ⟨column, p⟩ := q
  cases p with
  | word w => rfl
  | other d =>
    obtain rfl := List.mem_singleton.1 hc
    simp [Piece.isBlank, hblank]

theorem mem_places (h : q ∈ places s) :
    ∃ front back, pieces s = front ++ q.2 :: back ∧ q.1 = (front.flatMap Piece.chars).length + 1 := by
  obtain ⟨front, back, hpieces, hcolumn⟩ := mem_placed (List.mem_of_mem_filter h)
  exact ⟨front, back, hpieces, by omega⟩

theorem chars_ne_nil_of_mem_places (h : q ∈ places s) : q.2.chars ≠ [] := by
  obtain ⟨front, back, hpieces, -⟩ := mem_places h
  obtain ⟨column, p⟩ := q
  cases p with
  | word w => exact ((isSplit_pieces s).words w (by rw [hpieces]; simp)).1
  | other c => exact List.cons_ne_nil _ _

theorem eq_append_of_pieces {front back : List Piece} {p : Piece} (h : pieces s = front ++ p :: back) :
    s = front.flatMap Piece.chars ++ (p.chars ++ back.flatMap Piece.chars) := by
  rw [← List.flatMap_cons, ← List.flatMap_append, ← h, flatMap_chars_pieces]

theorem standsAt_of_mem_places (h : q ∈ places s) : StandsAt s q.2.chars q.1 := by
  obtain ⟨front, back, hpieces, hcolumn⟩ := mem_places h
  exact ⟨_, _, eq_append_of_pieces hpieces, hcolumn⟩

/-- The part in front of a word ends with no word character, or it would belong to the word. -/
theorem not_isWordChar_getLast? {front back : List Piece} {w : List Char}
    (h : pieces s = front ++ .word w :: back) :
    ∀ c ∈ (front.flatMap Piece.chars).getLast?, Text.isWordChar c = false := by
  have hsplit := h ▸ isSplit_pieces s
  intro c hc
  rcases List.eq_nil_or_concat front with rfl | ⟨front, p, rfl⟩
  · cases hc
  · cases p with
    | word v => exact absurd ⟨front, back, by simp⟩ (hsplit.maximal v w)
    | other d =>
      obtain rfl : d = c := by simpa [Piece.chars] using hc
      exact hsplit.others d (by simp)

/-- Likewise for the part behind it. -/
theorem not_isWordChar_head? {front back : List Piece} {w : List Char}
    (h : pieces s = front ++ .word w :: back) :
    ∀ c ∈ (back.flatMap Piece.chars).head?, Text.isWordChar c = false := by
  have hsplit := h ▸ isSplit_pieces s
  intro c hc
  cases back with
  | nil => cases hc
  | cons p back =>
    cases p with
    | word v => exact absurd ⟨front, back, by simp⟩ (hsplit.maximal w v)
    | other d =>
      obtain rfl : d = c := by simpa [Piece.chars] using hc
      exact hsplit.others d (by simp)

theorem runAt_of_mem_places {column : Nat} {w : List Char} (h : (column, .word w) ∈ places s) :
    RunAt s w column := by
  obtain ⟨front, back, hpieces, hcolumn⟩ := mem_places h
  refine ⟨((isSplit_pieces s).words w (by rw [hpieces]; simp)).2, _, _, eq_append_of_pieces hpieces,
    hcolumn, not_isWordChar_getLast? hpieces, not_isWordChar_head? hpieces⟩

end Places

/-! ## Tokens at their places -/

/-- The token that a part is where it stands, if it can be one. -/
def tokenAt (column : Nat) : Piece → Except ParseError Token
  | .word w =>
    match wordKind? w with
    | some kind => .ok ⟨kind, .ofList w, column⟩
    | none => .error (.invalidOperand (.ofList w) column)
  | .other c =>
    if c == ',' then .ok ⟨.comma, ",", column⟩ else .error (.unexpectedToken (.ofList [c]) column)

/-- The parts of a line are read one by one, each at its place. -/
theorem tokensAt_eq (column : Nat) (ps : List Piece) :
    tokensAt column ps =
      ((placed column ps).filter fun q => !q.2.isBlank).mapM fun q => tokenAt q.1 q.2 := by
  induction ps generalizing column with
  | nil => rfl
  | cons p ps ih =>
    cases p with
    | word w =>
      rw [tokensAt, placed, List.filter_cons_of_pos (by rfl), List.mapM_cons, tokenAt, ih]
      cases wordKind? w <;> rfl
    | other c =>
      rw [tokensAt, placed]
      by_cases hblank : Text.isBlank c = true
      · rw [if_pos hblank, List.filter_cons_of_neg (by simp [Piece.isBlank, hblank])]
        exact ih _
      · rw [if_neg hblank, List.filter_cons_of_pos (by simp [Piece.isBlank, hblank]), List.mapM_cons,
          tokenAt, ih]
        cases c == ',' <;> rfl

theorem tokenAt_eq_ok {column : Nat} {p : Piece} {t : Token} (h : tokenAt column p = .ok t) :
    t.column = column ∧ t.text.toList = p.chars ∧ p.kind? = some t.kind := by
  cases p with
  | word w =>
    rw [tokenAt] at h
    split at h
    · rename_i kind hkind
      cases h
      exact ⟨rfl, String.toList_ofList, hkind⟩
    · cases h
  | other c =>
    rw [tokenAt] at h
    split_ifs at h with hcomma
    cases h
    obtain rfl := eq_of_beq hcomma
    exact ⟨rfl, by simp [Piece.chars], rfl⟩

theorem tokenAt_eq_error {column : Nat} {p : Piece} {e : ParseError} (h : tokenAt column p = .error e) :
    e.place? = some (.ofList p.chars, column) := by
  cases p with
  | word w =>
    rw [tokenAt] at h
    split at h <;> cases h
    rfl
  | other c =>
    rw [tokenAt] at h
    split_ifs at h
    cases h
    rfl

section Runs
variable {α β ε : Type} {f : α → Except ε β}

theorem forall₂_of_mapM {as : List α} {bs : List β} (h : as.mapM f = .ok bs) :
    List.Forall₂ (fun a b => f a = .ok b) as bs := by
  induction as generalizing bs with
  | nil =>
    cases h
    exact .nil
  | cons a as ih =>
    rw [List.mapM_cons] at h
    obtain ⟨b, hb, h⟩ := bind_eq_ok_iff.1 h
    obtain ⟨bs, hbs, h⟩ := bind_eq_ok_iff.1 h
    cases h
    exact .cons hb (ih hbs)

theorem exists_of_mapM_error {as : List α} {e : ε} (h : as.mapM f = .error e) :
    ∃ a ∈ as, f a = .error e := by
  induction as with
  | nil => cases h
  | cons a as ih =>
    rw [List.mapM_cons] at h
    obtain ha | ⟨b, -, h⟩ := bind_eq_error_iff.1 h
    · exact ⟨a, List.mem_cons_self, ha⟩
    · obtain has | ⟨bs, -, h⟩ := bind_eq_error_iff.1 h
      · obtain ⟨a', ha', he⟩ := ih has
        exact ⟨a', List.mem_cons_of_mem _ ha', he⟩
      · cases h

end Runs

section Line
variable {line : List Char} {ts : List Token} {t : Token} {e : ParseError}

theorem forall₂_places (h : tokens line = .ok ts) :
    List.Forall₂ (fun q t => tokenAt q.1 q.2 = .ok t) (places (code line)) ts := by
  rw [tokens, tokensAt_eq] at h
  exact forall₂_of_mapM h

/-- Tokens stand where the parts that count stand. -/
theorem map_column_length (h : tokens line = .ok ts) :
    (ts.map fun t => (t.column, t.text.length)) =
      (places (code line)).map fun q => (q.1, q.2.chars.length) := by
  rw [← List.forall₂_eq_eq_eq, List.forall₂_map_left_iff, List.forall₂_map_right_iff]
  refine (forall₂_places h).flip.imp fun t q ht => ?_
  obtain ⟨hcolumn, htext, -⟩ := tokenAt_eq_ok ht
  rw [hcolumn, ← String.length_toList, htext]

theorem exists_place_of_mem (h : tokens line = .ok ts) (ht : t ∈ ts) :
    ∃ q ∈ places (code line), tokenAt q.1 q.2 = .ok t := by
  obtain ⟨n, hn, rfl⟩ := List.mem_iff_getElem.1 ht
  have hplaces := forall₂_places h
  exact ⟨_, List.getElem_mem _, hplaces.get (hplaces.length_eq ▸ hn) hn⟩

theorem pairwise_tokens (h : tokens line = .ok ts) :
    ts.Pairwise fun t u => t.column + t.text.length ≤ u.column := by
  have hmap : (ts.map fun t => (t.column, t.text.length)).Pairwise fun q r => q.1 + q.2 ≤ r.1 := by
    rw [map_column_length h]
    exact List.pairwise_map.2 (pairwise_places _)
  exact List.pairwise_map.1 hmap

theorem existsUnique_token (h : tokens line = .ok ts) {k : Nat} {c : Char}
    (hk : (code line)[k]? = some c) (hblank : Text.isBlank c = false) :
    ∃! t, t ∈ ts ∧ t.column ≤ k + 1 ∧ k + 1 < t.column + t.text.length := by
  obtain ⟨q, hq, hle, hlt⟩ := exists_mem_places hk hblank
  have hmem := List.mem_map_of_mem (f := fun q => (q.1, q.2.chars.length)) hq
  rw [← map_column_length h] at hmem
  obtain ⟨t, ht, hplace⟩ := List.mem_map.1 hmem
  obtain ⟨hcolumn, hlength⟩ := Prod.mk.inj hplace
  refine ⟨t, ⟨ht, by omega, by omega⟩, fun u ⟨hu, hle', hlt'⟩ => ?_⟩
  -- of two tokens one comes first, and it ends before the other begins
  by_contra hne
  let Apart := fun t u : Token => t.column + t.text.length ≤ u.column ∨ u.column + u.text.length ≤ t.column
  have hsymm : Std.Symm Apart := ⟨fun _ _ => Or.symm⟩
  have hapart : ts.Pairwise Apart := (pairwise_tokens h).imp Or.inl
  rcases hapart.forall hu ht hne with hbefore | hafter <;> omega

theorem cover_of_tokens (h : tokens line = .ok ts) : Cover (code line) ts where
  ordered := pairwise_tokens h
  stands t ht := by
    obtain ⟨q, hq, htoken⟩ := exists_place_of_mem h ht
    obtain ⟨hcolumn, htext, -⟩ := tokenAt_eq_ok htoken
    refine ⟨fun hempty => chars_ne_nil_of_mem_places hq ?_, ?_⟩
    · rw [← htext, hempty, String.toList_empty]
    · rw [hcolumn, htext]
      exact standsAt_of_mem_places hq
  covered k c hk hblank := existsUnique_token h hk hblank
  runs t ht hkind := by
    obtain ⟨⟨column, p⟩, hq, htoken⟩ := exists_place_of_mem h ht
    obtain ⟨hcolumn, htext, hp⟩ := tokenAt_eq_ok htoken
    cases p with
    | word w =>
      rw [hcolumn, htext]
      exact runAt_of_mem_places hq
    | other c =>
      rw [kind?_other] at hp
      split_ifs at hp
      exact absurd (Option.some.inj hp).symm hkind
  commas t ht hkind := by
    obtain ⟨q, hq, htoken⟩ := exists_place_of_mem h ht
    obtain ⟨-, htext, hp⟩ := tokenAt_eq_ok htoken
    rw [hkind, kind?_eq_comma_iff] at hp
    rw [hp] at htext
    exact String.toList_inj.1 htext

/-! ## Errors with a column -/

theorem standsAt_of_tokens_error {text : String} {column : Nat} (h : tokens line = .error e)
    (hplace : e.place? = some (text, column)) :
    text ≠ "" ∧ StandsAt (code line) text.toList column := by
  rw [tokens, tokensAt_eq] at h
  obtain ⟨q, hq, he⟩ := exists_of_mapM_error h
  rw [tokenAt_eq_error he] at hplace
  cases hplace
  rw [String.toList_ofList]
  exact ⟨fun hempty => chars_ne_nil_of_mem_places hq (String.ofList_eq_empty_iff.1 hempty),
    standsAt_of_mem_places hq⟩

/-- The error complains about the token. -/
theorem operand_error (h : operand t = .error e) : e.place? = some (t.text, t.column) := by
  unfold operand at h
  cases hkind : t.kind <;> rw [hkind] at h <;> cases h <;> rfl

/-- What the parser complains about is a token, where the error has a column at all. -/
theorem operands_error {place : String × Nat} (h : operands line ts = .error e)
    (hplace : e.place? = some place) : ∃ t ∈ ts, place = (t.text, t.column) := by
  induction ts using operands.induct with
  | case1 =>
    cases h
    cases hplace
  | case2 t =>
    rw [operands] at h
    obtain ho | ⟨o, -, h⟩ := bind_eq_error_iff.1 h
    · rw [operand_error ho] at hplace
      exact ⟨t, List.mem_cons_self, (Option.some.inj hplace).symm⟩
    · cases h
  | case3 t separator rest ih =>
    rw [operands] at h
    obtain ho | ⟨o, -, h⟩ := bind_eq_error_iff.1 h
    · rw [operand_error ho] at hplace
      exact ⟨t, List.mem_cons_self, (Option.some.inj hplace).symm⟩
    · split_ifs at h
      · obtain hrest | ⟨os, -, h⟩ := bind_eq_error_iff.1 h
        · obtain ⟨u, hu, hat⟩ := ih hrest
          exact ⟨u, List.mem_cons_of_mem _ (List.mem_cons_of_mem _ hu), hat⟩
        · cases h
      · cases h
        exact ⟨separator, by simp, (Option.some.inj hplace).symm⟩

theorem instructionOf_error {place : String × Nat} (h : instructionOf line ts = .error e)
    (hplace : e.place? = some place) : ∃ t ∈ ts, place = (t.text, t.column) := by
  cases ts with
  | nil => cases h
  | cons t rest =>
    rw [instructionOf] at h
    split at h
    · have hcount : ∀ {op : Opcode} {args : List Operand},
          (if args.length = op.operandCount then pure (some ⟨op, args⟩)
            else throw (.operandCount op args.length) : Except ParseError (Option Instruction)) ≠
            .error e := by
        intro op args h
        split_ifs at h <;> cases h
        cases hplace
      dsimp only at h
      split_ifs at h
      · exact absurd h hcount
      · obtain hargs | ⟨args, -, h⟩ := bind_eq_error_iff.1 h
        · obtain ⟨u, hu, hat⟩ := operands_error hargs hplace
          exact ⟨u, List.mem_cons_of_mem _ hu, hat⟩
        · exact absurd h hcount
    · cases h
      exact ⟨t, List.mem_cons_self, (Option.some.inj hplace).symm⟩

end Line

/-- **Tokens lose nothing and stand where they say.** The tokens of a line cover the code in front of its
comment: each stands at its column, each ends before the next one begins, every character that is not
blank is in exactly one of them, and a token that is no comma is a maximal run of word characters. An error
with a column, of the tokens or of the parser, complains about a text that is not empty and that the
code holds from this column on. -/
theorem tokens_cover (line : List Char) :
    (∀ ts, tokens line = .ok ts → Cover (code line) ts) ∧
    ∀ e text column, tokens line = .error e ∨ instruction? line = .error e →
      e.place? = some (text, column) → text ≠ "" ∧ StandsAt (code line) text.toList column := by
  refine ⟨fun ts => cover_of_tokens, fun e text column he hplace => ?_⟩
  have htokens : tokens line = .error e ∨ ∃ ts, tokens line = .ok ts ∧ instructionOf line ts = .error e :=
    he.elim .inl bind_eq_error_iff.1
  rcases htokens with h | ⟨ts, hts, h⟩
  · exact standsAt_of_tokens_error h hplace
  · obtain ⟨t, ht, hat⟩ := instructionOf_error h hplace
    cases hat
    exact (cover_of_tokens hts).stands t ht

/-- A blank of three bytes counts as one column. -/
theorem tokens_cover_wide_blank :
    let ts : List Token := [⟨.opcode .inc, "inc", 2⟩, ⟨.register .ax, "ax", 6⟩]
    let e : ParseError := .unexpectedToken "é" 8
    tokens ['\u3000', 'i', 'n', 'c', ' ', 'a', 'x', ';', 'é'] = .ok ts ∧
      Cover ['\u3000', 'i', 'n', 'c', ' ', 'a', 'x'] ts ∧
      instruction? ['\u3000', 'i', 'n', 'c', ' ', 'a', 'x', 'é', ';'] = .error e ∧
      StandsAt ['\u3000', 'i', 'n', 'c', ' ', 'a', 'x', 'é'] ['é'] 8 := by
  intro ts e
  have hok : tokens ['\u3000', 'i', 'n', 'c', ' ', 'a', 'x', ';', 'é'] = .ok ts := by decide
  have herror : instruction? ['\u3000', 'i', 'n', 'c', ' ', 'a', 'x', 'é', ';'] = .error e := by decide
  have hcover := (tokens_cover _).1 ts hok
  obtain ⟨-, hstands⟩ := (tokens_cover _).2 e "é" 8 (.inr herror) rfl
  rw [show "é".toList = ['é'] by simp] at hstands
  exact ⟨hok, hcover, herror, hstands⟩

end Source

end DosMonitor
