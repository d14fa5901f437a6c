import Mathlib
import DosMonitor.Source.Token

/-!
# The parts of a line

`IsSplit s ps` says what it is to cut a text into its maximal runs of word characters and the characters
between them, without cutting it. `pieces` does this (`isSplit_pieces`), and there is no other way
(`IsSplit.pieces_eq`).

Of the parts only those that are not blank count (`parts`), so blanks around a text are as good as none
(`parts_trim`). Trimming a line and cutting off its comment can be done once and for all (`Text.trim_trim`,
`code_trim_code`).
-/

namespace DosMonitor

namespace Text

theorem isWordChar_iff {c : Char} :
    isWordChar c = true ↔ 48 ≤ c.toNat ∧ c.toNat ≤ 57 ∨ 65 ≤ c.toNat ∧ c.toNat ≤ 90 ∨
      97 ≤ c.toNat ∧ c.toNat ≤ 122 ∨ c.toNat = 95 := by
  have hunderscore : c = '_' ↔ c.toNat = 95 := Char.toNat_inj.symm
  simp only [isWordChar, Char.isAlphanum, Char.isAlpha, Char.isUpper, Char.isLower, Char.isDigit,
    Bool.or_eq_true, Bool.and_eq_true, decide_eq_true_eq, beq_iff_eq, hunderscore, ge_iff_le,
    UInt32.le_iff_toNat_le, Char.toNat_val]
  change ((65 ≤ c.toNat ∧ c.toNat ≤ 90 ∨ 97 ≤ c.toNat ∧ c.toNat ≤ 122) ∨
    48 ≤ c.toNat ∧ c.toNat ≤ 57) ∨ c.toNat = 95 ↔ _
  omega

theorem isBlank_of_isWordChar {c : Char} (h : isWordChar c = true) : isBlank c = false := by
  rw [isWordChar_iff] at h
  simp only [isBlank, blankRanges, List.any_cons, List.any_nil, Bool.or_false, Bool.or_eq_false_iff,
    Bool.and_eq_false_iff, decide_eq_false_iff_not]
  omega

theorem isWordChar_of_isBlank {c : Char} (h : isBlank c = true) : isWordChar c = false := by
  by_contra hc
  rw [Bool.not_eq_false] at hc
  rw [isBlank_of_isWordChar hc] at h
  cases h

/-- Trimming takes blanks away, at the two ends. -/
theorem exists_append_trim (s : List Char) :
    ∃ front back, s = front ++ (trim s ++ back) ∧ (∀ c ∈ front, isBlank c = true) ∧
      ∀ c ∈ back, isBlank c = true := by
  refine ⟨s.takeWhile isBlank, ((trimStart s).reverse.takeWhile isBlank).reverse, ?_,
    fun c hc => isBlank_of_mem_takeWhile hc,
    fun c hc => isBlank_of_mem_takeWhile (List.mem_reverse.1 hc)⟩
  have hend : trim s ++ ((trimStart s).reverse.takeWhile isBlank).reverse = trimStart s := by
    rw [trim, trimEnd, ← List.reverse_append, List.takeWhile_append_dropWhile, List.reverse_reverse]
  rw [hend, trimStart, List.takeWhile_append_dropWhile]

theorem mem_of_mem_trim {s : List Char} {c : Char} (h : c ∈ trim s) : c ∈ s := by
  obtain ⟨front, back, hs, -, -⟩ := exists_append_trim s
  rw [hs]
  exact List.mem_append_right _ (List.mem_append_left _ h)

theorem trim_trim (s : List Char) : trim (trim s) = trim s := by
  have hend : trim s = List.rdropWhile isBlank (trimStart s) := rfl
  obtain ⟨back, hback⟩ := hend ▸ List.rdropWhile_prefix isBlank (trimStart s)
  -- what is left begins where the text without its leading blanks does
  have hstart : trimStart (trim s) = trim s := by
    cases ht : trim s with
    | nil => rfl
    | cons c t =>
      have hhead : (trimStart s).head? = some c := by rw [← hback, ht]; rfl
      exact List.dropWhile_cons_of_neg (by simp [head?_trimStart hhead])
  rw [trim, hstart, hend]
  exact List.rdropWhile_idempotent _ _

theorem trim_of_blank {s : List Char} (h : ∀ c ∈ s, isBlank c = true) : trim s = [] := by
  have hstart : trimStart s = [] := List.dropWhile_eq_nil_iff.2 h
  rw [trim, hstart]
  rfl

theorem trim_eq_nil_iff {s : List Char} : trim s = [] ↔ ∀ c ∈ s, isBlank c = true := by
  refine ⟨fun h c hc => ?_, trim_of_blank⟩
  obtain ⟨front, back, hs, hfront, hback⟩ := exists_append_trim s
  rw [hs, h, List.nil_append] at hc
  exact (List.mem_append.1 hc).elim (hfront c) (hback c)

/-- A text that begins and ends with no blank is what trimming leaves when blanks surround it. -/
theorem trim_append {front s back : List Char} (hfront : ∀ c ∈ front, isBlank c = true)
    (hback : ∀ c ∈ back, isBlank c = true) (hne : s ≠ [])
    (hhead : ∀ c ∈ s.head?, isBlank c = false) (hlast : ∀ c ∈ s.getLast?, isBlank c = false) :
    trim (front ++ (s ++ back)) = s := by
  have hdrop : ∀ {t : List Char}, (∀ c ∈ t.head?, isBlank c = false) → t.dropWhile isBlank = t := by
    intro t ht
    cases t with
    | nil => rfl
    | cons c t => exact List.dropWhile_cons_of_neg (by simp [ht c rfl])
  have hstart : trimStart (front ++ (s ++ back)) = s ++ back := by
    rw [trimStart, List.dropWhile_append_of_pos hfront, hdrop]
    rwa [List.head?_append_of_ne_nil _ hne]
  rw [trim, hstart, trimEnd, List.reverse_append,
    List.dropWhile_append_of_pos fun c hc => hback c (List.mem_reverse.1 hc), hdrop, List.reverse_reverse]
  rwa [List.head?_reverse]

theorem trim_of_not_blank {s : List Char} (h : ∀ c ∈ s, isBlank c = false) : trim s = s := by
  by_cases hne : s = []
  · rw [hne]
    rfl
  · have htrim : trim ([] ++ (s ++ [])) = s := trim_append (by simp) (by simp) hne
      (fun c hc => h c (List.mem_of_mem_head? hc)) fun c hc => h c (List.mem_of_mem_getLast? hc)
    rwa [List.append_nil] at htrim

end Text

namespace Source

/-- The text is cut into its maximal runs of word characters and the characters between them. -/
structure IsSplit (s : List Char) (ps : List Piece) : Prop where
  chars : ps.flatMap Piece.chars = s
  words : ∀ w, .word w ∈ ps → w ≠ [] ∧ ∀ c ∈ w, Text.isWordChar c = true
  others : ∀ c, .other c ∈ ps → Text.isWordChar c = false
  maximal : ∀ v w, ¬[.word v, .word w] <:+: ps

/-! ## Cutting off the comment -/

theorem code_eq_self {s : List Char} (h : ';' ∉ s) : code s = s := by
  rw [code, List.takeWhile_eq_self_iff]
  intro c hc
  rw [bne_iff_ne]
  rintro rfl
  exact h hc

theorem semicolon_notMem_code (line : List Char) : ';' ∉ code line := by
  intro h
  simpa using List.mem_takeWhile_imp h

/-- A line without its comment and the blanks around it has neither. -/
theorem code_trim_code (line : List Char) : code (Text.trim (code line)) = Text.trim (code line) :=
  code_eq_self fun h => semicolon_notMem_code line (Text.mem_of_mem_trim h)

/-! ## Cutting a text -/

theorem pieces_cons (c : Char) (s : List Char) : pieces (c :: s) = consPiece c (pieces s) := rfl

theorem pieces_other {c : Char} (hc : Text.isWordChar c = false) (s : List Char) :
    pieces (c :: s) = .other c :: pieces s := by
  simp [pieces_cons, consPiece, hc]

/-- A run goes on as long as there are word characters, so it ends where something else begins. -/
theorem pieces_append {s t : List Char} (ht : ∀ c ∈ t.head?, Text.isWordChar c = false) :
    pieces (s ++ t) = pieces s ++ pieces t := by
  have hhead : ∀ w rest, pieces t ≠ .word w :: rest := by
    cases t with
    | nil => exact fun w rest h => by cases h
    | cons c t =>
      intro w rest h
      rw [pieces_other (ht c rfl)] at h
      cases h
  induction s with
  | nil => rfl
  | cons c s ih =>
    rw [List.cons_append, pieces_cons, ih, pieces_cons]
    cases hs : pieces s with
    | nil =>
      unfold consPiece
      split_ifs
      · split
        · rename_i w rest h
          exact absurd h (hhead w rest)
        · rfl
      · rfl
    | cons p ps => cases p <;> unfold consPiece <;> split_ifs <;> rfl

theorem pieces_word {w : List Char} (hne : w ≠ []) (hw : ∀ c ∈ w, Text.isWordChar c = true) :
    pieces w = [.word w] := by
  induction w with
  | nil => exact absurd rfl hne
  | cons c w ih =>
    have hc : Text.isWordChar c = true := hw c List.mem_cons_self
    rw [pieces_cons]
    cases w with
    | nil => simp [pieces, consPiece, hc]
    | cons d w =>
      rw [ih (by simp) fun e he => hw e (List.mem_cons_of_mem _ he)]
      simp [consPiece, hc]

theorem isSplit_nil : IsSplit [] [] where
  chars := rfl
  words w h := absurd h List.not_mem_nil
  others c h := absurd h List.not_mem_nil
  maximal v w h := by simp at h

namespace IsSplit

variable {s w : List Char} {ps : List Piece}

theorem tail {p : Piece} (h : IsSplit s (p :: ps)) : IsSplit (ps.flatMap Piece.chars) ps where
  chars := rfl
  words w hw := h.words w (List.mem_cons_of_mem _ hw)
  others c hc := h.others c (List.mem_cons_of_mem _ hc)
  maximal v w hvw := h.maximal v w (List.infix_cons hvw)

theorem next_ne (h : IsSplit s (.word w :: ps)) (v : List Char) (rest : List Piece) :
    ps ≠ .word v :: rest := by
  rintro rfl
  exact h.maximal w v ⟨[], rest, rfl⟩

theorem cons_other (h : IsSplit s ps) {c : Char} (hc : Text.isWordChar c = false) :
    IsSplit (c :: s) (.other c :: ps) where
  chars := congrArg (c :: ·) h.chars
  words v hv := by
    rcases List.mem_cons.1 hv with hv | hv
    · cases hv
    · exact h.words v hv
  others d hd := by
    rcases List.mem_cons.1 hd with hd | hd
    · obtain rfl := Piece.other.inj hd
      exact hc
    · exact h.others d hd
  maximal v u hvu := by
    rcases List.infix_cons_iff.1 hvu with ⟨rest, hrest⟩ | hin
    · cases (List.cons.inj hrest).1
    · exact h.maximal v u hin

theorem cons_word (h : IsSplit s ps) (hne : w ≠ []) (hw : ∀ c ∈ w, Text.isWordChar c = true)
    (hnext : ∀ v rest, ps ≠ .word v :: rest) : IsSplit (w ++ s) (.word w :: ps) where
  chars := congrArg (w ++ ·) h.chars
  words v hv := by
    rcases List.mem_cons.1 hv with hv | hv
    · obtain rfl := Piece.word.inj hv
      exact ⟨hne, hw⟩
    · exact h.words v hv
  others d hd := by
    rcases List.mem_cons.1 hd with hd | hd
    · cases hd
    · exact h.others d hd
  maximal v u hvu := by
    rcases List.infix_cons_iff.1 hvu with ⟨rest, hrest⟩ | hin
    · exact hnext u rest (List.cons.inj hrest).2.symm
    · exact h.maximal v u hin

end IsSplit

theorem isSplit_pieces (s : List Char) : IsSplit s (pieces s) := by
  induction s with
  | nil => exact isSplit_nil
  | cons c s ih =>
    cases hc : Text.isWordChar c with
    | false =>
      rw [pieces_other hc]
      exact ih.cons_other hc
    | true =>
      have hone : ∀ d ∈ [c], Text.isWordChar d = true := by simpa using hc
      rw [pieces_cons]
      unfold consPiece
      rw [if_pos hc]
      split
      · -- the run at the front grows by `c`
        rename_i w rest hps
        rw [hps] at ih
        obtain ⟨-, hw⟩ := ih.words w List.mem_cons_self
        have hgrown := ih.tail.cons_word (List.cons_ne_nil c w) (List.forall_mem_cons.2 ⟨hc, hw⟩)
          ih.next_ne
        rwa [← ih.chars]
      · -- `c` begins a run
        rename_i hne
        exact ih.cons_word (List.cons_ne_nil c []) hone hne

/-- There is one way to cut a text. -/
theorem IsSplit.pieces_eq {s : List Char} {ps : List Piece} (h : IsSplit s ps) : pieces s = ps := by
  induction ps generalizing s with
  | nil =>
    obtain rfl := h.chars
    rfl
  | cons p ps ih =>
    have htail : pieces (ps.flatMap Piece.chars) = ps := ih h.tail
    obtain rfl := h.chars
    cases p with
    | other c =>
      have hc := h.others c List.mem_cons_self
      show pieces (c :: ps.flatMap Piece.chars) = _
      rw [pieces_other hc, htail]
    | word w =>
      obtain ⟨hne, hw⟩ := h.words w List.mem_cons_self
      -- the next part is no run, so the text does not go on with a word character
      have hnext : ∀ c ∈ (ps.flatMap Piece.chars).head?, Text.isWordChar c = false := by
        cases ps with
        | nil => simp
        | cons q ps =>
          cases q with
          | word v => exact absurd rfl (h.next_ne v ps)
          | other c =>
            have hc : Text.isWordChar c = false := h.others c (by simp)
            simpa [Piece.chars] using hc
      show pieces (w ++ ps.flatMap Piece.chars) = _
      rw [pieces_append hnext, pieces_word hne hw, htail]
      rfl

/-! ## The parts that count -/

def Piece.isBlank : Piece → Bool
  | .word _ => false
  | .other c => Text.isBlank c

/-- The parts of a text that are not blank. -/
def parts (s : List Char) : List Piece :=
  (pieces s).filter fun p => !p.isBlank

theorem parts_append {s t : List Char} (ht : ∀ c ∈ t.head?, Text.isWordChar c = false) :
    parts (s ++ t) = parts s ++ parts t := by
  rw [parts, pieces_append ht, List.filter_append, parts, parts]

theorem parts_word {w : List Char} (hne : w ≠ []) (hw : ∀ c ∈ w, Text.isWordChar c = true) :
    parts w = [.word w] := by
  rw [parts, pieces_word hne hw]
  rfl

theorem head?_of_blank {b : List Char} (hb : ∀ c ∈ b, Text.isBlank c = true) :
    ∀ c ∈ b.head?, Text.isWordChar c = false :=
  fun c hc => Text.isWordChar_of_isBlank (hb c (List.mem_of_mem_head? hc))

theorem parts_blank_append {b s : List Char} (hb : ∀ c ∈ b, Text.isBlank c = true) :
    parts (b ++ s) = parts s := by
  induction b with
  | nil => rfl
  | cons c b ih =>
    obtain ⟨hc, hb⟩ := List.forall_mem_cons.1 hb
    rw [← ih hb, parts, List.cons_append, pieces_other (Text.isWordChar_of_isBlank hc)]
    exact List.filter_cons_of_neg (by simp [Piece.isBlank, hc])

theorem parts_of_blank {b : List Char} (hb : ∀ c ∈ b, Text.isBlank c = true) : parts b = [] := by
  have h : parts (b ++ []) = parts [] := parts_blank_append hb
  rwa [List.append_nil] at h

theorem parts_append_blank {s b : List Char} (hb : ∀ c ∈ b, Text.isBlank c = true) :
    parts (s ++ b) = parts s := by
  rw [parts_append (head?_of_blank hb), parts_of_blank hb, List.append_nil]

theorem parts_trim (s : List Char) : parts (Text.trim s) = parts s := by
  obtain ⟨front, back, hs, hfront, hback⟩ := Text.exists_append_trim s
  conv_rhs => rw [hs, parts_blank_append hfront, parts_append_blank hback]

/-- Every character that is not blank is in a part that counts. -/
theorem exists_mem_parts {s : List Char} {c : Char} (hc : c ∈ s) (hblank : Text.isBlank c = false) :
    ∃ p ∈ parts s, c ∈ p.chars := by
  rw [← (isSplit_pieces s).chars, List.mem_flatMap] at hc
  obtain ⟨p, hp, hcp⟩ := hc
  refine ⟨p, List.mem_filter.2 ⟨hp, ?_⟩, hcp⟩
  cases p with
  | word w => rfl
  | other d =>
    obtain rfl := List.mem_singleton.1 hcp
    simp [Piece.isBlank, hblank]

theorem isWordChar_of_mem_parts {s w : List Char} (h : .word w ∈ parts s) :
    ∀ c ∈ w, Text.isWordChar c = true :=
  ((isSplit_pieces s).words w (List.mem_of_mem_filter h)).2

theorem parts_eq_nil_iff {s : List Char} : parts s = [] ↔ ∀ c ∈ s, Text.isBlank c = true := by
  refine ⟨fun h c hc => ?_, parts_of_blank⟩
  by_contra hblank
  rw [Bool.not_eq_true] at hblank
  obtain ⟨p, hp, -⟩ := exists_mem_parts hc hblank
  rw [h] at hp
  cases hp

end Source

end DosMonitor
