import Mathlib
import DosMonitor.Proofs.Decoding
import DosMonitor.Proofs.Loading
import DosMonitor.Proofs.Printing

/-!
# The listing agrees with the assembler

A listing is made from the loaded lines, one by one, and an assembled program from the raw lines of the
source, all at once. Both have the same bytes: what a listing shows behind the last mark of each line
(`byteField?`), read back and joined, is what the source is assembled to, and a line is shown without bytes
where the assembler fails (`listing_agrees`).

The way there: a row of bytes is read back as it was written (`readBytes?_bytesText`), no byte field holds the
mark again (`byteField?_listingLine`), and a line and its normal form have the same bytes
(`toOption_assembleLine_normal`).
-/

namespace DosMonitor

namespace Text

/-! ## Words and rows of bytes -/

/-- A text that stays in one piece when it is cut at blanks. -/
def IsUnbroken (w : List Char) : Prop :=
  w ≠ [] ∧ ∀ c ∈ w, isBlank c = false

theorem foldr_growWords {w : List Char} (hw : ∀ c ∈ w, isBlank c = false)
    (state : List Char × List (List Char)) :
    w.foldr growWords state = (w ++ state.1, state.2) := by
  induction w with
  | nil => rfl
  | cons c w ih =>
    rw [List.foldr_cons, ih fun d hd => hw d (List.mem_cons_of_mem _ hd), growWords,
      hw c List.mem_cons_self]
    rfl

theorem words_unbroken {w : List Char} (hw : IsUnbroken w) : words w = [w] := by
  simp [words, foldr_growWords hw.2, consWord, hw.1]

theorem words_append_blank {w : List Char} (hw : IsUnbroken w) {b : Char} (hb : isBlank b = true)
    (s : List Char) : words (w ++ b :: s) = w :: words s := by
  simp [words, List.foldr_append, foldr_growWords hw.2, growWords, hb, consWord, hw.1]

theorem words_intercalate {ws : List (List Char)} (hws : ∀ w ∈ ws, IsUnbroken w) :
    words ([' '].intercalate ws) = ws := by
  induction ws using List.twoStepInduction with
  | nil => rfl
  | singleton w => simpa using words_unbroken (hws w List.mem_cons_self)
  | cons_cons w w' ws _ ih =>
    have hrest := ih w' fun v hv => hws v (List.mem_cons_of_mem _ hv)
    rw [List.intercalate_cons_cons, List.append_assoc]
    show words (w ++ ' ' :: [' '].intercalate (w' :: ws)) = _
    rw [words_append_blank (hws w List.mem_cons_self) (by decide), hrest]

theorem hexChars_eq_hexFixed {width n : Nat} (hpos : 0 < width) (h : n < 16 ^ width) :
    hexChars width n = hexFixed width n := by
  rw [hexChars, Nat.max_eq_left (hexWidth_le hpos h)]

theorem hexNumber?_hexChars {width n : Nat} (h : n < wordLimit) :
    hexNumber? (hexChars width n) = some n := by
  have hchar : ∀ c ∈ hexChars width n, isBlank c = false := fun c hc =>
    isBlank_of_isWordChar (isWordChar_of_mem_hexFixed hc)
  -- no digit is the letter of the `0x` in front of a number
  have hdrop : ∀ x : Char, (∀ d : Fin 16, hexDigit d ≠ x) →
      dropStart? ['0', x] (hexChars width n) = none := by
    intro x hx
    by_contra hsome
    obtain ⟨rest, hrest⟩ := Option.ne_none_iff_exists'.1 hsome
    rw [dropStart?_eq_some_iff] at hrest
    obtain ⟨d, hd⟩ := exists_hexDigit_of_mem_hexFixed
      (show x ∈ hexFixed (max width (hexWidth n)) n by rw [← hexChars, hrest]; simp)
    exact hx d hd
  unfold hexNumber?
  rw [trim_of_not_blank hchar]
  simp only [hdrop 'x' (by decide), hdrop 'X' (by decide)]
  exact readUnsigned_hexChars h

/-- The bytes that a text gives in hexadecimal, with blanks between them. -/
def readBytes? (s : List Char) : Option (List UInt8) :=
  (words s).mapM fun word => (hexBelow? 0x100 word).map UInt8.ofNat

theorem isUnbroken_hex (width n : Nat) : IsUnbroken (hex width n).toList := by
  rw [hex, String.toList_ofList]
  refine ⟨fun hnil => ?_, fun c hc => isBlank_of_isWordChar (isWordChar_of_mem_hexFixed hc)⟩
  have hlength := length_hexFixed (max width (hexWidth n)) n
  rw [← hexChars, hnil, List.length_nil, hexWidth] at hlength
  omega

theorem readBytes?_bytesText (bytes : List UInt8) :
    readBytes? (bytesText bytes).toList = some bytes := by
  have hunbroken : ∀ w ∈ bytes.map fun b => (hex 2 b.toNat).toList, IsUnbroken w := by
    intro w hw
    obtain ⟨b, -, rfl⟩ := List.mem_map.1 hw
    exact isUnbroken_hex 2 b.toNat
  have hbyte : ∀ b : UInt8, (hexBelow? 0x100 (hex 2 b.toNat).toList).map UInt8.ofNat = some b := by
    intro b
    have hb := b.toNat_lt
    rw [hexBelow?, hex, String.toList_ofList, hexNumber?_hexChars (by unfold wordLimit; omega)]
    simp [hb]
  rw [readBytes?, bytesText, String.toList_intercalate, List.map_map]
  show (words ([' '].intercalate (bytes.map fun b => (hex 2 b.toNat).toList))).mapM _ = _
  rw [words_intercalate hunbroken]
  induction bytes with
  | nil => rfl
  | cons b bytes ih =>
    simp only [List.map_cons, List.mapM_cons, hbyte, ih fun w hw => hunbroken w (List.mem_cons_of_mem _ hw)]
    rfl

theorem forall_mem_intercalate {P : Char → Prop} {sep : List Char} {ws : List (List Char)}
    (hsep : ∀ c ∈ sep, P c) (hws : ∀ w ∈ ws, ∀ c ∈ w, P c) : ∀ c ∈ sep.intercalate ws, P c := by
  induction ws using List.twoStepInduction with
  | nil => exact fun c hc => absurd hc List.not_mem_nil
  | singleton w => simpa using hws w List.mem_cons_self
  | cons_cons w w' ws _ ih =>
    have hrest := ih w' fun v hv => hws v (List.mem_cons_of_mem _ hv)
    rw [List.intercalate_cons_cons]
    simp only [List.forall_mem_append]
    exact ⟨⟨hws w List.mem_cons_self, hsep⟩, hrest⟩

/-- A row of bytes is made of digits and spaces. -/
theorem char_bytesText (bytes : List UInt8) :
    ∀ c ∈ (bytesText bytes).toList, c = ' ' ∨ ∃ d : Fin 16, hexDigit d = c := by
  rw [bytesText, String.toList_intercalate, List.map_map]
  refine forall_mem_intercalate (by simp) fun w hw c hc => ?_
  obtain ⟨b, -, rfl⟩ := List.mem_map.1 hw
  rw [Function.comp_apply, hex, String.toList_ofList] at hc
  exact .inr (exists_hexDigit_of_mem_hexFixed hc)

/-! ## The last mark of a text -/

/-- What follows the last place at which a text holds a mark. -/
def afterLast? (mark : List Char) : List Char → Option (List Char)
  | [] => none
  | c :: s => (afterLast? mark s).or (dropStart? mark (c :: s))

theorem afterLast?_eq_none {a : Char} {s : List Char} (h : a ∉ s) (mark : List Char) :
    afterLast? (a :: mark) s = none := by
  induction s with
  | nil => rfl
  | cons c s ih =>
    obtain ⟨hc, hs⟩ := not_or.1 (mt List.mem_cons.2 h)
    simp [afterLast?, ih hs, dropStart?, hc]

/-- A mark whose first character comes nowhere behind it is the last one. -/
theorem afterLast?_append {a : Char} {mark t : List Char} (h : a ∉ mark ++ t) (s : List Char) :
    afterLast? (a :: mark) (s ++ a :: (mark ++ t)) = some t := by
  induction s with
  | nil =>
    have hhere : dropStart? (a :: mark) (a :: (mark ++ t)) = some t := dropStart?_eq_some_iff.2 rfl
    rw [List.nil_append, afterLast?, afterLast?_eq_none h, hhere, Option.none_or]
  | cons c s ih => rw [List.cons_append, afterLast?, ih, Option.some_or]

end Text

theorem mapM_eq_none_iff {α β : Type} {f : α → Option β} {xs : List α} :
    xs.mapM f = none ↔ ∃ x ∈ xs, f x = none := by
  induction xs with
  | nil => simp
  | cons x xs ih =>
    rw [List.mapM_cons, List.exists_mem_cons_iff, ← ih]
    cases f x with
    | none => simp
    | some y => cases xs.mapM f <;> simp

theorem Source.normalLines_cons (line : String) (source : List String) :
    normalLines (line :: source) =
      (normalLine? line.toList).toList.map String.ofList ++ normalLines source :=
  List.flatMap_cons

namespace Assembly

/-! ## The lines of a listing -/

/-- What stands in front of the byte code in a listing. -/
def codeMark : List Char :=
  "bytes(pseudo): ".toList

/-- What a line of a listing shows as byte code: all that follows the last mark. -/
def byteField? (text : String) : Option String :=
  (Text.afterLast? codeMark text.toList).map String.ofList

/-- The bytes that a line of a listing shows. -/
def shownBytes? (text : String) : Option (List UInt8) :=
  (byteField? text).bind fun field => Text.readBytes? field.toList

theorem mark_notMem_codeText (code : Option (List UInt8)) : 'b' ∉ (codeText code).toList := by
  unfold codeText
  split
  · intro h
    rcases Text.char_bytesText _ _ h with h | ⟨d, hd⟩
    · cases h
    · revert d
      decide
  · decide

/-- A line of a listing is its address, the source and, behind the mark, the byte code. -/
theorem toList_listingLine (line : List Char) (address : UInt16) :
    (listingLine line address).toList =
      Text.hexChars 4 address.toNat ++ (": ".toList ++
        Text.padRight sourceColumnWidth (Text.trim (Source.code line)) ++ " ".toList) ++
        (codeMark ++ (codeText (assembleLine line).toOption).toList) := by
  have hmark : " bytes(pseudo): ".toList = " ".toList ++ codeMark := by decide
  have hstring : ∀ t : String, toString t = t := fun _ => rfl
  simp only [listingLine, hstring, String.toList_append, Text.hex, String.toList_ofList, hmark,
    List.append_assoc]

theorem byteField?_listingLine (line : List Char) (address : UInt16) :
    byteField? (listingLine line address) = some (codeText (assembleLine line).toOption) := by
  have hmark : codeMark = 'b' :: "ytes(pseudo): ".toList := by decide
  have hlast : 'b' ∉ "ytes(pseudo): ".toList ++ (codeText (assembleLine line).toOption).toList :=
    List.not_mem_append (by decide) (mark_notMem_codeText _)
  rw [byteField?, toList_listingLine, hmark, List.cons_append, Text.afterLast?_append hlast,
    Option.map_some, String.ofList_toList]

/-! ## A line and its normal form -/

theorem assembleLine_of_label?_eq_none {line : List Char} (h : Source.label? line = none) :
    (assembleLine line).toOption =
      match Source.instruction? line with
      | .ok (some i) => (encode i).toOption
      | .ok none => some []
      | .error _ => none := by
  rw [assembleLine, h, if_neg (by decide)]
  rcases Source.instruction? line with e | _ | i <;> rfl

/-- A line and its normal form have the same bytes, or none. The errors may differ. -/
theorem toOption_assembleLine_normal {line text : List Char}
    (h : Source.normalLine? line = some text) :
    (assembleLine text).toOption = (assembleLine line).toOption := by
  obtain ⟨hlabel, rfl, -⟩ := Source.normalLine?_eq_some h
  rw [assembleLine_of_label?_eq_none ((Source.label?_normal line).trans hlabel),
    assembleLine_of_label?_eq_none hlabel]
  cases hread : Source.instruction? line with
  | ok r => rw [Source.instruction?_normal.2 hread]
  | error e =>
    cases hread' : Source.instruction? (Text.trim (Source.code line)) with
    | ok r => simp [Source.instruction?_normal.1 hread'] at hread
    | error e' => rfl

theorem assembleLine_dropped {line : List Char} (h : Source.normalLine? line = none) :
    assembleLine line = .ok [] := by
  unfold assembleLine
  rcases Source.normalLine?_eq_none h with hlabel | hblank
  · rw [if_pos hlabel]
  · rw [hblank]
    split_ifs <;> rfl

/-- A line that a program keeps is not blank, so it has a byte or is in error. -/
theorem ne_nil_of_assembleLine {line : List Char} (h : Source.normalLine? line = some line)
    {code : List UInt8} (hcode : assembleLine line = .ok code) : code ≠ [] := by
  obtain ⟨hlabel, htext, hne⟩ := Source.normalLine?_eq_some h
  rw [assembleLine, hlabel, if_neg (by decide)] at hcode
  rcases hread : Source.instruction? line with e | _ | i <;> rw [hread] at hcode
  · cases hcode
  · rw [htext, Text.trim_of_blank (Source.instruction?_eq_none_iff.1 hread)] at hne
    exact absurd rfl hne
  · exact ne_nil_of_encode hcode

theorem toOption_assemble_cons (line : String) (source : List String) :
    (assemble (line :: source)).toOption =
      (assembleLine line.toList).toOption.bind fun first =>
        (assemble source).toOption.map fun rest => first ++ rest := by
  rw [assemble]
  cases assembleLine line.toList with
  | error e => rfl
  | ok first => cases assemble source <;> rfl

/-- A source is assembled from the normal forms of its lines. -/
theorem toOption_assemble (source : List String) :
    (assemble source).toOption =
      ((Source.normalLines source).mapM fun line => (assembleLine line.toList).toOption).map
        List.flatten := by
  induction source with
  | nil => rfl
  | cons line source ih =>
    rw [toOption_assemble_cons, ih, Source.normalLines_cons]
    cases hline : Source.normalLine? line.toList with
    | none =>
      rw [assembleLine_dropped hline]
      exact Option.map_id'
    | some text =>
      rw [← toOption_assembleLine_normal hline, Option.toList_some, List.map_singleton,
        List.singleton_append, List.mapM_cons, String.toList_ofList]
      cases (assembleLine text).toOption with
      | none => rfl
      | some first =>
        cases (Source.normalLines source).mapM fun line => (assembleLine line.toList).toOption <;> rfl

/-! ## The listing of a program -/

theorem prefix_listingLine (line : List Char) (address : UInt16) :
    (Text.hexFixed 4 address.toNat ++ ": ".toList) <+: (listingLine line address).toList := by
  rw [toList_listingLine, Text.hexChars_eq_hexFixed (by decide) address.toNat_lt]
  simp only [List.append_assoc, List.prefix_append_right_inj, List.prefix_append]

theorem byteField?_eq_dashes_iff {line : List Char} (h : Source.normalLine? line = some line)
    (address : UInt16) :
    byteField? (listingLine line address) = some "--" ↔ ∃ e, assembleLine line = .error e := by
  rw [byteField?_listingLine]
  cases hcode : assembleLine line with
  | error e => simp [Except.toOption, codeText]
  | ok code =>
    obtain ⟨b, rest, rfl⟩ := List.exists_cons_of_ne_nil (ne_nil_of_assembleLine h hcode)
    have hdash : Text.bytesText (b :: rest) ≠ "--" := by
      intro heq
      rcases Text.char_bytesText (b :: rest) '-' (by rw [heq]; decide) with hc | ⟨d, hd⟩
      · cases hc
      · revert d
        decide
    simp [Except.toOption, codeText, hdash]

theorem shownBytes?_listingLine {line : List Char} (h : Source.normalLine? line = some line)
    (address : UInt16) :
    shownBytes? (listingLine line address) = (assembleLine line).toOption := by
  rw [shownBytes?, byteField?_listingLine, Option.bind_some]
  cases hcode : assembleLine line with
  | error e => exact (by decide : Text.readBytes? "--".toList = none)
  | ok code =>
    obtain ⟨b, rest, rfl⟩ := List.exists_cons_of_ne_nil (ne_nil_of_assembleLine h hcode)
    exact Text.readBytes?_bytesText (b :: rest)

theorem toOption_eq_none_iff {ε α : Type} {r : Except ε α} :
    r.toOption = none ↔ ∃ e, r = .error e := by
  cases r <;> simp [Except.toOption]

end Assembly

def Program.listing (p : Program) : List String :=
  p.lines.toList.mapIdx fun i line => Assembly.listingLine line.toList (p.address i)

theorem Program.getElem?_listing (p : Program) (i : Nat) :
    p.listing[i]? = p.lines[i]?.map fun line => Assembly.listingLine line.toList (p.address i) := by
  rw [listing, List.getElem?_mapIdx, Array.getElem?_toList]

theorem Program.mapM_listing {p : Program}
    (h : ∀ line ∈ p.lines, Source.normalLine? line.toList = some line.toList) :
    p.listing.mapM Assembly.shownBytes? =
      p.lines.toList.mapM fun line => (Assembly.assembleLine line.toList).toOption := by
  have hmap : p.listing.map Assembly.shownBytes? =
      p.lines.toList.map fun line => (Assembly.assembleLine line.toList).toOption := by
    refine List.ext_getElem? fun i => ?_
    rw [List.getElem?_map, getElem?_listing, List.getElem?_map, Array.getElem?_toList]
    cases hline : p.lines[i]? with
    | none => rfl
    | some line => exact congrArg some (Assembly.shownBytes?_listingLine (h line (Array.mem_of_getElem? hline)) _)
  have hread := congrArg (List.mapM id) hmap
  rw [List.mapM_map, List.mapM_map] at hread
  exact hread

namespace Machine

open Assembly

/-- **The listing of a loaded program agrees with the assembler.** It has one line for each line of the
program, which starts with the four digits of its address; this counts on from the base and wraps at 2^16.
A line is shown without bytes exactly where assembling it fails. So the source, assembled as a whole, fails
where a line of the listing has no bytes, and else gives the bytes that the listing shows, one line after the
other. -/
theorem listing_agrees (m : Machine) (source : List String) (base : UInt16) :
    let lines := (Program.ofSource source base).lines
    ∃ texts, (after (load source base) m).listing = .ok texts ∧ texts.length = lines.size ∧
      (∀ i line, lines[i]? = some line → ∃ text, texts[i]? = some text ∧
        (Text.hexFixed 4 ((base.toNat + i) % 0x10000) ++ ": ".toList) <+: text.toList ∧
        (byteField? text = some "--" ↔ ∃ e, assembleLine line.toList = .error e)) ∧
      ((∃ e, assemble source = .error e) ↔ ∃ text ∈ texts, byteField? text = some "--") ∧
      (assemble source).toOption = (texts.mapM shownBytes?).map List.flatten := by
  intro lines
  let p := Program.ofSource source base
  have hnormal : ∀ line ∈ p.lines, Source.normalLine? line.toList = some line.toList :=
    fun line hline => Source.normalLine?_of_mem
      (by rwa [← Program.lines_ofSource source base, Array.mem_toList_iff])
  have hassemble : (assemble source).toOption = (p.listing.mapM shownBytes?).map List.flatten := by
    rw [toOption_assemble, Program.mapM_listing hnormal, Program.lines_ofSource source base]
  refine ⟨p.listing, rfl, by simp [Program.listing, p, lines], ?_, ?_, hassemble⟩
  · intro i line hline
    have haddress : (p.address i).toNat = (base.toNat + i) % 0x10000 := by
      simp [Program.address, p, Program.base_ofSource]
    refine ⟨listingLine line.toList (p.address i), ?_, ?_,
      byteField?_eq_dashes_iff (hnormal line (Array.mem_of_getElem? hline)) _⟩
    · rw [p.getElem?_listing, show p.lines[i]? = some line from hline, Option.map_some]
    · rw [← haddress]
      exact prefix_listingLine _ _
  · rw [← toOption_eq_none_iff, hassemble, Option.map_eq_none_iff, mapM_eq_none_iff]
    refine exists_congr fun text => and_congr_right fun htext => ?_
    obtain ⟨i, hi⟩ := List.mem_iff_getElem?.1 htext
    obtain ⟨line, hl, rfl⟩ := Option.map_eq_some_iff.1 ((p.getElem?_listing i).symm.trans hi)
    have hn := hnormal line (Array.mem_of_getElem? hl)
    rw [shownBytes?_listingLine hn, byteField?_eq_dashes_iff hn, toOption_eq_none_iff]

/-- A program whose second line lies at address zero and has no bytes. -/
theorem listing_agrees_standard :
    let m := standard "" (.ofInput [])
    let source := ["start:", "MOV AX, 1 ; one", "", "NEG AX"]
    (Program.ofSource source 0xFFFF).lines[1]? = some "NEG AX" ∧
    ∃ texts, (after (load source 0xFFFF) m).listing = .ok texts ∧ texts.length = 2 ∧
      (∃ text, texts[1]? = some text ∧ "0000: ".toList <+: text.toList ∧
        byteField? text = some "--") ∧
      ∃ e, assemble source = .error e := by
  intro m source
  have hlines : (Program.ofSource source 0xFFFF).lines = #["MOV AX, 1", "NEG AX"] := by decide +kernel
  obtain ⟨texts, hlisting, hlength, hline, hfails, -⟩ := listing_agrees m source 0xFFFF
  rw [hlines] at hlength hline
  obtain ⟨text, htext, haddress, hdashes⟩ := hline 1 "NEG AX" rfl
  have hbytes : byteField? text = some "--" :=
    hdashes.2 ⟨.exec (.encoding "NEG AX"), by decide +kernel⟩
  exact ⟨by rw [hlines]; rfl, texts, hlisting, hlength, ⟨text, htext, haddress, hbytes⟩,
    hfails.2 ⟨text, List.mem_of_getElem? htext, hbytes⟩⟩

end Machine

end DosMonitor
