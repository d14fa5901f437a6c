import DosMonitor.Proofs.Listing
import DosMonitor.Proofs.Locations
import DosMonitor.Proofs.Scanning
import DosMonitor.Proofs.Transfers

/-!
# Arguments of a command line

A command line is cut at its first blank, its arguments are trimmed and then cut into words, and what follows
the first words is taken as a whole. A rest that neither begins nor ends with a blank (`Text.IsTrimmed`) comes
through all of this as it was written.

Main statements: the lines that fill, search and enter are read as the commands with these addresses and this
rest (`Command.ofLine?_fill`, `Command.ofLine?_search`, `Command.ofLine?_enter`), where addresses may be spelled
in any way that means them (`Text.IsHex`). Dispatched to a machine they do what the commands do
(`Machine.dispatch_fill`, `Machine.dispatch_search`, `Machine.dispatch_enter`).
-/

namespace DosMonitor

namespace Text

/-! ## Spellings of a number -/

/-- The text spells a number in hexadecimal, in either case and with or without `0x`. -/
inductive IsHex : List Char → Nat → Prop
  | bare {digits : List Char} {n : Nat} (h : Denotes 16 digits n) : IsHex digits n
  | marked {x : Char} {digits : List Char} {n : Nat} (hx : x = 'x' ∨ x = 'X') (h : Denotes 16 digits n) :
      IsHex ('0' :: x :: digits) n

section IsHex
variable {s : List Char} {n : Nat}

theorem Denotes.isUnbroken (h : Denotes 16 s n) : IsUnbroken s :=
  ⟨h.1, fun _ hc => (h.ne_mark hc).1⟩

theorem Denotes.upper (h : Denotes 16 s n) : Denotes 16 (upper s) n := by
  have all : ∀ d : Fin 16, d.val.digitChar.toUpper.toUpper = d.val.digitChar.toUpper := by decide
  obtain ⟨hne, ds, hds, hvalue⟩ := h
  refine ⟨by simpa [Text.upper] using hne, ds, ?_, hvalue⟩
  rw [Text.upper, List.forall₂_map_left_iff]
  refine hds.imp fun c d hd => ⟨hd.1, .inr ?_⟩
  rcases hd.2 with rfl | rfl
  · rfl
  · exact all ⟨d, hd.1⟩

namespace IsHex

theorem isUnbroken (h : IsHex s n) : IsUnbroken s := by
  cases h with
  | bare h => exact h.isUnbroken
  | marked hx h =>
    refine ⟨List.cons_ne_nil _ _,
      List.forall_mem_cons.2 ⟨by decide, List.forall_mem_cons.2 ⟨?_, ?_⟩⟩⟩
    · rcases hx with rfl | rfl <;> decide
    · exact h.isUnbroken.2

theorem upper (h : IsHex s n) : IsHex (upper s) n := by
  cases h with
  | bare h => exact .bare h.upper
  | marked hx h => exact .marked (.inr (by rcases hx with rfl | rfl <;> rfl)) h.upper

theorem hexNumber? (h : IsHex s n) (hn : n < wordLimit) : hexNumber? s = some n := by
  cases h with
  | bare h => exact hexNumber?_of_denotes h hn
  | marked hx h => exact hexNumber?_of_mark hx h hn

end IsHex

/-- What is read without a sign is spelled so. -/
theorem denotes_of_readUnsigned (hplus : '+' ∉ s) (h : readUnsigned 16 wordLimit s = some n) :
    Denotes 16 s n :=
  ((readUnsigned_eq_some_iff (by decide) hplus).1 h).1

end IsHex

/-! ## Texts that stay as they are -/

/-- A text that neither begins nor ends with a blank. -/
structure IsTrimmed (s : List Char) : Prop where
  ne_nil : s ≠ []
  first : ∀ c ∈ s.head?, isBlank c = false
  last : ∀ c ∈ s.getLast?, isBlank c = false

section IsTrimmed
variable {w s : List Char}

theorem IsTrimmed.trim_eq (h : IsTrimmed s) : trim s = s := by
  have htrim : trim ([] ++ (s ++ [])) = s := trim_append (by simp) (by simp) h.ne_nil h.first h.last
  rwa [List.nil_append, List.append_nil] at htrim

theorem IsUnbroken.isTrimmed (h : IsUnbroken w) : IsTrimmed w :=
  ⟨h.1, fun c hc => h.2 c (List.mem_of_mem_head? hc), fun c hc => h.2 c (List.mem_of_mem_getLast? hc)⟩

theorem isUnbroken_singleton {c : Char} (hc : isBlank c = false) : IsUnbroken [c] :=
  ⟨List.cons_ne_nil _ _, List.forall_mem_singleton.2 hc⟩

theorem IsTrimmed.cons_word (hw : IsUnbroken w) (h : IsTrimmed s) : IsTrimmed (w ++ ' ' :: s) where
  ne_nil := List.append_ne_nil_of_left_ne_nil hw.1 _
  first c hc := by
    rw [List.head?_append_of_ne_nil _ hw.1] at hc
    exact hw.isTrimmed.first c hc
  last c hc := by
    rw [List.getLast?_append_of_ne_nil _ (List.cons_ne_nil _ _), List.getLast?_cons_of_ne_nil h.ne_nil] at hc
    exact h.last c hc

theorem IsTrimmed.words_ne_nil (h : IsTrimmed s) : words s ≠ [] := by
  obtain ⟨c, rest, rfl⟩ := List.exists_cons_of_ne_nil h.ne_nil
  have hc : isBlank c = false := h.first c rfl
  simp [words, growWords, hc, consWord]

theorem cutAtBlank_append (hw : IsUnbroken w) (s : List Char) : cutAtBlank (w ++ ' ' :: s) = (w, s) := by
  have hall : ∀ c ∈ w, (!isBlank c) = true := fun c hc => by rw [hw.2 c hc]; rfl
  have hspace : isBlank ' ' = true := by decide
  simp [cutAtBlank, List.takeWhile_append_of_pos hall, List.dropWhile_append_of_pos hall, hspace]

theorem IsTrimmed.dropWords_zero (h : IsTrimmed s) : dropWords 0 s = s := by
  obtain ⟨c, rest, rfl⟩ := List.exists_cons_of_ne_nil h.ne_nil
  have hc : isBlank c = false := h.first c rfl
  simp [dropWords, trimStart, hc]

theorem dropWords_append (hw : IsUnbroken w) (n : Nat) (s : List Char) :
    dropWords (n + 1) (w ++ ' ' :: s) = dropWords n s := by
  have hall : ∀ c ∈ w, (!isBlank c) = true := fun c hc => by rw [hw.2 c hc]; rfl
  have hspace : isBlank ' ' = true := by decide
  have hskip : dropWords n (' ' :: s) = dropWords n s := by
    cases n <;> simp [dropWords, trimStart, hspace]
  have hstart : trimStart (w ++ ' ' :: s) = w ++ ' ' :: s := by
    obtain ⟨c, rest, rfl⟩ := List.exists_cons_of_ne_nil hw.1
    simp [trimStart, hw.2 c List.mem_cons_self]
  rw [dropWords, hstart, List.dropWhile_append_of_pos hall]
  simpa [hspace] using hskip

end IsTrimmed

end Text

/-! ## Command lines -/

namespace Command

open Text (IsHex IsTrimmed IsUnbroken)

variable {line start stop : String} {w args rest : List Char} {a b : Nat}

/-- A line of a word and its arguments. -/
theorem ofLine?_words (hw : IsUnbroken w) (hargs : IsTrimmed args) (hline : line.toList = w ++ ' ' :: args) :
    ofLine? line = parse? (.ofList (Text.lower w)) args := by
  rw [ofLine?_eq, word, hline, (hargs.cons_word hw).trim_eq, Text.cutAtBlank_append hw, hargs.trim_eq]

variable (hstart : IsHex start.toList a) (ha : a < Text.wordLimit) (hstop : IsHex stop.toList b)
  (hb : b < Text.wordLimit) (hrest : IsTrimmed rest)

include hstart ha hrest

theorem ofLine?_enter (hline : line.toList = "e ".toList ++ start.toList ++ ' ' :: rest) :
    ofLine? line = some (enter a (.ofList ((quoted? rest).getD rest))) := by
  have hunbroken := hstart.isUnbroken
  obtain ⟨v, more, hwords⟩ := List.exists_cons_of_ne_nil hrest.words_ne_nil
  rw [ofLine?_words (Text.isUnbroken_singleton (c := 'e') (by decide)) (hrest.cons_word hunbroken) hline]
  change parseEnter? _ (Text.words _) = _
  rw [Text.words_append_blank hunbroken (by decide), hwords]
  change (do return enter (← Text.hexNumber? _) _) = _
  rw [hstart.hexNumber? ha, Text.dropWords_append hunbroken, hrest.dropWords_zero]
  rfl

theorem ofLine?_search (hline : line.toList = "s ".toList ++ start.toList ++ ' ' :: rest) :
    ofLine? line = (pattern? rest).map (search a) := by
  have hunbroken := hstart.isUnbroken
  obtain ⟨v, more, hwords⟩ := List.exists_cons_of_ne_nil hrest.words_ne_nil
  rw [ofLine?_words (Text.isUnbroken_singleton (c := 's') (by decide)) (hrest.cons_word hunbroken) hline]
  change parseSearch? _ (Text.words _) = _
  rw [Text.words_append_blank hunbroken (by decide), hwords]
  change (do return search (← Text.hexNumber? _) (← pattern? _)) = _
  rw [hstart.hexNumber? ha, Text.dropWords_append hunbroken, hrest.dropWords_zero]
  cases pattern? rest <;> rfl

include hstop hb

theorem ofLine?_fill
    (hline : line.toList = "f ".toList ++ start.toList ++ ' ' :: (stop.toList ++ ' ' :: rest)) :
    ofLine? line = (pattern? rest).map (fill a b) := by
  have hunbroken := hstart.isUnbroken
  have hunbroken' := hstop.isUnbroken
  obtain ⟨v, more, hwords⟩ := List.exists_cons_of_ne_nil hrest.words_ne_nil
  rw [ofLine?_words (Text.isUnbroken_singleton (c := 'f') (by decide))
    ((hrest.cons_word hunbroken').cons_word hunbroken) hline]
  change parseFill? _ (Text.words _) = _
  rw [Text.words_append_blank hunbroken (by decide), Text.words_append_blank hunbroken' (by decide), hwords]
  change (do return fill (← Text.hexNumber? _) (← Text.hexNumber? _) (← pattern? _)) = _
  rw [hstart.hexNumber? ha, hstop.hexNumber? hb, Text.dropWords_append hunbroken,
    Text.dropWords_append hunbroken', hrest.dropWords_zero]
  cases pattern? rest <;> rfl

end Command

/-! ## Machines -/

namespace Machine

open Text (IsHex IsTrimmed)

variable {host : Host} {m m' : Machine} {line start stop : String} {rest : List Char} {a b first count : Nat}
  {command : Command} {output : CommandOutput} {pattern : List UInt8} {contents : Nat → Option UInt8}

/-- A block of the active page has new contents, and nothing else about the machine has changed. -/
structure Written (m m' : Machine) (first count : Nat) (contents : Nat → Option UInt8) : Prop where
  rest : m' = { m with core := { m.core with bus := m'.memory } }
  memory : m.memory.Rewritten m'.memory first count contents

/-- What the machine has to say does not depend on its memory. -/
theorem Written.conclude_eq (h : m.Written m' first count contents) (output : CommandOutput) :
    m'.conclude output = m.conclude output := by
  rw [h.rest]
  rfl

theorem conclude_of_running (h : m.status = .running) (output : CommandOutput) :
    m.conclude output = output := by
  rw [conclude, h]

theorem dispatch_eq (hline : Command.ofLine? line = some command)
    (hperform : command.perform host m = .ok output m') :
    m.dispatch host line = (m'.conclude output, m') := by
  have hblank : ¬isBlankLine line = true := fun hblank => by
    rw [Command.ofLine?_of_blank hblank] at hline
    cases hline
  rw [dispatch, if_neg hblank, hline]
  dsimp only
  rw [hperform]

/-- A line whose command writes a block, which has been let through. -/
theorem dispatch_writes {x : BusM Memory Unit} (hline : Command.ofLine? line = some command)
    (hcommand : command.perform host = onMemory x >>= fun _ => pure .nothing)
    (hsucceeds : Succeeds x m.memory)
    (hwrites : ∀ memory, x m.memory = .ok () memory → m.memory.Rewritten memory first count contents) :
    ∃ m', m.dispatch host line = (m.conclude .nothing, m') ∧ m.Written m' first count contents := by
  obtain ⟨_, m', hm'⟩ := succeeds_onMemory.2 hsucceeds
  obtain ⟨hx, hrest⟩ := onMemory_ok hm'
  have hwritten : m.Written m' first count contents := ⟨hrest, hwrites _ hx⟩
  have hperform : command.perform host m = .ok .nothing m' := by
    rw [hcommand, bind_of_ok hm']
    rfl
  exact ⟨m', hwritten.conclude_eq .nothing ▸ dispatch_eq hline hperform, hwritten⟩

section Lines

variable (host : Host) (m : Machine) (hstart : IsHex start.toList a) (ha : a < pageSize)
  (hrest : IsTrimmed rest)

include hstart ha hrest

theorem dispatch_fill (hstop : IsHex stop.toList b) (hab : a ≤ b) (hb : b ≤ pageSize)
    (hpattern : Command.pattern? rest = some pattern) (hne : pattern ≠ [])
    (hline : line.toList = "f ".toList ++ start.toList ++ ' ' :: (stop.toList ++ ' ' :: rest)) :
    ∃ m', m.dispatch host line = (m.conclude .nothing, m') ∧
      m.Written m' a (b - a) fun i => pattern[i % pattern.length]? := by
  have hlimit : pageSize < Text.wordLimit := by decide
  have hcommand := Command.ofLine?_fill hstart (ha.trans hlimit) hstop (hb.trans_lt hlimit) hrest hline
  rw [hpattern] at hcommand
  exact dispatch_writes hcommand rfl (Memory.succeeds_fill.2 ⟨ha, hab, hb⟩)
    fun _ => Memory.rewritten_fill hne

theorem dispatch_enter {text : String} (hroom : a + (Text.bytes text).length ≤ pageSize)
    (htext : (Command.quoted? rest).getD rest = text.toList)
    (hline : line.toList = "e ".toList ++ start.toList ++ ' ' :: rest) :
    ∃ m', m.dispatch host line = (m.conclude .nothing, m') ∧
      m.Written m' a (Text.bytes text).length ((Text.bytes text)[·]?) := by
  have hlimit : pageSize < Text.wordLimit := by decide
  have hcommand := Command.ofLine?_enter hstart (ha.trans hlimit) hrest hline
  rw [htext, String.ofList_toList] at hcommand
  exact dispatch_writes hcommand rfl (Memory.succeeds_writeActive.2 ⟨ha, hroom⟩)
    fun _ => Memory.rewritten_writeActive

theorem dispatch_search (hpattern : Command.pattern? rest = some pattern)
    (hline : line.toList = "s ".toList ++ start.toList ++ ' ' :: rest) :
    m.dispatch host line =
      (m.conclude (.ofLines ((m.memory.placesOf a pattern).map (Memory.locationText m.memory.activePage))),
        m) := by
  have hlimit : pageSize < Text.wordLimit := by decide
  have hcommand := Command.ofLine?_search hstart (ha.trans hlimit) hrest hline
  rw [hpattern] at hcommand
  exact dispatch_eq hcommand (look_ok (·.search a pattern) (m.memory.search_eq ha pattern))

end Lines

end Machine

end DosMonitor
