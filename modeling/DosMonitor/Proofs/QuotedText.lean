import DosMonitor.Proofs.Arguments

/-!
# Text between quotes

A text between quotes begins and ends with a quote, so nothing is trimmed from it, and only these two quotes are
taken away. What is in between comes through as it is, blanks and quotes included, where it is entered as well
as where it is a pattern.

Main statement: `quotedText_survives`.
-/

namespace DosMonitor

/-- A text between quotes. -/
def Text.quote (text : List Char) : List Char :=
  '"' :: (text ++ ['"'])

/-- A text has no bytes only if it is empty. -/
theorem Text.bytes_eq_nil_iff {text : String} : bytes text = [] ↔ text = "" := by
  rw [bytes, Array.toList_eq_nil_iff, ← String.utf8ByteSize_eq_zero_iff]
  exact ⟨fun h => congrArg Array.size h, fun h => Array.eq_empty_of_size_eq_zero h⟩

/-- A pattern that stands where a search starts is found there first. -/
theorem Memory.placesOf_of_holds {m : Memory} {start : Nat} {pattern : List UInt8} (hpattern : pattern ≠ [])
    (h : m.Holds start pattern) : ∃ more, m.placesOf start pattern = start :: more := by
  have hmem : start ∈ m.placesOf start pattern := mem_placesOf_iff.2 ⟨hpattern, le_rfl, h⟩
  have horder := m.pairwise_placesOf start pattern
  cases hplaces : m.placesOf start pattern with
  | nil =>
    rw [hplaces] at hmem
    cases hmem
  | cons first more =>
    rw [hplaces] at hmem horder
    have hfirst : first ∈ m.placesOf start pattern := hplaces ▸ List.mem_cons_self
    have hle : start ≤ first := (mem_placesOf_iff.1 hfirst).2.1
    rcases List.mem_cons.1 hmem with rfl | hmore
    · exact ⟨more, rfl⟩
    · exact absurd (List.rel_of_pairwise_cons horder hmore) (by omega)

/-! ## Command lines -/

namespace Command

theorem isTrimmed_quote (text : List Char) : Text.IsTrimmed (Text.quote text) where
  ne_nil := List.cons_ne_nil _ _
  first c hc := by
    obtain rfl := Option.some.inj hc
    decide
  last c hc := by
    rw [Text.quote, ← List.cons_append, List.getLast?_concat] at hc
    obtain rfl := Option.some.inj hc
    decide

theorem quoted?_quote (text : List Char) : quoted? (Text.quote text) = some text := by
  have hlast : Text.dropLast? '"' (text ++ ['"']) = some text := Text.dropLast?_eq_some_iff.2 rfl
  exact hlast

theorem pattern?_quote (text : String) : pattern? (Text.quote text.toList) = some (Text.bytes text) := by
  unfold pattern?
  dsimp only
  rw [(isTrimmed_quote text.toList).trim_eq, quoted?_quote]
  dsimp only
  rw [String.ofList_toList]

end Command

open Machine in
/-- **Quoted text survives the command line**, whatever it is made of. Where it is entered, its bytes stand
afterwards, nothing else has changed, and a search from there finds it there first. A range is filled with it
over and over. -/
theorem quotedText_survives (host : Host) (m : Machine) (hrunning : m.status = .running)
    (start text : String) (a : Nat) (hstart : Text.IsHex start.toList a) (ha : a < pageSize) :
    (a + (Text.bytes text).length ≤ pageSize →
      ∃ m', m.dispatch host ("e " ++ start ++ " \"" ++ text ++ "\"") = (.nothing, m') ∧
        m.Written m' a (Text.bytes text).length ((Text.bytes text)[·]?) ∧
        (text ≠ "" → ∀ place : String, Text.IsHex place.toList a →
          ∃ more, m'.dispatch host ("s " ++ place ++ " \"" ++ text ++ "\"") =
            (.ofLines (Memory.locationText m.memory.activePage a :: more), m'))) ∧
    ∀ (stop : String) (b : Nat), Text.IsHex stop.toList b → a ≤ b → b ≤ pageSize → text ≠ "" →
      ∃ m', m.dispatch host ("f " ++ start ++ " " ++ stop ++ " \"" ++ text ++ "\"") = (.nothing, m') ∧
        m.Written m' a (b - a) fun i => (Text.bytes text)[i % (Text.bytes text).length]? := by
  have htrimmed := Command.isTrimmed_quote text.toList
  have hpattern := Command.pattern?_quote text
  have hsilent := conclude_of_running hrunning .nothing
  refine ⟨fun hroom => ?_, fun stop b hstop hab hb hne => ?_⟩
  · have htext : (Command.quoted? (Text.quote text.toList)).getD (Text.quote text.toList) = text.toList := by
      rw [Command.quoted?_quote]
      rfl
    have hline : ("e " ++ start ++ " \"" ++ text ++ "\"").toList =
        "e ".toList ++ start.toList ++ ' ' :: Text.quote text.toList := by
      simp [Text.quote]
    obtain ⟨m', hdispatch, hwritten⟩ :=
      dispatch_enter host m hstart ha htrimmed hroom htext hline
    refine ⟨m', hsilent ▸ hdispatch, hwritten, fun hne place hplace => ?_⟩
    have hholds : m'.memory.Holds a (Text.bytes text) := ⟨hroom, hwritten.memory.block.inside⟩
    obtain ⟨more, hplaces⟩ := Memory.placesOf_of_holds (mt Text.bytes_eq_nil_iff.1 hne) hholds
    have hline : ("s " ++ place ++ " \"" ++ text ++ "\"").toList =
        "s ".toList ++ place.toList ++ ' ' :: Text.quote text.toList := by
      simp [Text.quote]
    refine ⟨more.map (Memory.locationText m'.memory.activePage), ?_⟩
    rw [dispatch_search host m' hplace ha htrimmed hpattern hline, hplaces, List.map_cons, hwritten.conclude_eq,
      conclude_of_running hrunning, hwritten.memory.activePage]
  · have hline : ("f " ++ start ++ " " ++ stop ++ " \"" ++ text ++ "\"").toList =
        "f ".toList ++ start.toList ++ ' ' :: (stop.toList ++ ' ' :: Text.quote text.toList) := by
      simp [Text.quote]
    obtain ⟨m', hdispatch, hwritten⟩ := dispatch_fill host m hstart ha htrimmed hstop hab hb hpattern
      (mt Text.bytes_eq_nil_iff.1 hne) hline
    exact ⟨m', hsilent ▸ hdispatch, hwritten⟩

open Machine in
/-- A text of blanks and quotes up to the end of the page, and over and over in front of it. -/
theorem quotedText_survives_quotes :
    let host : Host := fun _ => .error .notFound
    let m := standard "" (.ofInput [])
    let text := " \"\" "
    ∃ m' m'', m.dispatch host ("e 0xfffc \"" ++ text ++ "\"") = (.nothing, m') ∧
      m'.memory.activeByte? 0xFFFD = some 0x22 ∧
      (∃ more, m'.dispatch host ("s FFFC \"" ++ text ++ "\"") = (.ofLines ("0000:FFFC" :: more), m')) ∧
      m.dispatch host ("f 0xfffc 10000 \"" ++ text ++ "\"") = (.nothing, m'') ∧
      m''.memory.activeByte? 0xFFFF = some 0x20 := by
  intro host m text
  have hstart : Text.IsHex "0xfffc".toList 0xFFFC :=
    .marked (.inl rfl) (Text.denotes_of_readUnsigned (by decide) (by decide))
  have hplace : Text.IsHex "FFFC".toList 0xFFFC := .bare (Text.denotes_of_readUnsigned (by decide) (by decide))
  have hstop : Text.IsHex "10000".toList 0x10000 := .bare (Text.denotes_of_readUnsigned (by decide) (by decide))
  have hbytes : Text.bytes text = [0x20, 0x22, 0x22, 0x20] := by decide +kernel
  have hne : text ≠ "" := by decide
  obtain ⟨henter, hfill⟩ := quotedText_survives host m rfl "0xfffc" text 0xFFFC hstart (by decide)
  obtain ⟨m', hentered, hwritten, hfound⟩ := henter (by rw [hbytes]; decide)
  obtain ⟨more, hsearch⟩ := hfound hne "FFFC" hplace
  rw [show Memory.locationText m.memory.activePage 0xFFFC = "0000:FFFC" by decide +kernel] at hsearch
  obtain ⟨m'', hfilled, hrewritten⟩ := hfill "10000" 0x10000 hstop (by decide) le_rfl hne
  rw [hbytes] at hwritten hrewritten
  exact ⟨m', m'', hentered, hwritten.memory.block.inside 1 (by decide), ⟨more, hsearch⟩, hfilled,
    hrewritten.memory.block.inside 3 (by decide)⟩

end DosMonitor
