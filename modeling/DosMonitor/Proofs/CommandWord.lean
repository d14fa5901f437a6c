import DosMonitor.Command.Dispatch
import DosMonitor.Proofs.Pieces

/-!
# Command words

A command line starts with a command word, of which the case does not matter. The word tells which
command the line can be (`mem_keywords`), whatever follows it; a line has no command word only if it is
blank (`word_eq_empty_iff`).
-/

namespace DosMonitor

theorem Text.head?_trim {s : List Char} {c : Char} (h : (trim s).head? = some c) :
    isBlank c = false := by
  have hend : trim s = List.rdropWhile isBlank (trimStart s) := rfl
  obtain ⟨back, hback⟩ := hend ▸ List.rdropWhile_prefix isBlank (trimStart s)
  apply head?_trimStart (s := s)
  rw [← hback, List.head?_append, h]
  rfl

namespace Command

/-- The command word of a line, in small letters. -/
def word (line : String) : String :=
  .ofList (Text.lower (Text.cutAtBlank (Text.trim line.toList)).1)

/-- The words that ask for a command. -/
def keywords : Command → List String
  | quit => ["q"]
  | help => ["h", "?"]
  | showRegisters | setRegister .. => ["r"]
  | execute _ => ["p"]
  | dump .. => ["d"]
  | fill .. => ["f"]
  | move .. => ["m"]
  | search .. => ["s"]
  | compare .. => ["c"]
  | enter .. => ["e"]
  | selectPage _ => ["sp"]
  | load .. => ["load"]
  | trace _ => ["trace"]
  | addBreakpoint _ => ["bp"]
  | removeBreakpoint _ => ["delbp"]
  | listBreakpoints => ["bpl"]
  | addWatch _ => ["watch"]
  | removeWatch _ => ["unwatch"]
  | listWatches => ["watches"]
  | step => ["step"]
  | run _ => ["cont"]
  | listProgram => ["disas"]
  | loadDisk | saveDisk | dumpDisk .. => ["disk"]
  | writeToDisk .. => ["w"]
  | readFromDisk .. => ["l"]

variable {words : List (List Char)} {args : List Char} {command : Command} {P : Command → Prop}

theorem two?_elim {make : Nat → Nat → Command} (h : two? words make = some command)
    (hmake : ∀ a b, P (make a b)) : P command := by
  unfold two? at h
  split at h
  · obtain rfl := Option.some.inj h
    exact hmake _ _
  · cases h

theorem three?_elim {make : Nat → Nat → Nat → Command} (h : three? words make = some command)
    (hmake : ∀ a b c, P (make a b c)) : P command := by
  unfold three? at h
  split at h
  · obtain rfl := Option.some.inj h
    exact hmake _ _ _
  · cases h

theorem alone?_elim {made : Command} (h : alone? words made = some command) (hmade : P made) :
    P command := by
  unfold alone? at h
  split_ifs at h
  obtain rfl := Option.some.inj h
  exact hmade

theorem whole?_elim {make : String → Command} (h : whole? args make = some command)
    (hmake : ∀ text, P (make text)) : P command := by
  unfold whole? at h
  split_ifs at h
  obtain rfl := Option.some.inj h
  exact hmake _

theorem parseRegisters?_elim (h : parseRegisters? words = some command) (hshow : P showRegisters)
    (hset : ∀ name value, P (setRegister name value)) : P command := by
  unfold parseRegisters? at h
  split at h
  · obtain rfl := Option.some.inj h
    exact hshow
  · obtain ⟨value, -, rfl⟩ := Option.map_eq_some_iff.1 h
    exact hset _ _
  · cases h

theorem parseFill?_elim (h : parseFill? args words = some command)
    (hfill : ∀ start stop pattern, P (fill start stop pattern)) : P command := by
  unfold parseFill? at h
  split at h
  · simp only [Option.bind_eq_bind, Option.bind_eq_some_iff] at h
    obtain ⟨start, -, stop, -, pattern, -, hcommand⟩ := h
    obtain rfl := Option.some.inj hcommand
    exact hfill _ _ _
  · cases h

theorem parseSearch?_elim (h : parseSearch? args words = some command)
    (hsearch : ∀ start pattern, P (search start pattern)) : P command := by
  unfold parseSearch? at h
  split at h
  · simp only [Option.bind_eq_bind, Option.bind_eq_some_iff] at h
    obtain ⟨start, -, pattern, -, hcommand⟩ := h
    obtain rfl := Option.some.inj hcommand
    exact hsearch _ _
  · cases h

theorem parseEnter?_elim (h : parseEnter? args words = some command)
    (henter : ∀ address text, P (enter address text)) : P command := by
  unfold parseEnter? at h
  split at h
  · simp only [Option.bind_eq_bind, Option.bind_eq_some_iff] at h
    obtain ⟨address, -, hcommand⟩ := h
    obtain rfl := Option.some.inj hcommand
    exact henter _ _
  · cases h

theorem parseLoad?_elim (h : parseLoad? words = some command)
    (hload : ∀ path base, P (load path base)) : P command := by
  unfold parseLoad? at h
  split at h
  · obtain rfl := Option.some.inj h
    exact hload _ _
  · obtain ⟨base, -, rfl⟩ := Option.map_eq_some_iff.1 h
    exact hload _ _
  · cases h

theorem parseRun?_elim (h : parseRun? words = some command) (hrun : ∀ limit, P (run limit)) :
    P command := by
  unfold parseRun? at h
  split at h
  · obtain rfl := Option.some.inj h
    exact hrun _
  · obtain ⟨limit, -, rfl⟩ := Option.map_eq_some_iff.1 h
    exact hrun _
  · cases h

theorem parsePage?_elim (h : parsePage? words = some command) (hpage : ∀ page, P (selectPage page)) :
    P command := by
  unfold parsePage? at h
  split at h
  · obtain ⟨page, -, rfl⟩ := Option.map_eq_some_iff.1 h
    exact hpage _
  · cases h

theorem parseTrace?_elim (h : parseTrace? words = some command) (htrace : ∀ on, P (trace on)) :
    P command := by
  unfold parseTrace? at h
  split_ifs at h
  · obtain rfl := Option.some.inj h
    exact htrace _
  · obtain rfl := Option.some.inj h
    exact htrace _

theorem parseDisk?_elim (h : parseDisk? words = some command) (hload : P loadDisk) (hsave : P saveDisk)
    (hdump : ∀ start stop, P (dumpDisk start stop)) : P command := by
  unfold parseDisk? at h
  split at h
  · cases h
  · split_ifs at h
    · exact alone?_elim h hload
    · exact alone?_elim h hsave
    · exact two?_elim h hdump

/-- What a word can ask for. -/
theorem mem_keywords {word : String} (h : parse? word args = some command) :
    word ∈ command.keywords := by
  unfold parse? at h
  dsimp only at h
  split at h
  · obtain rfl := Option.some.inj h
    simp [keywords]
  · obtain rfl := Option.some.inj h
    simp [keywords]
  · obtain rfl := Option.some.inj h
    simp [keywords]
  · apply parseRegisters?_elim h <;> simp [keywords]
  · apply whole?_elim h
    simp [keywords]
  · apply two?_elim h
    simp [keywords]
  · apply parseFill?_elim h
    simp [keywords]
  · apply three?_elim h
    simp [keywords]
  · apply parseSearch?_elim h
    simp [keywords]
  · apply three?_elim h
    simp [keywords]
  · apply parseEnter?_elim h
    simp [keywords]
  · apply parsePage?_elim h
    simp [keywords]
  · apply parseLoad?_elim h
    simp [keywords]
  · apply parseTrace?_elim h
    simp [keywords]
  · apply whole?_elim h
    simp [keywords]
  · apply whole?_elim h
    simp [keywords]
  · apply alone?_elim h
    simp [keywords]
  · apply whole?_elim h
    simp [keywords]
  · apply whole?_elim h
    simp [keywords]
  · apply alone?_elim h
    simp [keywords]
  · apply alone?_elim h
    simp [keywords]
  · apply parseRun?_elim h
    simp [keywords]
  · apply alone?_elim h
    simp [keywords]
  · apply parseDisk?_elim h <;> simp [keywords]
  · apply three?_elim h
    simp [keywords]
  · apply three?_elim h
    simp [keywords]
  · cases h

theorem ofLine?_eq (line : String) :
    ofLine? line = parse? (word line) (Text.trim (Text.cutAtBlank (Text.trim line.toList)).2) := by
  rfl

theorem word_mem_keywords {line : String} (h : ofLine? line = some command) :
    word line ∈ command.keywords :=
  mem_keywords (ofLine?_eq line ▸ h)

/-- Only the word `q` ends a session by itself, whatever follows it. -/
theorem ofLine?_eq_quit_iff {line : String} : ofLine? line = some quit ↔ word line = "q" := by
  constructor
  · intro h
    simpa [keywords] using word_mem_keywords h
  · intro h
    rw [ofLine?_eq, h]
    rfl

/-- The command runs no instruction. -/
def RunsNothing : Command → Prop
  | execute _ | step | run _ => False
  | _ => True

theorem runsNothing_of_word {line : String} (h : ofLine? line = some command)
    (hword : word line ∉ ["p", "step", "cont"]) : command.RunsNothing := by
  have hkeyword := word_mem_keywords h
  cases command with
  | execute _ | step | run _ =>
    exfalso
    simp only [keywords, List.mem_singleton] at hkeyword
    simp [hkeyword] at hword
  | _ => trivial

theorem word_eq_empty_iff {line : String} : word line = "" ↔ isBlankLine line = true := by
  have hword : word line = "" ↔ (Text.trim line.toList).takeWhile (fun c => !Text.isBlank c) = [] := by
    rw [word, Text.cutAtBlank, String.ext_iff, String.toList_ofList]
    simp [Text.lower]
  rw [hword]
  constructor
  · intro h
    have htrim : Text.trim line.toList = [] := by
      cases hs : Text.trim line.toList with
      | nil => rfl
      | cons c rest =>
        have hc : Text.isBlank c = false := Text.head?_trim (by rw [hs, List.head?_cons])
        rw [hs] at h
        simp [hc] at h
    obtain ⟨front, back, hline, hfront, hback⟩ := Text.exists_append_trim line.toList
    rw [htrim, List.nil_append] at hline
    rw [isBlankLine, hline, List.all_append]
    simp
    exact ⟨hfront, hback⟩
  · intro h
    have hall : ∀ c ∈ line.toList, Text.isBlank c = true := by simpa [isBlankLine] using h
    cases hs : Text.trim line.toList with
    | nil => rfl
    | cons c rest =>
      have hc : Text.isBlank c = true := hall c (Text.mem_of_mem_trim (by rw [hs]; exact List.mem_cons_self))
      simp [hc]

theorem ofLine?_of_blank {line : String} (h : isBlankLine line = true) : ofLine? line = none := by
  rw [← word_eq_empty_iff] at h
  rw [ofLine?_eq, h]
  rfl

end Command

end DosMonitor
