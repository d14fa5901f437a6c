import DosMonitor.Proofs.CommandWord
import DosMonitor.Proofs.Operation
import DosMonitor.Proofs.Ranges

/-!
# A rejected command changes nothing

Commands that run no instruction check what they are given before they change anything. So a command line
that is answered by an error, or is not recognized, leaves the machine as it is. One thing is not kept: the
change report of the registers starts anew before the name of a register is looked up.

`Harmless` says this of a command that fails. A command that succeeds and changes something does not
answer like that (`unchanged_or_answered`), so the answer tells.
-/

namespace DosMonitor

/-- The answer of a command line that has been rejected. -/
def CommandOutput.Rejected (output : CommandOutput) : Prop :=
  ∃ text, output.lines.head? = some text ∧
    (text = "Input not recognized." ∨ "Error: ".toList <+: text.toList)

variable {ε σ α β : Type}

namespace Machine

def withBefore (m : Machine) (before : Snapshot) : Machine :=
  { m with core := { m.core with registers := { m.core.registers with before } } }

end Machine

/-- A step that cannot fail does not harm what has come before it. -/
theorem Atomic.bind_succeeds {x : EStateM ε σ α} {f : α → EStateM ε σ β} {s : σ} (hx : Atomic x s)
    (hf : ∀ a t, Succeeds (f a) t) : Atomic (x >>= f) s := by
  intro e s' h
  cases hr : x s with
  | ok a t =>
    obtain ⟨b, u, hok⟩ := hf a t
    rw [bind_of_ok hr, hok] at h
    cases h
  | error e' t =>
    rw [bind_of_error hr] at h
    cases h
    exact hx _ _ hr

/-! ## Memory and disk -/

namespace Memory

variable {m : Memory}

theorem reads_inspect (look : Memory → Except MemoryError α) : Reads (inspect look) := by
  intro m
  unfold inspect
  cases look m <;> rfl

theorem reads_checkAccess (page address : Nat) : Reads (Bus.checkAccess page address : BusM Memory Unit) := by
  intro m
  rw [Words.checkAccess_eq]
  split_ifs <;> rfl

/-- Bytes that do not fit are refused before the first of them is written. -/
theorem atomic_writeActive (address : Nat) (bytes : List UInt8) (m : Memory) :
    Atomic (writeActive address bytes) m := by
  apply Atomic.bind (reads_checkAccess _ _)
  intro _ hcheck
  obtain ⟨hpage, haddress, -⟩ := Words.checkAccess_ok_iff.1 hcheck
  by_cases hroom : pageSize < address + bytes.length
  · rw [if_pos hroom]
    exact (Reads.throw _).atomic m
  · rw [if_neg hroom]
    exact Succeeds.atomic ⟨(), _, pokeEach_ok bytes hpage (not_lt.1 hroom)⟩

theorem atomic_fill (start stop : Nat) (pattern : List UInt8) (m : Memory) :
    Atomic (fill start stop pattern) m := by
  apply Atomic.bind (reads_inspect _)
  intro _ _
  by_cases hpattern : pattern.isEmpty
  · simp only [hpattern, if_true]
    exact (Reads.pure ()).atomic m
  · simp only [hpattern]
    exact atomic_writeActive _ _ m

theorem atomic_move (start stop destination : Nat) (m : Memory) :
    Atomic (move start stop destination) m := by
  apply Atomic.bind (reads_inspect _)
  intro bytes _
  exact atomic_writeActive destination bytes m

end Memory

namespace Disk

theorem atomic_load (host : Host) (d : Disk) : Atomic (load host) d := by
  intro e d' h
  unfold load at h
  split at h
  · cases h
    rfl
  · cases h

theorem reads_save (host : Host) : Reads (save host) := by
  intro d
  unfold save
  split <;> rfl

end Disk

/-! ## The machine -/

namespace Machine

variable {m : Machine}

theorem atomic_onMemory {action : BusM Memory α} (h : Atomic action m.memory) :
    Atomic (onMemory action) m := by
  obtain ⟨⟨registers, bus, console⟩, disk, debugger, trace, status, config⟩ := m
  intro e m' hrun
  unfold onMemory onCore Exec.onBus at hrun
  dsimp only at hrun
  cases hr : action bus with
  | ok a bus' =>
    rw [hr] at hrun
    cases hrun
  | error e' bus' =>
    obtain rfl : bus' = bus := h e' bus' hr
    rw [hr] at hrun
    cases hrun
    rfl

theorem atomic_onDisk {action : DiskM α} (h : Atomic action m.disk) : Atomic (onDisk action) m := by
  obtain ⟨core, disk, debugger, trace, status, config⟩ := m
  intro e m' hrun
  unfold onDisk at hrun
  dsimp only at hrun
  cases hr : action disk with
  | ok a disk' =>
    rw [hr] at hrun
    cases hrun
  | error e' disk' =>
    obtain rfl : disk' = disk := h e' disk' hr
    rw [hr] at hrun
    cases hrun
    rfl

theorem reads_ofMemory (r : Except MemoryError α) : Reads (ofMemory r) := by
  cases r with
  | ok a => exact Reads.pure a
  | error e => exact Reads.throw _

theorem reads_ofDisk (r : Except DiskError α) : Reads (ofDisk r) := by
  cases r with
  | ok a => exact Reads.pure a
  | error e => exact Reads.throw _

theorem atomic_setActivePage (page : Nat) (m : Machine) : Atomic (setActivePage page) m := by
  intro e m' h
  rw [setActivePage_eq] at h
  split_ifs at h
  cases h
  rfl

theorem atomic_loadFile (host : Host) (path : String) (base : UInt16) (m : Machine) :
    Atomic (loadFile host path base) m := by
  unfold loadFile
  cases programText (host (.read path)) with
  | error fault => exact (Reads.throw _).atomic m
  | ok text => exact Succeeds.atomic ⟨_, _, rfl⟩

theorem atomic_addBreakpoint (location : String) (m : Machine) : Atomic (addBreakpoint location) m := by
  apply Atomic.bind Reads.get
  intro m' _
  apply Atomic.bind (Reads.ofExcept _)
  intro address _
  exact Succeeds.atomic ⟨_, _, rfl⟩

theorem atomic_removeBreakpoint (location : String) (m : Machine) :
    Atomic (removeBreakpoint location) m := by
  apply Atomic.bind Reads.get
  intro m' _
  apply Atomic.bind (Reads.ofExcept _)
  intro address _
  exact Succeeds.atomic ⟨_, _, rfl⟩

theorem atomic_addWatch (expr : String) (m : Machine) : Atomic (addWatch expr) m := by
  apply Atomic.bind Reads.get
  intro m' _
  apply Atomic.bind (Reads.ofExcept _)
  intro watches _
  exact Succeeds.atomic ⟨_, _, rfl⟩

theorem atomic_writeToDisk (address first count : Nat) (m : Machine) :
    Atomic (writeToDisk address first count) m := by
  apply Atomic.bind Reads.get
  intro m₁ hget
  obtain rfl : m = m₁ := (EStateM.Result.ok.inj hget).1
  apply Atomic.bind (reads_ofDisk _)
  intro _ hcheck
  have hsectors := Words.checkSectors_eq_ok_iff.1 (ofDisk_ok hcheck).1
  apply Atomic.bind (reads_ofMemory _)
  intro stop hend
  have hstop := Words.rangeEnd_ok (ofMemory_ok hend).1
  apply Atomic.bind (reads_ofMemory _)
  intro bytes hread
  have hlength := (Words.length_of_block (ofMemory_ok hread).1).1
  -- the sectors have been checked, so none of the writes can fail
  have hroom : first + bytes.length ≤ m.disk.size := by omega
  exact (Succeeds.map_iff.2 (succeeds_onDisk.2 (Disk.succeeds_writeEach bytes hroom))).atomic

theorem atomic_readFromDisk (address first count : Nat) (m : Machine) :
    Atomic (readFromDisk address first count) m := by
  apply Atomic.bind Reads.get
  intro m₁ hget
  apply Atomic.bind (reads_ofDisk _)
  intro _ _
  apply Atomic.bind (reads_ofMemory _)
  intro stop _
  apply Atomic.bind (reads_ofMemory _)
  intro _ _
  apply Atomic.bind_succeeds (atomic_onMemory (Memory.atomic_writeActive _ _ _))
  intro _ m'
  exact ⟨_, _, rfl⟩

end Machine

/-! ## Commands -/

/-- If the action fails on this machine, it changes nothing but what the registers were before. -/
def Harmless (x : MachineM α) (m : Machine) : Prop :=
  ∀ e m', x m = .error e m' → ∃ before, m' = m.withBefore before

theorem Atomic.harmless {x : MachineM α} {m : Machine} (h : Atomic x m) : Harmless x m := by
  intro e m' hx
  exact ⟨m.registers.before, h e m' hx⟩

namespace Command

open Machine

variable {command : Command} {host : Host} {m : Machine}

/-- An action of which the value is only put into words. -/
theorem harmless_map {x : MachineM α} (f : α → CommandOutput) (h : Atomic x m) :
    Harmless (x >>= fun a => pure (f a)) m :=
  (h.bind_succeeds fun a t => ⟨f a, t, rfl⟩).harmless

/-- The change report starts anew before the register is looked up, and that is all that is left of a
failure. -/
theorem harmless_setRegister (name : String) (value : Nat) :
    Harmless (perform host (.setRegister name value)) m := by
  intro e m' h
  cases hname : Register.ofText name with
  | ok r =>
    have hset : ∃ m'', Machine.setRegister name value m = .ok () m'' := by
      unfold Machine.setRegister
      rw [hname]
      exact ⟨_, rfl⟩
    obtain ⟨m'', hset⟩ := hset
    have hok := (bind_of_ok hset).symm.trans h
    cases hok
  | error fault =>
    have hset : Machine.setRegister name value m =
        .error (.exec fault) (m.withBefore m.registers.now) := by
      unfold Machine.setRegister
      rw [hname]
      rfl
    have herror := (bind_of_error hset).symm.trans h
    cases herror
    exact ⟨_, rfl⟩

/-- A look at the machine, put into words. -/
theorem harmless_look {look : Machine → MachineM α} (f : α → CommandOutput) (h : ∀ m, Reads (look m)) :
    Harmless (get >>= fun m => look m >>= fun a => pure (f a)) m :=
  ((Reads.bind Reads.get fun m => Reads.bind (h m) fun a => Reads.pure (f a)).atomic m).harmless

theorem harmless_perform (hcommand : command.RunsNothing) : Harmless (command.perform host) m := by
  cases command with
  | quit => exact ((Reads.pure _).atomic m).harmless
  | help => exact ((Reads.pure _).atomic m).harmless
  | showRegisters => exact harmless_map _ (Reads.get.atomic m)
  | setRegister name value => exact harmless_setRegister name value
  | execute line => exact hcommand.elim
  | dump start stop => exact harmless_look _ fun _ => reads_ofMemory _
  | fill start stop pattern => exact harmless_map _ (atomic_onMemory (Memory.atomic_fill _ _ _ _))
  | move start stop destination => exact harmless_map _ (atomic_onMemory (Memory.atomic_move _ _ _ _))
  | search start pattern => exact harmless_look _ fun _ => reads_ofMemory _
  | compare start stop destination => exact harmless_look _ fun _ => reads_ofMemory _
  | enter address text => exact harmless_map _ (atomic_onMemory (Memory.atomic_writeActive _ _ _))
  | selectPage page => exact harmless_map _ (atomic_setActivePage page m)
  | load path base =>
    apply Atomic.harmless
    apply Atomic.bind Reads.get
    intro m' _
    exact (atomic_loadFile host path _ m).bind_succeeds fun a t => ⟨_, t, rfl⟩
  | trace on => exact harmless_map _ (Succeeds.atomic ⟨_, _, rfl⟩)
  | addBreakpoint location => exact harmless_map _ (atomic_addBreakpoint location m)
  | removeBreakpoint location => exact harmless_map _ (atomic_removeBreakpoint location m)
  | listBreakpoints => exact harmless_map _ (Reads.get.atomic m)
  | addWatch expr => exact harmless_map _ (atomic_addWatch expr m)
  | removeWatch expr => exact harmless_map _ (Succeeds.atomic ⟨_, _, rfl⟩)
  | listWatches => exact harmless_map _ (Reads.get.atomic m)
  | step => exact hcommand.elim
  | run limit => exact hcommand.elim
  | listProgram => exact harmless_look _ fun _ => Reads.ofExcept _
  | loadDisk =>
    exact ((atomic_onDisk (Disk.atomic_load host m.disk)).bind_succeeds fun _ t => ⟨_, t, rfl⟩).harmless
  | saveDisk =>
    exact ((atomic_onDisk ((Disk.reads_save host).atomic m.disk)).bind_succeeds
      fun _ t => ⟨_, t, rfl⟩).harmless
  | dumpDisk start stop => exact harmless_look _ fun _ => reads_ofDisk _
  | writeToDisk address first count => exact harmless_map _ (atomic_writeToDisk _ _ _ _)
  | readFromDisk address first count => exact harmless_map _ (atomic_readFromDisk _ _ _ _)

end Command

/-! ## Answers -/

/-- The first character of a text. -/
def opening (text : String) : Option Char :=
  text.toList.head?

theorem opening_append {a : String} {c : Char} (b : String) (h : opening a = some c) :
    opening (a ++ b) = some c := by
  unfold opening at h ⊢
  rw [String.toList_append, List.head?_append, h]
  rfl

theorem opening_toString (n : Nat) : ∃ c, opening (toString n) = some c ∧ c.isDigit = true := by
  have hdigits : (toString n).toList = Nat.toDigits 10 n := Nat.toList_repr
  obtain ⟨c, rest, hc⟩ := List.exists_cons_of_ne_nil (Nat.toDigits_ne_nil (n := n) (b := 10))
  refine ⟨c, ?_, ?_⟩
  · rw [opening, hdigits, hc]
    rfl
  · apply Nat.isDigit_of_mem_toDigits (b := 10) (n := n) (by decide) (by decide)
    rw [hc]
    exact List.mem_cons_self

/-- A text that does not begin like the answer to a rejected command. -/
def IsAnswer (text : String) : Prop :=
  ∃ c, opening text = some c ∧ c ≠ 'E' ∧ c ≠ 'I'

theorem IsAnswer.append {a : String} (h : IsAnswer a) (b : String) : IsAnswer (a ++ b) := by
  obtain ⟨c, hopening, hc⟩ := h
  exact ⟨c, opening_append b hopening, hc⟩

theorem isAnswer_toString (n : Nat) : IsAnswer (toString n) := by
  obtain ⟨c, hopening, hdigit⟩ := opening_toString n
  refine ⟨c, hopening, ?_, ?_⟩
  · rintro rfl
    cases hdigit
  · rintro rfl
    cases hdigit

theorem IsAnswer.not_rejected {text : String} (h : IsAnswer text) :
    ¬(text = "Input not recognized." ∨ "Error: ".toList <+: text.toList) := by
  obtain ⟨c, hopening, hE, hI⟩ := h
  rintro (rfl | hprefix)
  · obtain rfl := Option.some.inj hopening
    exact hI rfl
  · obtain ⟨rest, hrest⟩ := hprefix
    rw [opening, ← hrest] at hopening
    obtain rfl := Option.some.inj hopening
    exact hE rfl

namespace CommandOutput

/-- The first line, if any, is no answer to a rejected command. -/
def Answered (output : CommandOutput) : Prop :=
  ∀ text, output.lines.head? = some text → IsAnswer text

theorem answered_nothing : nothing.Answered := by
  intro text h
  cases h

theorem answered_ofLine {text : String} (h : IsAnswer text) : (ofLine text).Answered := by
  intro first hfirst
  obtain rfl := Option.some.inj hfirst
  exact h

theorem answered_listing (registers : RegisterFile) : (ofLines registers.listing).Answered := by
  intro first hfirst
  obtain rfl := Option.some.inj hfirst
  have hcell : IsAnswer (registers.cell .ax) := by
    have hname : IsAnswer "AX" := ⟨'A', by decide⟩
    exact ((hname.append _).append _).append _
  change IsAnswer (" ".intercalate (registers.cell .ax :: registers.cell .bx :: _))
  rw [String.intercalate_cons_cons]
  exact (hcell.append _).append _

theorem Answered.conclude {output : CommandOutput} (h : output.Answered) (m : Machine) :
    (m.conclude output).Answered := by
  unfold Machine.conclude
  cases m.status with
  | running => exact h
  | terminated code =>
    intro text htext
    cases hlines : output.lines with
    | nil =>
      simp only [hlines, List.nil_append, List.head?_cons] at htext
      obtain rfl := Option.some.inj htext
      exact IsAnswer.append ⟨'P', by decide⟩ _
    | cons first rest =>
      simp only [hlines, List.cons_append, List.head?_cons] at htext
      apply h
      rw [hlines]
      exact htext

theorem Answered.not_rejected {output : CommandOutput} (h : output.Answered) : ¬output.Rejected := by
  rintro ⟨text, htext, hrejected⟩
  exact (h text htext).not_rejected hrejected

end CommandOutput

namespace Command

open Machine CommandOutput

variable {command : Command} {host : Host} {m m' : Machine} {output : CommandOutput}

theorem answered_map {x : MachineM α} {f : α → CommandOutput}
    (h : (x >>= fun a => pure (f a)) m = .ok output m') (hf : ∀ a, (f a).Answered) :
    output.Answered := by
  obtain ⟨a, rfl⟩ := of_map_ok h
  exact hf a

theorem unchanged_look {look : Machine → MachineM α} {f : α → CommandOutput} (hlook : ∀ m, Reads (look m))
    (h : (get >>= fun m => look m >>= fun a => pure (f a)) m = .ok output m') : m' = m :=
  (Reads.bind Reads.get fun m => Reads.bind (hlook m) fun a => Reads.pure (f a)).eq_of_ok h

/-- A command that succeeds has changed nothing, or does not answer like one that is rejected. -/
theorem unchanged_or_answered (hcommand : command.RunsNothing)
    (h : command.perform host m = .ok output m') : m' = m ∨ output.Answered := by
  cases command with
  | quit => exact .inl ((Reads.pure _).eq_of_ok h)
  | help => exact .inl ((Reads.pure _).eq_of_ok h)
  | showRegisters => exact .inl ((Reads.bind Reads.get fun _ => Reads.pure _).eq_of_ok h)
  | setRegister name value =>
    obtain ⟨_, t, -, hlisting⟩ := of_bind_ok h
    exact .inr (answered_map hlisting fun _ => answered_listing _)
  | execute line => exact hcommand.elim
  | dump start stop => exact .inl (unchanged_look (fun _ => reads_ofMemory _) h)
  | fill start stop pattern => exact .inr (answered_map h fun _ => answered_nothing)
  | move start stop destination => exact .inr (answered_map h fun _ => answered_nothing)
  | search start pattern => exact .inl (unchanged_look (fun _ => reads_ofMemory _) h)
  | compare start stop destination => exact .inl (unchanged_look (fun _ => reads_ofMemory _) h)
  | enter address text => exact .inr (answered_map h fun _ => answered_nothing)
  | selectPage page =>
    have hactive : IsAnswer "Active page " := ⟨'A', by decide⟩
    exact .inr (answered_map h fun _ => answered_ofLine (hactive.append _))
  | load path base =>
    have hloaded : IsAnswer "Loaded " := ⟨'L', by decide⟩
    obtain ⟨_, t, -, hrest⟩ := of_bind_ok h
    exact .inr (answered_map hrest fun _ => answered_ofLine (((hloaded.append _).append _).append _))
  | trace on =>
    have htrace : IsAnswer (if on then "Trace on" else "Trace off") := by
      cases on with
      | true => exact ⟨'T', by decide⟩
      | false => exact ⟨'T', by decide⟩
    exact .inr (answered_map h fun _ => answered_ofLine htrace)
  | addBreakpoint location =>
    have hset : IsAnswer "Breakpoint at " := ⟨'B', by decide⟩
    exact .inr (answered_map h fun _ => answered_ofLine (hset.append _))
  | removeBreakpoint location =>
    have hremoved : ∀ removed : Bool,
        IsAnswer (if removed then "Breakpoint removed" else "No breakpoint there") := by
      intro removed
      cases removed with
      | true => exact ⟨'B', by decide⟩
      | false => exact ⟨'N', by decide⟩
    exact .inr (answered_map h fun removed => answered_ofLine (hremoved removed))
  | listBreakpoints => exact .inl ((Reads.bind Reads.get fun _ => Reads.pure _).eq_of_ok h)
  | addWatch expr => exact .inr (answered_map h fun _ => answered_nothing)
  | removeWatch expr =>
    refine .inr (answered_map h fun removed => ?_)
    cases removed with
    | true => exact answered_nothing
    | false => exact answered_ofLine ⟨'N', by decide⟩
  | listWatches => exact .inl ((Reads.bind Reads.get fun _ => Reads.pure _).eq_of_ok h)
  | step => exact hcommand.elim
  | run limit => exact hcommand.elim
  | listProgram => exact .inl (unchanged_look (fun _ => Reads.ofExcept _) h)
  | loadDisk =>
    have hread : IsAnswer "Read " := ⟨'R', by decide⟩
    obtain ⟨_, t, -, hrest⟩ := of_bind_ok h
    exact .inr (answered_map hrest fun _ => answered_ofLine (((hread.append _).append _).append _))
  | saveDisk =>
    have hwrote : IsAnswer "Wrote " := ⟨'W', by decide⟩
    obtain ⟨_, t, -, hrest⟩ := of_bind_ok h
    exact .inr (answered_map hrest fun _ => answered_ofLine (((hwrote.append _).append _).append _))
  | dumpDisk start stop => exact .inl (unchanged_look (fun _ => reads_ofDisk _) h)
  | writeToDisk address first count =>
    exact .inr (answered_map h fun n => answered_ofLine ((isAnswer_toString n).append _))
  | readFromDisk address first count =>
    exact .inr (answered_map h fun n => answered_ofLine ((isAnswer_toString n).append _))

end Command

namespace Machine

/-- **A rejected command changes nothing.** If a command line other than `p`, `step` and `cont` is
answered by an error or is not recognized, the machine after it is the machine before it: registers, flags,
memory, console, disk, program, breakpoints, watches, trace, status and configuration. Only the values that
the change report compares with may be others. -/
theorem dispatch_rejected (host : Host) (line : String) (m : Machine)
    (hword : Command.word line ∉ ["p", "step", "cont"])
    (hrejected : (m.dispatch host line).1.Rejected) :
    ∃ before, (m.dispatch host line).2 = m.withBefore before := by
  have hsame : ∃ before, m = m.withBefore before := ⟨m.registers.before, rfl⟩
  unfold dispatch at hrejected ⊢
  by_cases hblank : isBlankLine line
  · rw [if_pos hblank] at hrejected ⊢
    exact hsame
  · rw [if_neg hblank] at hrejected ⊢
    cases hline : Command.ofLine? line with
    | none => exact hsame
    | some command =>
      have hcommand := Command.runsNothing_of_word hline hword
      rw [hline] at hrejected
      dsimp only at hrejected ⊢
      cases hrun : command.perform host m with
      | error e m' => exact Command.harmless_perform hcommand e m' hrun
      | ok output m' =>
        rw [hrun] at hrejected
        rcases Command.unchanged_or_answered hcommand hrun with rfl | hanswered
        · exact hsame
        · exact absurd hrejected (hanswered.conclude m').not_rejected

theorem dispatch_rejected_register :
    let host : Host := fun _ => .error .notFound
    let m := after (exec "MOV AX, 7") (standard "" (.ofInput [.text "unread"]))
    Command.word "r ZZ 1" ∉ ["p", "step", "cont"] ∧ (m.dispatch host "r ZZ 1").1.Rejected ∧
      ∃ before, (m.dispatch host "r ZZ 1").2 = m.withBefore before := by
  intro host m
  have hword : Command.word "r ZZ 1" ∉ ["p", "step", "cont"] := by decide
  have hanswer : (m.dispatch host "r ZZ 1").1.lines = ["Error: invalid register 'ZZ'"] := by
    dsimp only [m]
    rfl
  have hrejected : (m.dispatch host "r ZZ 1").1.Rejected := by
    refine ⟨_, congrArg List.head? hanswer, .inr ?_⟩
    decide
  exact ⟨hword, hrejected, dispatch_rejected host "r ZZ 1" m hword hrejected⟩

end Machine

end DosMonitor
