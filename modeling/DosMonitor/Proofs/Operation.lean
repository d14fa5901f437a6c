import Mathlib
import DosMonitor.Proofs.CommandWord
import DosMonitor.Proofs.Step

/-!
# What operations can do to a machine

From outside a machine is operated by command lines, by commands and by calls (`Operation`). However
much an operation does, it does it in changes of eight kinds (`Change`): to registers, console and the
active page of memory, to the choice of that page, to the sectors of the disk, to program, position,
breakpoints and watches, to the trace, and to the status. `within_perform` says so of every operation,
whether it fails or not. What all changes keep is kept by every sequence of operations
(`operations_induction`).

Commands that run no instruction are put together from a few parts. A relation that these parts do not
leave is one that these commands do not leave (`Encloses`, and `EnclosesPlain` for those that leave the
watches alone).
-/

namespace DosMonitor

open Relation (ReflTransGen)

variable {ε σ α β : Type}

/-! ## Actions within a relation -/

/-- An action leads from each state to one that can be reached by steps of the relation. -/
def Within (r : σ → σ → Prop) (x : EStateM ε σ α) : Prop :=
  ∀ s, ReflTransGen r s (endState (x s))

namespace Within

variable {r : σ → σ → Prop}

theorem of_eq {x : EStateM ε σ α} (h : ∀ s, endState (x s) = s) : Within r x := by
  intro s
  rw [h s]

theorem pure (a : α) : Within r (Pure.pure a : EStateM ε σ α) :=
  of_eq fun _ => rfl

theorem throw (e : ε) : Within r (MonadExcept.throw e : EStateM ε σ α) :=
  of_eq fun _ => rfl

theorem get : Within r (MonadState.get : EStateM ε σ σ) :=
  of_eq fun _ => rfl

theorem ofExcept (q : Except ε α) : Within r (MonadExcept.ofExcept q : EStateM ε σ α) := by
  cases q with
  | ok a => exact pure a
  | error e => exact throw e

theorem bind {x : EStateM ε σ α} {f : α → EStateM ε σ β} (hx : Within r x) (hf : ∀ a, Within r (f a)) :
    Within r (x >>= f) := by
  intro s
  have h := hx s
  change ReflTransGen r s (endState (EStateM.bind x f s))
  unfold EStateM.bind
  generalize x s = q at h
  cases q with
  | ok a t => exact h.trans (hf a t)
  | error e t => exact h

theorem map {x : EStateM ε σ α} (f : α → β) (hx : Within r x) : Within r (f <$> x) :=
  bind hx fun a => pure (f a)

theorem ite {p : Prop} [Decidable p] {x y : EStateM ε σ α} (hx : Within r x) (hy : Within r y) :
    Within r (if p then x else y) := by
  split_ifs
  · exact hx
  · exact hy

/-- Where steps can be joined, one is enough. -/
theorem single [Std.Refl r] [IsTrans σ r] {x : EStateM ε σ α} (h : Within r x) (s : σ) :
    r s (endState (x s)) := by
  have hsteps := h s
  rwa [Relation.reflTransGen_eq_self] at hsteps

end Within

/-! ## The active page -/

/-- Memory in which the bytes of the active page may have changed, and nothing else. -/
structure Memory.Frame (m n : Memory) : Prop where
  pageCount : n.pageCount = m.pageCount
  activePage : n.activePage = m.activePage
  bytes : ∀ page address, page ≠ m.activePage → n.byte? page address = m.byte? page address

namespace Memory

theorem Frame.refl (m : Memory) : m.Frame m :=
  ⟨rfl, rfl, fun _ _ _ => rfl⟩

theorem Frame.trans {m n k : Memory} (h : m.Frame n) (h' : n.Frame k) : m.Frame k where
  pageCount := h'.pageCount.trans h.pageCount
  activePage := h'.activePage.trans h.activePage
  bytes page address hp :=
    (h'.bytes page address (h.activePage ▸ hp)).trans (h.bytes page address hp)

instance : Std.Refl Frame :=
  ⟨.refl⟩

instance : IsTrans Memory Frame :=
  ⟨fun _ _ _ => .trans⟩

theorem frame_write (address : Nat) (value : UInt8) (m : Memory) :
    m.Frame (m.write m.activePage address value) where
  pageCount := pageCount_write ..
  activePage := activePage_write ..
  bytes page a hp := by rw [byte?_write, if_neg fun h => hp h.1]

theorem frame_poke (address value : Nat) (m : Memory) :
    m.Frame (endState (poke m.activePage address value m)) := by
  rw [poke_eq]
  split_ifs
  · exact .refl m
  · exact .refl m
  · exact .refl m
  · exact frame_write address _ m

end Memory

/-- What is done through the bus on the active page leaves the frame. -/
theorem busRelation_frame (m : Memory) : BusRelation m.activePage fun n k => n = k ∧ m.Frame k :=
  .diagonal (P := m.Frame) (fun h => h.activePage)
    (fun address n h => by
      rw [show Bus.peek m.activePage address n = Memory.peek m.activePage address n from rfl,
        Memory.endState_peek]
      exact h)
    fun address value n h => h.trans (h.activePage ▸ Memory.frame_poke address value n)

namespace Memory

theorem within_inspect (look : Memory → Except MemoryError α) : Within Frame (inspect look) :=
  .of_eq fun m => by
    unfold inspect
    cases look m <;> rfl

theorem within_writeActive (address : Nat) (bytes : List UInt8) :
    Within Frame (writeActive address bytes) := fun m =>
  .single ((busRelation_frame m).onPage.pokeBytes address bytes m m ⟨rfl, .refl m⟩).endState.2

theorem within_fill (start stop : Nat) (pattern : List UInt8) :
    Within Frame (fill start stop pattern) :=
  .bind (within_inspect _) fun _ => .ite (.pure _) (within_writeActive _ _)

theorem within_move (start stop destination : Nat) : Within Frame (move start stop destination) :=
  .bind (within_inspect _) fun _ => within_writeActive _ _

end Memory

theorem Execution.frame_lineEffect (line : List Char) (c : Context Memory) :
    c.bus.Frame (endState (lineEffect line c)).bus :=
  (lineEffect_lockstep (busRelation_frame c.bus) consoleRelation_eq line c c
    ⟨rfl, ⟨rfl, .refl c.bus⟩, rfl⟩).endState.bus.2

/-! ## The size of the disk -/

namespace Disk

theorem size_write (sector : Int) (value : Nat) (d : Disk) :
    (endState (write sector value d)).size = d.size := by
  unfold write
  split
  · rfl
  · split_ifs
    · exact size_put ..
    · rfl

theorem size_writeEach (sector : Nat) (bytes : List UInt8) (d : Disk) :
    (endState (writeEach sector bytes d)).size = d.size := by
  induction bytes generalizing sector d with
  | nil => rfl
  | cons b bytes ih =>
    have hfirst := size_write sector b.toNat d
    change (endState (EStateM.bind (write sector b.toNat)
      (fun _ => writeEach (sector + 1) bytes) d)).size = _
    unfold EStateM.bind
    generalize write sector b.toNat d = r at hfirst
    cases r with
    | ok _ next => exact (ih (sector + 1) next).trans hfirst
    | error e next => exact hfirst

theorem size_load (host : Host) (d : Disk) : (endState (load host d)).size = d.size := by
  unfold load
  split
  · rfl
  · exact size_fit ..

theorem size_save (host : Host) (d : Disk) : (endState (save host d)).size = d.size := by
  unfold save
  split <;> rfl

end Disk

/-! ## Commands that run nothing -/

/-- An edit of the list of watches. -/
inductive WatchEdit
  | add (expr : String)
  | remove (expr : String)
  | clear

/-- What a command does to the list of watches, if it edits it. -/
def Command.edit? : Command → Option WatchEdit
  | .addWatch expr => some (.add expr)
  | .removeWatch expr => some (.remove expr)
  | _ => none

namespace Machine

variable {r : Machine → Machine → Prop}

theorem within_ofMemory (q : Except MemoryError α) : Within r (ofMemory q) := by
  cases q with
  | ok a => exact .pure a
  | error e => exact .throw _

theorem within_ofDisk (q : Except DiskError α) : Within r (ofDisk q) := by
  cases q with
  | ok a => exact .pure a
  | error e => exact .throw _

/-- An action on memory changes nothing else. -/
theorem within_onMemory_of {r : Machine → Machine → Prop} (x : BusM Memory α)
    (h : ∀ (m : Machine) (bus : Memory), r m { m with core := { m.core with bus } }) :
    Within r (onMemory x) := by
  rintro ⟨⟨registers, bus, console⟩, disk, debugger, trace, status, config⟩
  unfold onMemory onCore Exec.onBus
  dsimp only
  cases x bus <;> exact .single (h _ _)

/-- An action on the disk changes nothing else. -/
theorem within_onDisk_of {r : Machine → Machine → Prop} (x : DiskM α)
    (h : ∀ (m : Machine) (disk : Disk), r m { m with disk }) : Within r (onDisk x) := by
  rintro ⟨core, disk, debugger, trace, status, config⟩
  unfold onDisk
  dsimp only
  cases x disk <;> exact .single (h _ _)

/-- The parts of commands that edit no watches do not leave the relation. Of memory they change the active
page alone, and the disk keeps its size. -/
structure EnclosesPlain (r : Machine → Machine → Prop) : Prop where
  onMemory : ∀ {α : Type} {x : BusM Memory α}, Within Memory.Frame x → Within r (Machine.onMemory x)
  onDisk : ∀ {α : Type} {x : DiskM α}, (∀ d, (endState (x d)).size = d.size) → Within r (Machine.onDisk x)
  setRegisters : ∀ f, Within r (Machine.setRegisters f)
  setActivePage : ∀ page, Within r (Machine.setActivePage page)
  setBreakpoints : ∀ breakpoints : Debugger → Breakpoints,
    Within r (setDebugger fun d => { d with breakpoints := breakpoints d })
  load : ∀ source base, Within r (Machine.load source base)
  setTracing : ∀ on, Within r (Machine.setTracing on)

/-- The parts of commands do not leave the relation. -/
structure Encloses (r : Machine → Machine → Prop) : Prop extends EnclosesPlain r where
  edit : ∀ (breakpoints : Debugger → Breakpoints) (watches : Debugger → Watches),
    Within r (setDebugger fun d => { d with breakpoints := breakpoints d, watches := watches d })
  setBreakpoints breakpoints := edit breakpoints Debugger.watches

namespace EnclosesPlain

variable (h : EnclosesPlain r)
include h

theorem loadFile (host : Host) (path : String) (base : UInt16) :
    Within r (Machine.loadFile host path base) := by
  unfold Machine.loadFile
  cases programText (host (.read path)) with
  | error fault => exact .throw _
  | ok text => exact .bind (h.load _ _) fun _ => .bind .get fun _ => .pure _

theorem addBreakpoint (location : String) : Within r (Machine.addBreakpoint location) :=
  .bind .get fun _ => .bind (.ofExcept _) fun _ => .bind (h.setBreakpoints _) fun _ => .pure _

theorem removeBreakpoint (location : String) : Within r (Machine.removeBreakpoint location) :=
  .bind .get fun _ => .bind (.ofExcept _) fun _ => .bind (h.setBreakpoints _) fun _ => .pure _

theorem setRegister (name : String) (value : Nat) : Within r (Machine.setRegister name value) := by
  refine .bind (h.setRegisters _) fun _ => ?_
  cases Register.ofText name with
  | ok d => exact h.setRegisters _
  | error e => exact .throw _

theorem writeToDisk (address first count : Nat) : Within r (Machine.writeToDisk address first count) :=
  .bind .get fun _ => .bind (within_ofDisk _) fun _ => .bind (within_ofMemory _) fun _ =>
    .bind (within_ofMemory _) fun _ =>
      .bind (h.onDisk (Disk.size_writeEach _ _)) fun _ => .pure _

theorem readFromDisk (address first count : Nat) : Within r (Machine.readFromDisk address first count) :=
  .bind .get fun _ => .bind (within_ofDisk _) fun _ => .bind (within_ofMemory _) fun _ =>
    .bind (within_ofMemory _) fun _ =>
      .bind (h.onMemory (Memory.within_writeActive _ _)) fun _ => .pure _

theorem perform {command : Command} (host : Host) (hcommand : command.RunsNothing)
    (hedit : command.edit? = none) : Within r (command.perform host) := by
  cases command with
  | quit => exact .pure _
  | help => exact .pure _
  | showRegisters => exact .bind .get fun _ => .pure _
  | setRegister name value => exact .bind (h.setRegister name value) fun _ => .bind .get fun _ => .pure _
  | execute line => exact hcommand.elim
  | dump start stop => exact .bind .get fun _ => .bind (within_ofMemory _) fun _ => .pure _
  | fill start stop pattern => exact .bind (h.onMemory (Memory.within_fill _ _ _)) fun _ => .pure _
  | move start stop destination => exact .bind (h.onMemory (Memory.within_move _ _ _)) fun _ => .pure _
  | search start pattern => exact .bind .get fun _ => .bind (within_ofMemory _) fun _ => .pure _
  | compare start stop destination =>
    exact .bind .get fun _ => .bind (within_ofMemory _) fun _ => .pure _
  | enter address text => exact .bind (h.onMemory (Memory.within_writeActive _ _)) fun _ => .pure _
  | selectPage page => exact .bind (h.setActivePage page) fun _ => .pure _
  | load path base => exact .bind .get fun _ => .bind (h.loadFile host path _) fun _ => .pure _
  | trace on => exact .bind (h.setTracing on) fun _ => .pure _
  | addBreakpoint location => exact .bind (h.addBreakpoint location) fun _ => .pure _
  | removeBreakpoint location => exact .bind (h.removeBreakpoint location) fun _ => .pure _
  | listBreakpoints => exact .bind .get fun _ => .pure _
  | addWatch expr => cases hedit
  | removeWatch expr => cases hedit
  | listWatches => exact .bind .get fun _ => .pure _
  | step => exact hcommand.elim
  | run limit => exact hcommand.elim
  | listProgram => exact .bind .get fun _ => .bind (.ofExcept _) fun _ => .pure _
  | loadDisk => exact .bind (h.onDisk (Disk.size_load host)) fun _ => .bind .get fun _ => .pure _
  | saveDisk => exact .bind (h.onDisk (Disk.size_save host)) fun _ => .bind .get fun _ => .pure _
  | dumpDisk start stop => exact .bind .get fun _ => .bind (within_ofDisk _) fun _ => .pure _
  | writeToDisk address first count => exact .bind (h.writeToDisk address first count) fun _ => .pure _
  | readFromDisk address first count =>
    exact .bind (h.readFromDisk address first count) fun _ => .pure _

end EnclosesPlain

namespace Encloses

variable (h : Encloses r)
include h

theorem addWatch (expr : String) : Within r (Machine.addWatch expr) :=
  .bind .get fun _ => .bind (.ofExcept _) fun _ => h.edit _ _

theorem removeWatch (expr : String) : Within r (Machine.removeWatch expr) :=
  .bind .get fun _ => .bind (h.edit _ _) fun _ => .pure _

theorem perform {command : Command} (host : Host) (hcommand : command.RunsNothing) :
    Within r (command.perform host) := by
  cases command with
  | addWatch expr => exact .bind (h.addWatch expr) fun _ => .pure _
  | removeWatch expr => exact .bind (h.removeWatch expr) fun _ => .pure _
  | _ => exact h.toEnclosesPlain.perform host hcommand rfl

end Encloses

end Machine

/-! ## Changes -/

namespace Machine

/-- The machine with another page active. -/
def onPage (m : Machine) (page : Nat) (h : page < m.memory.pages.size) : Machine :=
  { m with
    core := { m.core with bus := ⟨m.memory.pages, page, h⟩ }
    config := { m.config with activePage := page } }

/-- One thing that may happen to a machine. -/
inductive Change : Machine → Machine → Prop
  /-- Registers, console and the active page may become anything. -/
  | core (m : Machine) (core : Context Memory) (h : m.memory.Frame core.bus) :
      Change m (m.withCore core)
  /-- A page that exists becomes the active one. -/
  | page (m : Machine) (page : Nat) (h : page < m.memory.pages.size) : Change m (m.onPage page h)
  /-- The disk keeps its size. -/
  | disk (m : Machine) (disk : Disk) (h : disk.size = m.disk.size) : Change m { m with disk }
  | load (m : Machine) (source : List String) (base : UInt16) : Change m (after (load source base) m)
  /-- The program stays or goes to a line, at which it may be marked as stopped. -/
  | position (m : Machine) (p : Program) (pc : Nat) (resume : Option Nat)
      (hp : m.debugger.program = some p) (hpc : pc = p.pc ∨ pc ≤ p.lines.size)
      (hresume : resume = none ∨ resume = some pc) : Change m (m.movedTo pc resume)
  | edit (m : Machine) (breakpoints : Breakpoints) (watches : Watches) :
      Change m (m.edited breakpoints watches)
  | trace (m : Machine) (trace : Trace) : Change m { m with trace }
  | status (m : Machine) (status : Status) : Change m (m.withStatus status)

/-! ## The parts of operations -/

theorem within_onCore {x : Exec Memory α} (h : ∀ c : Context Memory, c.bus.Frame (endState (x c)).bus) :
    Within Change (onCore x) := by
  intro m
  rw [onCore_eq]
  have hcore := h m.core
  cases hx : x m.core with
  | ok a c => exact .single (.core m c (by rwa [hx] at hcore))
  | error e c => exact .single (.core m c (by rwa [hx] at hcore))

theorem within_setRegisters (f : RegisterFile → RegisterFile) : Within Change (setRegisters f) :=
  within_onCore fun c => .refl c.bus

theorem within_onMemory {x : BusM Memory α} (h : Within Memory.Frame x) :
    Within Change (onMemory x) := by
  refine within_onCore fun c => ?_
  have hbus := h.single c.bus
  unfold Exec.onBus
  dsimp only
  cases hx : x c.bus with
  | ok a n => rwa [hx] at hbus
  | error e n => rwa [hx] at hbus

theorem within_onDisk {x : DiskM α} (h : ∀ d, (endState (x d)).size = d.size) :
    Within Change (onDisk x) := by
  intro m
  have hdisk := h m.disk
  unfold onDisk
  dsimp only
  cases hx : x m.disk with
  | ok a d => exact .single (.disk m d (by rwa [hx] at hdisk))
  | error e d => exact .single (.disk m d (by rwa [hx] at hdisk))

theorem changes_reported (m : Machine) (reports : List String) :
    ReflTransGen Change m (m.reported reports) :=
  .tail (.single (.core m (m.reported reports).core (.refl _))) (.trace _ _)

theorem within_exec (line : String) : Within Change (exec line) := by
  intro m
  obtain ⟨watches, reports, -, h⟩ := exec_eq line m
  have hframe := Execution.frame_lineEffect line.toList m.core
  have hobserved : ∀ core : Context Memory, m.memory.Frame core.bus →
      ReflTransGen Change m (m.observed core watches reports) := fun core hcore => by
    have hedit : ReflTransGen Change m ((m.withCore core).withWatches watches) :=
      .tail (.single (.core m core hcore)) (.edit _ m.debugger.breakpoints watches)
    exact hedit.trans (changes_reported _ reports)
  rw [h]
  cases hx : Execution.lineEffect line.toList m.core with
  | ok outcome core =>
    rw [hx] at hframe
    exact (hobserved core hframe).tail (.status _ _)
  | error e core =>
    rw [hx] at hframe
    exact hobserved core hframe

theorem within_load (source : List String) (base : UInt16) : Within Change (load source base) :=
  fun m => .single (.load m source base)

theorem within_edit (breakpoints : Debugger → Breakpoints) (watches : Debugger → Watches) :
    Within Change
      (setDebugger fun d => { d with breakpoints := breakpoints d, watches := watches d }) :=
  fun m => .single (.edit m _ _)

theorem setActivePage_eq (page : Nat) (m : Machine) :
    setActivePage page m =
      if h : page < m.memory.pages.size then .ok () (m.onPage page h)
      else .error (.memory (.invalidPage page m.memory.pages.size)) m := by
  change EStateM.bind (onMemory (Memory.setActivePage page)) _ m = _
  unfold EStateM.bind onMemory onCore Exec.onBus Memory.setActivePage
  dsimp only
  unfold memory
  by_cases h : page < m.core.bus.pages.size
  · rw [dif_pos h, dif_pos h]
    rfl
  · rw [dif_neg h, dif_neg h]

theorem within_setActivePage (page : Nat) : Within Change (setActivePage page) := by
  intro m
  rw [setActivePage_eq]
  split_ifs with h
  · exact .single (.page m page h)
  · exact .refl

theorem within_setTracing (on : Bool) : Within Change (setTracing on) :=
  fun m => .single (.trace m _)

/-- A step goes to the next line, and to the end of the program if that line has ended it. -/
theorem within_step : Within Change step := by
  intro m
  have hstepped := stepped m
  generalize step m = r at hstepped
  have hline : ∀ {p : Program} {line : String}, m.debugger.program = some p →
      p.lines[p.pc]? = some line →
      ReflTransGen Change m (after (exec line) (m.movedTo (p.pc + 1) none)) := fun {p line} hp hl => by
    have hpc : p.pc < p.lines.size := (Array.getElem?_eq_some_iff.1 hl).1
    -- The program moves on before the line runs, whatever becomes of the line.
    exact .head (.position m p (p.pc + 1) none hp (.inr hpc) (.inl rfl)) (within_exec line _)
  unfold after at hline
  cases hstepped with
  | noProgram hp => exact .refl
  | breakpoint hp hstop =>
    exact .head (.position m _ _ _ hp (.inl rfl) (.inr rfl)) (changes_reported _ _)
  | halted hp hstop hl => exact .refl
  | executed hp hstop hl hexec =>
    have hrun := hline hp hl
    rwa [hexec] at hrun
  | @exited p line code n hp hstop hl hexec =>
    -- The line has left the program alone, so its end is still the end of the loaded one.
    have hrun := hline hp hl
    have hsetup := exec_setup line (m.movedTo (p.pc + 1) none)
    rw [hexec] at hrun hsetup
    have hprogram : n.debugger.program = some { p with pc := p.pc + 1 } := by
      refine hsetup.program.trans ?_
      rw [movedTo, hp]
      rfl
    exact hrun.tail (.position n _ _ _ hprogram (.inr le_rfl) (.inl rfl))
  | failed hp hstop hl hexec =>
    have hrun := hline hp hl
    rwa [hexec] at hrun

theorem within_runFrom (steps limit : Nat) : Within Change (runFrom steps limit) := by
  induction limit generalizing steps with
  | zero => exact .pure _
  | succ limit ih =>
    refine within_step.bind fun s => ?_
    cases s with
    | executed line => exact ih _
    | breakpoint address => exact .pure _
    | halted => exact .pure _
    | exited line code => exact .pure _

theorem within_run (limit : Option Nat) : Within Change (run limit) :=
  .bind .get fun _ => within_runFrom _ _

theorem encloses_change : Encloses Change where
  onMemory := within_onMemory
  onDisk := within_onDisk
  setRegisters := within_setRegisters
  setActivePage := within_setActivePage
  edit := within_edit
  load := within_load
  setTracing := within_setTracing

/-! ## Operations -/

theorem within_command (host : Host) (command : Command) : Within Change (command.perform host) := by
  by_cases hcommand : command.RunsNothing
  · exact encloses_change.perform host hcommand
  · cases command with
    | execute line =>
      refine .bind (within_exec line) fun outcome => ?_
      cases outcome with
      | proceed => exact .bind .get fun _ => .pure _
      | exit code => exact .pure _
    | step => exact .bind within_step fun _ => .pure _
    | run limit => exact .bind (within_run limit) fun _ => .pure _
    | _ => exact absurd trivial hcommand

theorem within_call (call : Call) : Within Change call.perform := by
  cases call with
  | exec line => exact (within_exec line).map _
  | step => exact within_step.map _
  | run limit => exact (within_run limit).map _
  | load source base => exact (within_load source base).map _
  | addBreakpoint location => exact (encloses_change.toEnclosesPlain.addBreakpoint location).map _
  | removeBreakpoint location => exact (encloses_change.toEnclosesPlain.removeBreakpoint location).map _
  | clearBreakpoints => exact (within_edit _ _).map _
  | addWatch expr => exact (encloses_change.addWatch expr).map _
  | removeWatch expr => exact (encloses_change.removeWatch expr).map _
  | clearWatches => exact (within_edit _ _).map _
  | listing => exact .bind .get fun _ => .bind (.ofExcept _) fun _ => .pure _

/-- A command line does to the machine what its command does. -/
theorem snd_dispatch (host : Host) (line : String) (m : Machine) :
    (m.dispatch host line).2 =
      match Command.ofLine? line with
      | some command => after (command.perform host) m
      | none => m := by
  unfold dispatch
  by_cases hblank : isBlankLine line
  · rw [if_pos hblank, Command.ofLine?_of_blank hblank]
  · rw [if_neg hblank]
    cases Command.ofLine? line with
    | none => rfl
    | some command =>
      unfold after
      dsimp only
      cases command.perform host m <;> rfl

theorem within_dispatch (host : Host) (line : String) (m : Machine) :
    ReflTransGen Change m (m.dispatch host line).2 := by
  rw [snd_dispatch]
  cases Command.ofLine? line with
  | none => exact .refl
  | some command => exact within_command host command m

end Machine

/-- What is done with a machine from outside: a command line is read and carried out, a command is
carried out by itself, or a call is made. -/
inductive Operation
  | dispatch (host : Host) (line : String)
  | command (host : Host) (command : Command)
  | call (call : Call)

/-- What an operation answers. -/
inductive Answer
  | output (o : CommandOutput)
  | reply (r : Reply)

def Operation.perform : Operation → MachineM Answer
  | .dispatch host line => fun m =>
    let (output, n) := m.dispatch host line
    .ok (.output output) n
  | .command host c => .output <$> c.perform host
  | .call c => .reply <$> c.perform

namespace Machine

/-- The machine after some operations, of which each may have failed. -/
def afterOperations (operations : List Operation) (m : Machine) : Machine :=
  operations.foldl (fun m operation => after operation.perform m) m

/-- **An operation does nothing but changes**, whether it fails or not. -/
theorem within_perform (operation : Operation) : Within Change operation.perform := by
  cases operation with
  | dispatch host line => exact within_dispatch host line
  | command host command => exact (within_command host command).map _
  | call call => exact (within_call call).map _

/-- What every change keeps, every operation keeps. -/
theorem operations_induction {P : Machine → Prop} (hchange : ∀ m n, Change m n → P m → P n)
    (operations : List Operation) {m : Machine} (h : P m) : P (afterOperations operations m) := by
  induction operations generalizing m with
  | nil => exact h
  | cons operation operations ih =>
    have hkept : ∀ n, ReflTransGen Change m n → P n := fun n hsteps => by
      induction hsteps with
      | refl => exact h
      | tail _ hlast ih => exact hchange _ _ hlast ih
    exact ih (hkept _ (within_perform operation m))

end Machine

end DosMonitor
