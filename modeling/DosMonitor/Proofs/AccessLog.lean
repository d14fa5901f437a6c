import Mathlib
import DosMonitor.Proofs.Call
import DosMonitor.Proofs.Observation

/-!
# The log of accesses is the history of memory

A memory behind a log (`Logged`) answers every call as the memory alone does, and its log is what the
memory has accepted: read in order it leads from the memory at the beginning to the memory at the end,
and each byte read is the one that was there at that time (`History`). To say what memory has accepted,
`Journaled` notes every byte that a bus is asked for, refused ones included.

Calls reach the bus through its four operations alone, so all of this needs an argument for reading and
for writing one byte (`FullRelation`). Instructions are covered by the same argument, which gives the
same for the record that a traced instruction leaves (`logged_history`).
-/

namespace DosMonitor

variable {β γ α : Type}

/-! ## Calls to a bus -/

/-- What may be asked of a bus. -/
inductive BusCall
  | peek (page address : Nat)
  | poke (page address value : Nat)
  | peekActive (address : Nat)
  | pokeActive (address value : Nat)
  | pokeText (page address : Nat) (text : String)
  | pokeBytes (page address : Nat) (bytes : List UInt8)
  | read16 (page address : Nat)
  | write16 (page address : Nat) (value : UInt16)

/-- What a bus answers. -/
inductive BusReply
  | done
  | byte (b : UInt8)
  | word (w : UInt16)

namespace BusCall

def perform [Bus β] : BusCall → BusM β BusReply
  | peek page address => .byte <$> Bus.peek page address
  | poke page address value => (fun _ => .done) <$> Bus.poke page address value
  | peekActive address => .byte <$> Bus.peekActive address
  | pokeActive address value => (fun _ => .done) <$> Bus.pokeActive address value
  | pokeText page address text => (fun _ => .done) <$> Bus.pokeText page address text
  | pokeBytes page address bytes => (fun _ => .done) <$> Bus.pokeBytes page address bytes
  | read16 page address => .word <$> Bus.read16 page address
  | write16 page address value => (fun _ => .done) <$> Bus.write16 page address value

/-- What each of some calls has come to, with the bus after it. -/
def results [Bus β] : List BusCall → β → List (EStateM.Result MemoryError β BusReply)
  | [], _ => []
  | call :: calls, b => call.perform b :: results calls (endState (call.perform b))

/-- The bus after some calls, of which each may have failed. -/
def afterAll [Bus β] : List BusCall → β → β
  | [], b => b
  | call :: calls, b => afterAll calls (endState (call.perform b))

end BusCall

/-- Related buses have the given active page and answer alike on every page. -/
structure FullRelation [Bus β] [Bus γ] (page : Nat) (B : β → γ → Prop) : Prop where
  activePage : ∀ {b c}, B b c → Bus.activePage b = page ∧ Bus.activePage c = page
  onPage : ∀ q, PageRelation q B

section Lockstep
variable [Bus β] [Bus γ] {page : Nat} {B : β → γ → Prop}

theorem FullRelation.toBusRelation (hB : FullRelation page B) : BusRelation page B where
  activePage := hB.activePage
  pageCount := (hB.onPage page).pageCount
  peek := (hB.onPage page).peek
  poke := (hB.onPage page).poke

theorem BusCall.lockstep_perform (hB : FullRelation page B) (call : BusCall) :
    Lockstep B call.perform call.perform := by
  cases call with
  | peek q address => exact ((hB.onPage q).peek address).map _
  | poke q address value => exact ((hB.onPage q).poke address value).map _
  | peekActive address =>
    exact (hB.toBusRelation.onActivePage (Bus.peek · address) (Bus.peek · address)
      ((hB.onPage page).peek address)).map _
  | pokeActive address value =>
    exact (hB.toBusRelation.onActivePage (Bus.poke · address value) (Bus.poke · address value)
      ((hB.onPage page).poke address value)).map _
  | pokeText q address text => exact ((hB.onPage q).pokeBytes address _).map _
  | pokeBytes q address bytes => exact ((hB.onPage q).pokeBytes address bytes).map _
  | read16 q address => exact ((hB.onPage q).read16 address).map _
  | write16 q address value => exact ((hB.onPage q).write16 address value).map _

theorem BusCall.forall₂_results (hB : FullRelation page B) (calls : List BusCall) {b : β} {c : γ}
    (h : B b c) : List.Forall₂ (SameEnd B) (results calls b) (results calls c) := by
  induction calls generalizing b c with
  | nil => exact .nil
  | cons call calls ih =>
    have hcall := lockstep_perform hB call b c h
    exact .cons hcall (ih hcall.endState)

theorem BusCall.related_afterAll (hB : FullRelation page B) (calls : List BusCall) {b : β} {c : γ}
    (h : B b c) : B (afterAll calls b) (afterAll calls c) := by
  induction calls generalizing b c with
  | nil => exact h
  | cons call calls ih => exact ih (lockstep_perform hB call b c h).endState

end Lockstep

/-! ## Histories -/

/-- Memory after an access. -/
def Access.redo (m : Memory) (a : Access) : Memory :=
  match a.direction with
  | .read => m
  | .write => m.write a.page a.address a.value

def Memory.replay (m : Memory) (accesses : List Access) : Memory :=
  accesses.foldl Access.redo m

/-- The accesses lead from one memory to the other, and each byte read is the one that the accesses
before it have left at its place. -/
structure History (m : Memory) (accesses : List Access) (n : Memory) : Prop where
  replay : m.replay accesses = n
  reads : ∀ earlier a, earlier ++ [a] <+: accesses → a.direction = .read →
    (m.replay earlier).byte? a.page a.address = some a.value

theorem History.nil (m : Memory) : History m [] m where
  replay := rfl
  reads earlier a h := by simp at h

theorem History.concat {m n : Memory} {accesses : List Access} (h : History m accesses n) (a : Access)
    (hread : a.direction = .read → n.byte? a.page a.address = some a.value) :
    History m (accesses ++ [a]) (a.redo n) where
  replay := by
    rw [Memory.replay, List.foldl_append, List.foldl_cons, List.foldl_nil]
    exact congrArg (Access.redo · a) h.replay
  reads earlier x hx := by
    rcases List.prefix_concat_iff.1 hx with heq | hprefix
    · obtain ⟨rfl, rfl⟩ : earlier = accesses ∧ x = a := by simpa using heq
      rw [h.replay]
      exact hread
    · exact h.reads earlier x hprefix

/-- A memory behind a log that has become `n`, and `n` itself. The log leads there from `m`. -/
def Recorded (page : Nat) (m : Memory) (bus : Logged Memory) (n : Memory) : Prop :=
  bus.inner = n ∧ n.activePage = page ∧ History m bus.log.toList n

theorem Recorded.start (m : Memory) : Recorded m.activePage m (Logged.start m) m :=
  ⟨rfl, rfl, .nil m⟩

theorem fullRelation_recorded (page : Nat) (m : Memory) : FullRelation page (Recorded page m) where
  activePage := by
    rintro bus _ ⟨rfl, hpage, -⟩
    exact ⟨hpage, hpage⟩
  onPage q := {
    pageCount := fun h => congrArg Memory.pageCount h.1
    peek := fun address => by
      rintro ⟨n, log⟩ _ ⟨rfl, hpage, h⟩
      change SameEnd _ (Logged.record (Memory.peek q address) _ ⟨n, log⟩) (Memory.peek q address n)
      unfold Logged.record
      dsimp only
      rw [Memory.peek_eq]
      cases hb : n.byte? q address with
      | some b =>
        refine .ok b ⟨rfl, hpage, ?_⟩
        rw [Array.toList_push]
        exact h.concat ⟨.read, q, address, b⟩ fun _ => hb
      | none =>
        dsimp only
        split_ifs
        · exact .error _ ⟨rfl, hpage, h⟩
        · exact .error _ ⟨rfl, hpage, h⟩
    poke := fun address value => by
      rintro ⟨n, log⟩ _ ⟨rfl, hpage, h⟩
      change SameEnd _ (Logged.record (Memory.poke q address value) _ ⟨n, log⟩)
        (Memory.poke q address value n)
      unfold Logged.record
      dsimp only
      rw [Memory.poke_eq]
      split_ifs
      · exact .error _ ⟨rfl, hpage, h⟩
      · exact .error _ ⟨rfl, hpage, h⟩
      · exact .error _ ⟨rfl, hpage, h⟩
      · -- The log notes the byte that is written, not the value that was asked for.
        refine .ok () ⟨rfl, hpage, ?_⟩
        rw [Array.toList_push]
        exact h.concat ⟨.write, q, address, UInt8.ofNat value⟩ fun hread => by cases hread }

/-! ## What a bus has accepted -/

/-- One byte that a bus was asked to read or to write, and its answer. -/
inductive ByteRequest
  | read (page address : Nat) (answer : Except MemoryError UInt8)
  | write (page address value : Nat) (answer : Except MemoryError Unit)

/-- The access that a request has led to, none if it was refused. -/
def ByteRequest.access? : ByteRequest → Option Access
  | read page address (.ok b) => some ⟨.read, page, address, b⟩
  | write page address value (.ok _) => some ⟨.write, page, address, UInt8.ofNat value⟩
  | read _ _ (.error _) | write _ _ _ (.error _) => none

/-- A bus that keeps a journal of the bytes it was asked for. -/
structure Journaled (β : Type) where
  inner : β
  journal : List ByteRequest

namespace Journaled

def start (bus : β) : Journaled β :=
  ⟨bus, []⟩

/-- The accesses that the bus has accepted. -/
def accepted (bus : Journaled β) : List Access :=
  bus.journal.filterMap ByteRequest.access?

/-- Carries out an action and notes the request with its answer. -/
def note (action : BusM β α) (request : Except MemoryError α → ByteRequest) : BusM (Journaled β) α
  | ⟨inner, journal⟩ =>
    match action inner with
    | .ok a inner => .ok a ⟨inner, journal ++ [request (.ok a)]⟩
    | .error e inner => .error e ⟨inner, journal ++ [request (.error e)]⟩

instance [Bus β] : Bus (Journaled β) where
  pageCount bus := Bus.pageCount bus.inner
  activePage bus := Bus.activePage bus.inner
  peek page address := note (Bus.peek page address) (.read page address)
  poke page address value := note (Bus.poke page address value) (.write page address value)

end Journaled

/-- A log and a journal of the same memory, the log holding what the journal has as accepted. -/
def LogsAccepted (page : Nat) (bus : Logged Memory) (asked : Journaled Memory) : Prop :=
  bus.inner = asked.inner ∧ asked.inner.activePage = page ∧ bus.log.toList = asked.accepted

theorem lockstep_record_note {page : Nat} {action : BusM Memory α} {access : α → Access}
    {request : Except MemoryError α → ByteRequest}
    (hactive : ∀ m, (endState (action m)).activePage = m.activePage)
    (hok : ∀ a, (request (.ok a)).access? = some (access a))
    (herror : ∀ e, (request (.error e)).access? = none) :
    Lockstep (LogsAccepted page) (Logged.record action access) (Journaled.note action request) := by
  rintro ⟨m, log⟩ ⟨_, journal⟩ ⟨rfl, hpage, hlog⟩
  have hafter := (hactive m).trans hpage
  have hnext : ∀ r, Journaled.accepted ⟨m, journal ++ [r]⟩ = log.toList ++ r.access?.toList := by
    intro r
    rw [hlog]
    cases h : r.access? <;> simp [Journaled.accepted, h]
  simp only [Logged.record, Journaled.note]
  cases h : action m with
  | ok a n =>
    rw [h] at hafter
    refine .ok a ⟨rfl, hafter, ?_⟩
    rw [Array.toList_push]
    exact ((hnext _).trans (by rw [hok]; rfl)).symm
  | error e n =>
    rw [h] at hafter
    refine .error e ⟨rfl, hafter, ?_⟩
    exact ((hnext _).trans (by rw [herror]; exact List.append_nil _)).symm

theorem fullRelation_logsAccepted (page : Nat) : FullRelation page (LogsAccepted page) where
  activePage := by
    rintro bus asked ⟨hinner, hpage, -⟩
    exact ⟨(congrArg Memory.activePage hinner).trans hpage, hpage⟩
  onPage q := {
    pageCount := fun h => congrArg Memory.pageCount h.1
    peek := fun address =>
      lockstep_record_note (activePage_peek q address) (fun _ => rfl) fun _ => rfl
    poke := fun address value =>
      lockstep_record_note (activePage_poke q address value) (fun _ => rfl) fun _ => rfl }

/-! ## Records -/

/-- A store that is written at some places holds the new values there and the old ones elsewhere. -/
theorem get_foldl_set {σ κ ν : Type} [DecidableEq κ] {get : σ → κ → ν} {set : σ → κ → ν → σ}
    (hself : ∀ s k v, get (set s k v) k = v)
    (hne : ∀ s k v l, l ≠ k → get (set s k v) l = get s l) (new : κ → ν) (ks : List κ) (s : σ) (l : κ) :
    get (ks.foldl (fun s k => set s k (new k)) s) l = if l ∈ ks then new l else get s l := by
  induction ks generalizing s with
  | nil => simp
  | cons k ks ih =>
    rw [List.foldl_cons, ih]
    by_cases hl : l ∈ ks
    · simp [hl]
    · by_cases hk : l = k
      · subst hk
        simp [hl, hself]
      · simp [hl, hk, hne _ _ _ _ hk]

namespace Snapshot

/-- Registers and flags after changes. -/
def redo (s : Snapshot) (registers : List RegisterChange) (flags : List FlagChange) : Snapshot where
  values := registers.foldl (fun bank c => bank.set c.register c.new) s.values
  flags := flags.foldl (fun fs c => fs.set c.flag c.new) s.flags

/-- The changes between two times lead from the one to the other. -/
theorem redo_changes (s t : Snapshot) : s.redo (s.registerChanges t) (s.flagChanges t) = t := by
  refine Snapshot.ext (Bank.ext_get fun r => ?_) (Flags.ext_get fun f => ?_)
  · simp only [redo, registerChanges, List.foldl_map]
    rw [get_foldl_set Bank.get_set_self (fun b _ v _ h => b.get_set_ne v h)]
    by_cases h : s.values.get r = t.values.get r <;> simp [h]
  · simp only [redo, flagChanges, List.foldl_map]
    rw [get_foldl_set Flags.get_set_self (fun fs _ v _ h => fs.get_set_ne v h)]
    by_cases h : s.flags.get f = t.flags.get f <;> simp [h]

end Snapshot

/-- The core with a journal in front of memory. -/
def Context.journaled (c : Context Memory) : Context (Journaled Memory) :=
  ⟨c.registers, Journaled.start c.bus, c.console⟩

/-- What an instruction starts from: the change report is empty. -/
def Machine.committed (m : Machine) : Context Memory :=
  ⟨m.registers.commit, m.memory, m.console⟩

/-- The accesses of an instruction are the history of memory. -/
theorem Context.history_accesses (c : Context Memory) (i : Instruction) :
    History c.bus (c.accesses i) (endState (Execution.execute i c)).bus :=
  (Execution.execute_lockstep (fullRelation_recorded c.bus.activePage c.bus).toBusRelation
    consoleRelation_eq i c.logged c ⟨rfl, .start c.bus, rfl⟩).endState.bus.2.2

/-- They are what memory has accepted. -/
theorem Context.accesses_eq_accepted (c : Context Memory) (i : Instruction) :
    c.accesses i = (endState (Execution.execute i c.journaled)).bus.accepted :=
  (Execution.execute_lockstep (fullRelation_logsAccepted c.bus.activePage).toBusRelation
    consoleRelation_eq i c.logged c.journaled ⟨rfl, ⟨rfl, rfl, rfl⟩, rfl⟩).endState.bus.2.2

namespace Machine

/-- A traced line acts as its instruction does, puts out its record and looks at the watches. -/
theorem after_exec_tracedTo {m : Machine} {line : String} {i : Instruction}
    (htrace : m.trace.enabled = true) (hlabel : Source.label? line.toList = none)
    (hi : Source.instruction? line.toList = .ok (some i)) :
    ∃ status, after (exec line) m =
      (m.tracedTo (endState (Execution.execute i m.committed))
        (m.committed.traceLine line.toList i)).withStatus status := by
  have hrun : runLine line.toList m =
      mapEnd (m.tracedTo · (m.committed.traceLine line.toList i))
        (Execution.execute i m.committed) := by
    refine Eq.trans ?_ (executeTraced_eq_tracedTo line.toList i (m.withCore m.committed))
    unfold runLine
    rw [hlabel, hi]
    change (if m.trace.enabled then executeTraced line.toList i else onCore (Execution.execute i))
      (m.withCore m.committed) = _
    rw [if_pos htrace]
  unfold after exec
  simp only [bind, EStateM.bind, hrun]
  cases Execution.execute i m.committed with
  | ok outcome core =>
    cases outcome with
    | proceed => exact ⟨m.status, rfl⟩
    | exit code => exact ⟨.terminated code, rfl⟩
  | error e core => exact ⟨m.status, rfl⟩

theorem after_exec_traced {m : Machine} {line : String} {i : Instruction}
    (htrace : m.trace.enabled = true) (hlabel : Source.label? line.toList = none)
    (hi : Source.instruction? line.toList = .ok (some i)) :
    ∃ watches reports status, after (exec line) m =
      (m.observed (endState (Execution.execute i m.committed)) watches
        (m.committed.traceLine line.toList i :: reports)).withStatus status := by
  obtain ⟨status, h⟩ := after_exec_tracedTo htrace hlabel hi
  exact ⟨_, _, status, h⟩

end Machine

/-- **The log of accesses is the history of memory.** Behind a log each call to memory comes to what it
comes to without, the log holds what memory has accepted, in order, and it leads from the memory before
to the memory after. Of a traced instruction, also of one that fails, the record that is put out has
the changes that lead from the registers and flags before to those after, and the history of memory. -/
theorem logged_history (m : Memory) (calls : List BusCall) :
    (let log := (BusCall.afterAll calls (Logged.start m)).log.toList
     List.Forall₂ (SameEnd fun bus n => bus.inner = n) (BusCall.results calls (Logged.start m))
       (BusCall.results calls m) ∧
     (BusCall.afterAll calls (Journaled.start m)).inner = BusCall.afterAll calls m ∧
     log = (BusCall.afterAll calls (Journaled.start m)).accepted ∧
     History m log (BusCall.afterAll calls m)) ∧
    ∀ (machine : Machine) (line : String) (i : Instruction), machine.trace.enabled = true →
      Source.label? line.toList = none → Source.instruction? line.toList = .ok (some i) →
      let record := machine.committed.traceRecord line.toList i
      let next := Machine.after (Machine.exec line) machine
      (∃ reports, next.trace.lines.toList =
        machine.trace.lines.toList ++ machine.committed.traceLine line.toList i :: reports) ∧
      record.before = machine.registers.now ∧ record.after = next.registers.now ∧
      record.before.redo record.registerChanges record.flagChanges = record.after ∧
      record.accesses = (endState (Execution.execute i machine.committed.journaled)).bus.accepted ∧
      History machine.memory record.accesses next.memory := by
  have hcalls := BusCall.related_afterAll (fullRelation_recorded m.activePage m) calls (.start m)
  have hresults := BusCall.forall₂_results (fullRelation_recorded m.activePage m) calls (.start m)
  have hlog := BusCall.related_afterAll (fullRelation_logsAccepted m.activePage) calls
    (b := Logged.start m) (c := Journaled.start m) ⟨rfl, rfl, rfl⟩
  refine ⟨⟨?_, hlog.1.symm.trans hcalls.1, hlog.2.2, hcalls.2.2⟩, ?_⟩
  · exact hresults.imp fun r q h => h.imp fun hrecorded => hrecorded.1
  · intro machine line i htrace hlabel hi
    obtain ⟨watches, reports, status, hnext⟩ := Machine.after_exec_traced htrace hlabel hi
    dsimp only
    rw [hnext]
    refine ⟨⟨reports, ?_⟩, rfl, rfl, Snapshot.redo_changes _ _, ?_, ?_⟩
    · exact Array.toList_append
    · exact machine.committed.accesses_eq_accepted i
    · exact machine.committed.history_accesses i

/-- A push at the wrapping stack pointer, after a word that wraps and a value that is refused. -/
theorem logged_history_push :
    let m := Machine.standard "" (.ofInput [])
    let machine : Machine :=
      { m with core := { m.core with registers := m.registers.set .sp 1 }, trace := ⟨true, false, #[]⟩ }
    let i : Instruction := ⟨.push, [.register .ax]⟩
    let accesses : List Access := [⟨.write, 0, 0xFFFF, 0⟩, ⟨.write, 0, 0, 0⟩]
    machine.trace.enabled = true ∧ Source.label? "PUSH AX".toList = none ∧
      Source.instruction? "PUSH AX".toList = .ok (some i) ∧
      machine.committed.accesses i = accesses ∧
      History machine.memory accesses (Machine.after (Machine.exec "PUSH AX") machine).memory ∧
      History m.memory [⟨.write, 0, 0xFFFF, 0x34⟩, ⟨.write, 0, 0, 0x12⟩]
        (BusCall.afterAll [.write16 0 0xFFFF 0x1234, .poke 0 5 300] m.memory) := by
  intro m machine i accesses
  have hlabel : Source.label? "PUSH AX".toList = none := by decide +kernel
  have hi : Source.instruction? "PUSH AX".toList = .ok (some i) := by decide +kernel
  have haccesses : machine.committed.accesses i = accesses := by decide +kernel
  have hlog : (BusCall.afterAll [.write16 0 0xFFFF 0x1234, .poke 0 5 300]
      (Logged.start m.memory)).log.toList = [⟨.write, 0, 0xFFFF, 0x34⟩, ⟨.write, 0, 0, 0x12⟩] := by rfl
  obtain ⟨⟨-, -, -, hcalls⟩, hline⟩ :=
    logged_history m.memory [.write16 0 0xFFFF 0x1234, .poke 0 5 300]
  obtain ⟨-, -, -, -, -, hpush⟩ := hline machine "PUSH AX" i rfl hlabel hi
  rw [hlog] at hcalls
  exact ⟨rfl, hlabel, hi, haccesses, haccesses ▸ hpush, hcalls⟩

end DosMonitor
