import Mathlib
import DosMonitor.Execution.Execute
import DosMonitor.Memory.Logged
import DosMonitor.Memory.Paged
import DosMonitor.Proofs.Lockstep

/-!
# What an instruction depends on

An instruction reaches memory through the bus, always on the active page, and the console through
printing and reading a line. So it does the same on two buses that answer alike on that page
(`BusRelation`) and on two consoles that answer alike (`ConsoleRelation`): `execute_lockstep`. Nothing
else about bus and console is used, which covers a memory behind a log (`busRelation_logged`) and
consoles with different things written on them.
-/

namespace DosMonitor

variable {β γ α : Type}

/-- Related buses have the given active page, as many pages, and on that page the same answers. -/
structure BusRelation [Bus β] [Bus γ] (page : Nat) (B : β → γ → Prop) : Prop where
  activePage : ∀ {b c}, B b c → Bus.activePage b = page ∧ Bus.activePage c = page
  pageCount : ∀ {b c}, B b c → Bus.pageCount b = Bus.pageCount c
  peek : ∀ address, Lockstep B (Bus.peek page address) (Bus.peek page address)
  poke : ∀ address value, Lockstep B (Bus.poke page address value) (Bus.poke page address value)

/-- Related buses have as many pages and give the same answers on the given one. -/
structure PageRelation [Bus β] [Bus γ] (page : Nat) (B : β → γ → Prop) : Prop where
  pageCount : ∀ {b c}, B b c → Bus.pageCount b = Bus.pageCount c
  peek : ∀ address, Lockstep B (Bus.peek page address) (Bus.peek page address)
  poke : ∀ address value, Lockstep B (Bus.poke page address value) (Bus.poke page address value)

/-- Related consoles give the same lines and stay related when the same is written on both. -/
structure ConsoleRelation (K : Console → Console → Prop) : Prop where
  write : ∀ {c d} bytes, K c d → K (c.write bytes) (d.write bytes)
  readLine : ∀ {c d}, K c d → c.readLine.1 = d.readLine.1 ∧ K c.readLine.2 d.readLine.2

/-- The same registers, on related buses and consoles. -/
structure Context.Related (B : β → γ → Prop) (K : Console → Console → Prop) (c : Context β)
    (d : Context γ) : Prop where
  registers : c.registers = d.registers
  bus : B c.bus d.bus
  console : K c.console d.console

/-! ## The bus -/

section Bus
variable [Bus β] [Bus γ] {page : Nat} {B : β → γ → Prop}

theorem BusRelation.onActivePage (hB : BusRelation page B) (f : Nat → BusM β α) (g : Nat → BusM γ α)
    (h : Lockstep B (f page) (g page)) :
    Lockstep B (get >>= fun b => f (Bus.activePage b)) (get >>= fun c => g (Bus.activePage c)) := by
  refine Lockstep.get_bind fun b c hbc => ?_
  simp only [hB.activePage hbc]
  exact h b c hbc

theorem BusRelation.onPage (hB : BusRelation page B) : PageRelation page B where
  pageCount := hB.pageCount
  peek := hB.peek
  poke := hB.poke

theorem PageRelation.checkAccess (hB : PageRelation page B) (address : Nat) :
    Lockstep B (Bus.checkAccess page address) (Bus.checkAccess page address) := by
  refine Lockstep.get_bind fun b c hbc => ?_
  rw [hB.pageCount hbc]
  exact Lockstep.check _ (Lockstep.ite (Lockstep.throw _) (Lockstep.pure _)) b c hbc

theorem PageRelation.pokeEach (hB : PageRelation page B) (address : Nat) (bytes : List UInt8) :
    Lockstep B (Bus.pokeEach page address bytes) (Bus.pokeEach page address bytes) := by
  induction bytes generalizing address with
  | nil => exact Lockstep.pure _
  | cons b bytes ih => exact Lockstep.bind (hB.poke _ _) fun _ => ih _

theorem PageRelation.pokeBytes (hB : PageRelation page B) (address : Nat) (bytes : List UInt8) :
    Lockstep B (Bus.pokeBytes page address bytes) (Bus.pokeBytes page address bytes) := by
  refine Lockstep.bind (hB.checkAccess _) fun _ => ?_
  exact Lockstep.check _ (hB.pokeEach _ _)

theorem PageRelation.read16 (hB : PageRelation page B) (address : Nat) :
    Lockstep B (Bus.read16 page address) (Bus.read16 page address) :=
  Lockstep.bind (hB.peek _) fun _ => Lockstep.bind (hB.peek _) fun _ => Lockstep.pure _

theorem PageRelation.write16 (hB : PageRelation page B) (address : Nat) (value : UInt16) :
    Lockstep B (Bus.write16 page address value) (Bus.write16 page address value) :=
  Lockstep.bind (hB.checkAccess _) fun _ => Lockstep.bind (hB.poke _ _) fun _ => hB.poke _ _

theorem PageRelation.readString (hB : PageRelation page B) (room address : Nat)
    (found : Array UInt8) :
    Lockstep B (Execution.readString page room address found)
      (Execution.readString page room address found) := by
  induction room generalizing address found with
  | zero => exact Lockstep.throw _
  | succ room ih =>
    refine Lockstep.bind (hB.peek _) fun b => ?_
    split
    · exact Lockstep.pure _
    · exact Lockstep.bind (Lockstep.pure _) fun _ => ih _ _

end Bus

/-! ## The context -/

section Context
variable {B : β → γ → Prop} {K : Console → Console → Prop}

theorem lockstep_registers :
    Lockstep (Context.Related B K) (Exec.registers : Exec β RegisterFile) Exec.registers :=
  Lockstep.get_bind fun _ _ h => h.registers ▸ .ok _ h

theorem lockstep_setRegisters (f : RegisterFile → RegisterFile) :
    Lockstep (Context.Related B K) (Exec.setRegisters f) (Exec.setRegisters f) :=
  fun _ _ h => .ok () ⟨congrArg f h.registers, h.bus, h.console⟩

theorem lockstep_onBus {f : BusM β α} {g : BusM γ α} (h : Lockstep B f g) :
    Lockstep (Context.Related B K) (Exec.onBus f) (Exec.onBus g) := by
  rintro ⟨registers, b, console⟩ ⟨registers', c, console'⟩ ⟨hregisters, hbus, hconsole⟩
  have hfg := h b c hbus
  unfold Exec.onBus
  dsimp only
  generalize f b = r at hfg
  generalize g c = q at hfg
  cases hfg with
  | ok a hbc => exact .ok a ⟨hregisters, hbc, hconsole⟩
  | error e hbc => exact .error _ ⟨hregisters, hbc, hconsole⟩

theorem lockstep_print (hK : ConsoleRelation K) (bytes : List UInt8) :
    Lockstep (Context.Related B K) (Exec.print bytes) (Exec.print bytes) :=
  fun _ _ h => .ok () ⟨h.registers, h.bus, hK.write bytes h.console⟩

theorem lockstep_readLine (hK : ConsoleRelation K) :
    Lockstep (Context.Related B K) (Exec.readLine : Exec β String) Exec.readLine := by
  rintro ⟨registers, b, console⟩ ⟨registers', c, console'⟩ ⟨hregisters, hbus, hconsole⟩
  obtain ⟨hline, hrest⟩ := hK.readLine hconsole
  change SameEnd _ (.ok (console.readLine.1.getD "") _) (.ok (console'.readLine.1.getD "") _)
  rw [hline]
  exact .ok _ ⟨hregisters, hbus, hrest⟩

end Context

/-! ## The units -/

namespace Execution

section Registers
variable {B : β → γ → Prop} {K : Console → Console → Prop}

theorem lockstep_unary (i : Instruction) (operation : UInt16 → Effect) :
    Lockstep (Context.Related B K) (unary i operation) (unary i operation) :=
  Lockstep.bind (Lockstep.ofExcept _) fun _ =>
    Lockstep.bind (lockstep_setRegisters _) fun _ => Lockstep.pure _

theorem lockstep_binary (i : Instruction) (operation : UInt16 → UInt16 → Effect) :
    Lockstep (Context.Related B K) (binary i operation) (binary i operation) :=
  Lockstep.bind (Lockstep.ofExcept _) fun _ => Lockstep.bind lockstep_registers fun _ =>
    Lockstep.bind (Lockstep.ofExcept _) fun _ =>
      Lockstep.bind (lockstep_setRegisters _) fun _ => Lockstep.pure _

theorem lockstep_arithmetic (i : Instruction) :
    Lockstep (Context.Related B K) (arithmetic i) (arithmetic i) := by
  unfold arithmetic
  split <;> first | exact lockstep_binary i _ | exact lockstep_unary i _ | exact Lockstep.pure _

theorem lockstep_logic (i : Instruction) :
    Lockstep (Context.Related B K) (logic i) (logic i) := by
  unfold logic
  split <;> first | exact lockstep_binary i _ | exact lockstep_unary i _ | exact Lockstep.pure _

theorem lockstep_dosAddress :
    Lockstep (Context.Related B K) (dosAddress : Exec β Nat) dosAddress :=
  Lockstep.bind lockstep_registers fun _ => Lockstep.check _ (Lockstep.pure _)

end Registers

section Bus
variable [Bus β] [Bus γ] {page : Nat} {B : β → γ → Prop} {K : Console → Console → Prop}

theorem lockstep_push (hB : BusRelation page B) (i : Instruction) :
    Lockstep (Context.Related B K) (push i) (push i) := by
  refine Lockstep.bind (Lockstep.ofExcept _) fun r => Lockstep.bind lockstep_registers fun rf => ?_
  refine Lockstep.bind (lockstep_onBus ?_) fun _ => ?_
  · exact hB.onActivePage (Bus.write16 · _ _) (Bus.write16 · _ _) (hB.onPage.write16 _ _)
  · exact Lockstep.bind (lockstep_setRegisters _) fun _ => Lockstep.pure _

theorem lockstep_pop (hB : BusRelation page B) (i : Instruction) :
    Lockstep (Context.Related B K) (pop i) (pop i) := by
  refine Lockstep.bind (Lockstep.ofExcept _) fun r => Lockstep.bind lockstep_registers fun rf => ?_
  refine Lockstep.bind (lockstep_onBus ?_) fun _ => ?_
  · exact hB.onActivePage (Bus.read16 · _) (Bus.read16 · _) (hB.onPage.read16 _)
  · exact Lockstep.bind (lockstep_setRegisters _) fun _ => Lockstep.pure _

theorem lockstep_transfer (hB : BusRelation page B) (i : Instruction) :
    Lockstep (Context.Related B K) (transfer i) (transfer i) := by
  unfold transfer
  split
  · exact lockstep_binary i _
  · exact lockstep_push hB i
  · exact lockstep_pop hB i
  · exact Lockstep.pure _

/-! ## The services of interrupt 21h -/

theorem lockstep_printString (hB : BusRelation page B) (hK : ConsoleRelation K) :
    Lockstep (Context.Related B K) (printString : Exec β Outcome) printString := by
  refine Lockstep.bind lockstep_dosAddress fun address => ?_
  refine Lockstep.bind (lockstep_onBus ?_) fun text => ?_
  · exact hB.onActivePage (Execution.readString · _ _ _) (Execution.readString · _ _ _)
      (hB.onPage.readString _ _ _)
  · exact Lockstep.bind (lockstep_print hK _) fun _ => Lockstep.pure _

theorem lockstep_readBuffer (hB : BusRelation page B) (hK : ConsoleRelation K) :
    Lockstep (Context.Related B K) (readBuffer : Exec β Outcome) readBuffer := by
  refine Lockstep.bind lockstep_dosAddress fun buffer => ?_
  -- The page that the buffer is written to is the one that its limit was read from.
  refine Lockstep.bindOf (fun found => found.1 = page) (lockstep_onBus ?_) ?_ ?_
  · exact hB.onActivePage (fun p => do let limit ← Bus.peek p buffer; return (p, limit.toNat))
      (fun p => do let limit ← Bus.peek p buffer; return (p, limit.toNat))
      (Lockstep.bind (hB.peek _) fun _ => Lockstep.pure _)
  · rintro ⟨registers, b, console⟩ ⟨_, c, _⟩ ⟨-, hbc, -⟩ found s' hfound
    rw [← (hB.activePage hbc).1]
    change Exec.onBus (fun b => EStateM.bind (Bus.peek (Bus.activePage b) buffer) _ b) _ = _ at hfound
    cases hpeek : Bus.peek (Bus.activePage b) buffer b <;>
      simp only [Exec.onBus, EStateM.bind, hpeek] at hfound
    · cases hfound
      rfl
    · cases hfound
  · rintro ⟨p, limit⟩ rfl
    refine Lockstep.check _ (Lockstep.bind (lockstep_readLine hK) fun line => ?_)
    refine Lockstep.bind (lockstep_onBus ?_) fun _ => Lockstep.pure _
    exact Lockstep.bind (hB.poke _ _) fun _ =>
      Lockstep.bind (hB.onPage.pokeBytes _ _) fun _ => hB.poke _ _

theorem lockstep_dosService (hB : BusRelation page B) (hK : ConsoleRelation K) :
    Lockstep (Context.Related B K) (dosService : Exec β Outcome) dosService := by
  refine Lockstep.bind lockstep_registers fun rf => ?_
  simp only []
  split
  · exact lockstep_printString hB hK
  · exact lockstep_readBuffer hB hK
  · exact Lockstep.pure _
  · exact Lockstep.throw _

theorem lockstep_interrupt (hB : BusRelation page B) (hK : ConsoleRelation K) (i : Instruction) :
    Lockstep (Context.Related B K) (interrupt i) (interrupt i) := by
  unfold interrupt
  split
  · refine Lockstep.bind lockstep_registers fun rf => Lockstep.bind (Lockstep.ofExcept _) fun v => ?_
    exact Lockstep.ite (lockstep_dosService hB hK) (Lockstep.throw _)
  · exact Lockstep.pure _

/-- **An instruction does the same** on buses and consoles that answer alike. -/
theorem execute_lockstep (hB : BusRelation page B) (hK : ConsoleRelation K) (i : Instruction) :
    Lockstep (Context.Related B K) (execute i) (execute i) := by
  unfold execute runOn
  split
  · exact lockstep_transfer hB i
  · exact lockstep_arithmetic i
  · exact lockstep_logic i
  · exact lockstep_interrupt hB hK i

/-- An instruction is carried out in one of five ways, by its opcode. -/
theorem execute_cases {i : Instruction} {P : Exec β Outcome → Prop}
    (hunary : ∀ operation, P (unary i operation)) (hbinary : ∀ operation, P (binary i operation))
    (hpush : i.opcode = .push → P (push i)) (hpop : i.opcode = .pop → P (pop i))
    (hinterrupt : i.opcode = .int → P (interrupt i)) : P (execute i) := by
  obtain ⟨op, operands⟩ := i
  cases op with
  | push => exact hpush rfl
  | pop => exact hpop rfl
  | int => exact hinterrupt rfl
  | not | neg | inc | dec | shl | shr | rol | ror => exact hunary _
  | mov => exact hbinary fun _ b => Effect.plain b
  | add | sub => exact hbinary _
  | and => exact hbinary fun a b => Effect.bitwise (a &&& b)
  | or => exact hbinary fun a b => Effect.bitwise (a ||| b)
  | xor => exact hbinary fun a b => Effect.bitwise (a ^^^ b)

end Bus

end Execution

/-! ## Memory, and memory behind a log -/

theorem Memory.endState_peek (page address : Nat) (m : Memory) :
    endState (peek page address m) = m := by
  rw [peek_eq]
  cases m.byte? page address with
  | some b => rfl
  | none => dsimp only; split_ifs <;> rfl

theorem activePage_peek (page address : Nat) (m : Memory) :
    (endState (Memory.peek page address m)).activePage = m.activePage := by
  rw [Memory.endState_peek]

theorem activePage_poke (page address value : Nat) (m : Memory) :
    (endState (Memory.poke page address value m)).activePage = m.activePage := by
  rw [Memory.poke_eq]
  split_ifs <;> rfl

/-- What reading and writing on the active page keep relates every bus that has it to itself. -/
theorem BusRelation.diagonal [Bus β] {page : Nat} {P : β → Prop}
    (hactive : ∀ {b}, P b → Bus.activePage b = page)
    (hpeek : ∀ address b, P b → P (endState (Bus.peek page address b)))
    (hpoke : ∀ address value b, P b → P (endState (Bus.poke page address value b))) :
    BusRelation page fun b c : β => b = c ∧ P c where
  activePage := by
    rintro b _ ⟨rfl, h⟩
    exact ⟨hactive h, hactive h⟩
  pageCount := fun h => congrArg Bus.pageCount h.1
  peek address := (Lockstep.refl _).keeping P (hpeek address)
  poke address value := (Lockstep.refl _).keeping P (hpoke address value)

theorem busRelation_memory (page : Nat) :
    BusRelation page fun m n : Memory => m = n ∧ n.activePage = page :=
  .diagonal id (fun address m => (activePage_peek page address m).trans)
    fun address value m => (activePage_poke page address value m).trans

theorem Logged.lockstep_record (action : BusM β α) (access : α → Access) :
    Lockstep (fun (bus : Logged β) inner => bus.inner = inner) (Logged.record action access) action := by
  rintro ⟨inner, log⟩ _ rfl
  simp only [Logged.record]
  cases action inner with
  | ok a inner => exact .ok a rfl
  | error e inner => exact .error e rfl

theorem Logged.lockstep_record_record {B : β → γ → Prop} {x : BusM β α} {y : BusM γ α}
    (h : Lockstep B x y) (access : α → Access) :
    Lockstep (fun (b : Logged β) (c : Logged γ) => B b.inner c.inner ∧ b.log = c.log)
      (Logged.record x access) (Logged.record y access) := by
  rintro ⟨b, log⟩ ⟨c, _⟩ ⟨hbc, rfl⟩
  have hxy := h b c hbc
  unfold Logged.record
  dsimp only
  generalize x b = r at hxy
  generalize y c = q at hxy
  cases hxy with
  | ok a hend => exact .ok a ⟨hend, rfl⟩
  | error e hend => exact .error e ⟨hend, rfl⟩

/-- Related buses stay related behind logs, and have the same log. -/
theorem BusRelation.logged [Bus β] [Bus γ] {page : Nat} {B : β → γ → Prop} (hB : BusRelation page B) :
    BusRelation page fun (b : Logged β) (c : Logged γ) => B b.inner c.inner ∧ b.log = c.log where
  activePage h := hB.activePage h.1
  pageCount h := hB.pageCount h.1
  peek address := Logged.lockstep_record_record (hB.peek address) _
  poke address value := Logged.lockstep_record_record (hB.poke address value) _

theorem busRelation_logged (page : Nat) :
    BusRelation page fun (bus : Logged Memory) m => bus.inner = m ∧ m.activePage = page where
  activePage := by
    rintro bus _ ⟨rfl, h⟩
    exact ⟨h, h⟩
  pageCount := fun h => congrArg Memory.pageCount h.1
  peek address := (Logged.lockstep_record _ _).keeping _ fun m h =>
    (activePage_peek page address m).trans h
  poke address value := (Logged.lockstep_record _ _).keeping _ fun m h =>
    (activePage_poke page address value m).trans h

/-! ## Consoles -/

theorem consoleRelation_eq : ConsoleRelation Eq where
  write bytes h := congrArg (Console.write · bytes) h
  readLine h := ⟨congrArg (·.readLine.1) h, congrArg (·.readLine.2) h⟩

/-- Consoles with the same lines to read, and with the same output if `seen` is true. -/
theorem consoleRelation_input (seen : Prop) :
    ConsoleRelation fun c d => c.input = d.input ∧ (seen → c.output = d.output) where
  write bytes h := ⟨h.1, fun hs => congrArg (Array.appendList · bytes) (h.2 hs)⟩
  readLine := by
    rintro ⟨output, input⟩ ⟨output', _⟩ ⟨rfl, h⟩
    cases input with
    | nil => exact ⟨rfl, rfl, h⟩
    | cons line rest => exact ⟨rfl, rfl, h⟩

end DosMonitor
