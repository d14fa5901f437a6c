import Mathlib
import DosMonitor.Proofs.Operation

/-!
# Pages are isolated

Two machines that differ only in the pages that are not active are told apart by no operation that
neither selects a page nor watches a byte of another page, and such an operation leaves all other pages
as they are (`pages_isolated`).

Memory is reached in three ways: byte by byte through the bus, on the active page
(`busRelation_apart`), as a whole by commands that look at the active page (`SharesPage`), and by
watches, which look at the active page unless they name another one (`WatchTarget.Local`). Everything
else that an operation looks at is the same on both machines, with one exception: the orders in which
labels are gone through may differ, and they show in the lines of trace only (`Apart.reported`).
-/

namespace DosMonitor

variable {α β : Type}

/-! ## Memories with the same active page -/

namespace Memory

/-- Two memories with as many pages, the same active page and the same bytes on it. -/
structure SharesPage (m n : Memory) : Prop where
  pageCount : m.pageCount = n.pageCount
  activePage : m.activePage = n.activePage
  bytes : ∀ address, m.byte? m.activePage address = n.byte? m.activePage address

/-- Such memories, which outside of the active page are what they were at the beginning. -/
structure Apart (m₀ n₀ m n : Memory) : Prop extends m.SharesPage n where
  left : m₀.Frame m
  right : n₀.Frame n

variable {m n m₀ n₀ : Memory}

theorem byte?_active (m : Memory) (address : Nat) :
    m.byte? m.activePage address = m.active[address]? := by
  unfold byte? active
  simp [m.activePage_lt]

theorem SharesPage.active (h : m.SharesPage n) : m.active = n.active := by
  refine Vector.ext fun i hi => ?_
  have hbyte := h.bytes i
  rw [byte?_active, h.activePage, byte?_active] at hbyte
  simpa [hi] using hbyte

theorem SharesPage.write (h : m.SharesPage n) (address : Nat) (value : UInt8) :
    (m.write m.activePage address value).SharesPage (n.write m.activePage address value) where
  pageCount := by rw [pageCount_write, pageCount_write, h.pageCount]
  activePage := h.activePage
  bytes a := by rw [activePage_write, byte?_write, byte?_write, h.bytes, h.bytes]

theorem SharesPage.block (h : m.SharesPage n) (start stop : Nat) :
    m.block start stop = n.block start stop := by
  unfold Memory.block
  rw [h.active]

theorem SharesPage.search (h : m.SharesPage n) (start : Nat) (pattern : List UInt8) :
    m.search start pattern = n.search start pattern := by
  unfold Memory.search
  rw [h.active, h.activePage]

theorem SharesPage.compare (h : m.SharesPage n) (start stop destination : Nat) :
    m.compare start stop destination = n.compare start stop destination := by
  unfold Memory.compare
  simp only [h.block, h.activePage]

theorem SharesPage.dump (h : m.SharesPage n) (start stop : Nat) :
    m.dump start stop = n.dump start stop := by
  unfold Memory.dump
  rw [h.block, h.activePage]

end Memory

/-- On the active page the bus answers alike, and writes stay there. -/
theorem busRelation_apart (m₀ n₀ : Memory) : BusRelation m₀.activePage (Memory.Apart m₀ n₀) where
  activePage h := ⟨h.left.activePage, h.activePage.symm.trans h.left.activePage⟩
  pageCount h := h.pageCount
  peek address := by
    intro m n h
    change SameEnd _ (Memory.peek _ address m) (Memory.peek _ address n)
    rw [← h.left.activePage, Memory.peek_eq, Memory.peek_eq, h.bytes, h.pageCount]
    cases n.byte? m.activePage address with
    | some b => exact .ok b h
    | none =>
      -- Which of the two errors it is depends on the number of pages, which is the same.
      dsimp only
      split_ifs
      · exact .error _ h
      · exact .error _ h
  poke address value := by
    intro m n h
    change SameEnd _ (Memory.poke _ address value m) (Memory.poke _ address value n)
    rw [← h.left.activePage, Memory.poke_eq, Memory.poke_eq, h.pageCount]
    split_ifs
    · exact .error _ h
    · exact .error _ h
    · exact .error _ h
    · have hright := Memory.frame_write address (UInt8.ofNat value) n
      rw [← h.activePage] at hright
      exact .ok () ⟨h.write _ _, h.left.trans (Memory.frame_write _ _ m), h.right.trans hright⟩

section Memory
variable {m₀ n₀ : Memory}

theorem lockstep_inspect {look : Memory → Except MemoryError α}
    (hlook : ∀ {m n : Memory}, m.SharesPage n → look m = look n) :
    Lockstep (Memory.Apart m₀ n₀) (Memory.inspect look) (Memory.inspect look) := by
  intro m n h
  unfold Memory.inspect
  rw [hlook h.toSharesPage]
  cases look n with
  | ok a => exact .ok a h
  | error e => exact .error e h

theorem lockstep_writeActive (address : Nat) (bytes : List UInt8) :
    Lockstep (Memory.Apart m₀ n₀) (Memory.writeActive address bytes)
      (Memory.writeActive address bytes) := by
  intro m n h
  unfold Memory.writeActive
  rw [← h.activePage, h.left.activePage]
  exact (busRelation_apart m₀ n₀).onPage.pokeBytes address bytes m n h

theorem lockstep_fill (start stop : Nat) (pattern : List UInt8) :
    Lockstep (Memory.Apart m₀ n₀) (Memory.fill start stop pattern) (Memory.fill start stop pattern) :=
  .bind (lockstep_inspect fun _ => rfl) fun _ => .ite (.pure _) (lockstep_writeActive _ _)

theorem lockstep_move (start stop destination : Nat) :
    Lockstep (Memory.Apart m₀ n₀) (Memory.move start stop destination)
      (Memory.move start stop destination) :=
  .bind (lockstep_inspect fun h => h.block start stop) fun _ => lockstep_writeActive _ _

end Memory

/-! ## Watches -/

/-- What is watched names no page, or the given one. -/
def WatchTarget.Local (page : Nat) : WatchTarget → Prop
  | memory (some q) _ => q = page
  | _ => True

/-- No watch names another page. -/
def Watches.Local (page : Nat) (ws : Watches) : Prop :=
  ∀ w ∈ ws, w.target.Local page

/-- The expression names no other page. -/
def LocalExpression (page : Nat) (expr : String) : Prop :=
  ∀ target, WatchTarget.parse expr = .ok target → target.Local page

theorem WatchTarget.Local.evaluate {target : WatchTarget} {m n : Memory} (h : m.SharesPage n)
    (hlocal : target.Local m.activePage) (rf : RegisterFile) :
    target.evaluate rf m = target.evaluate rf n := by
  cases target with
  | register r => rfl
  | flag f => rfl
  | dosPointer => simp only [WatchTarget.evaluate, ← h.activePage, h.bytes]
  | memory page address =>
    cases page with
    | none => simp only [WatchTarget.evaluate, Option.getD_none, ← h.activePage, h.bytes]
    | some q =>
      obtain rfl : q = m.activePage := hlocal
      simp only [WatchTarget.evaluate, Option.getD_some, h.bytes]

namespace Watches

variable {page : Nat} {ws : Watches}

theorem Local.observe_eq {m n : Memory} (h : m.SharesPage n) (hlocal : ws.Local m.activePage)
    (rf : RegisterFile) : ws.observe rf m = ws.observe rf n := by
  have hlooks : ws.map (·.observe rf m) = ws.map (·.observe rf n) :=
    List.map_congr_left fun w hw => by
      unfold Watch.observe
      rw [(hlocal w hw).evaluate h]
  unfold observe
  rw [hlooks]

theorem Local.observe (hlocal : ws.Local page) (rf : RegisterFile) (m : Memory) :
    Local page (ws.observe rf m).1 := by
  intro w hw
  simp only [Watches.observe, List.map_map, List.mem_map] at hw
  obtain ⟨v, hv, rfl⟩ := hw
  exact hlocal v hv

theorem Local.add {vs : Watches} {expr : String} (hlocal : ws.Local page)
    (hexpr : LocalExpression page expr) (h : ws.add expr = .ok vs) : vs.Local page := by
  unfold Watches.add at h
  cases htarget : WatchTarget.parse expr with
  | error e =>
    rw [htarget] at h
    cases h
  | ok target =>
    rw [htarget] at h
    obtain rfl := Except.ok.inj h
    split_ifs
    · exact hlocal
    · intro w hw
      rcases List.mem_append.1 hw with hw | hw
      · exact hlocal w hw
      · obtain rfl := List.mem_singleton.1 hw
        exact hexpr target htarget

theorem Local.remove (hlocal : ws.Local page) (expr : String) : (ws.remove expr).Local page :=
  fun w hw => hlocal w (List.mem_of_mem_filter hw)

end Watches

/-! ## Machines with the same active page -/

namespace Machine

/-- Two machines that differ in the pages that are not active. If they go through labels in the `same` orders
they differ in nothing else; if not, then in these orders, in the lines of trace, and in the output as far as
these lines are shown on the console. -/
structure DifferElsewhere (same : Prop) (m n : Machine) : Prop where
  memory : m.memory.SharesPage n.memory
  registers : m.registers = n.registers
  input : m.console.input = n.console.input
  output : same ∨ m.trace.echo = false → m.console.output = n.console.output
  disk : m.disk = n.disk
  debugger : m.debugger = n.debugger
  enabled : m.trace.enabled = n.trace.enabled
  echo : m.trace.echo = n.trace.echo
  lines : same → m.trace.lines = n.trace.lines
  status : m.status = n.status
  config : { m.config with labelOrders := n.config.labelOrders } = n.config
  labelOrders : same → m.config.labelOrders = n.config.labelOrders

/-- Such machines with local watches, the other pages of which are what they were at the beginning. -/
structure Apart (same : Prop) (m₀ n₀ : Memory) (m n : Machine) : Prop
    extends DifferElsewhere same m n where
  left : m₀.Frame m.memory
  right : n₀.Frame n.memory
  watches : n.debugger.watches.Local m₀.activePage

/-- The cores of such machines, which have put out the same if `seen` is true. -/
abbrev ApartCore (seen : Prop) (m₀ n₀ : Memory) : Context Memory → Context Memory → Prop :=
  Context.Related (Memory.Apart m₀ n₀) fun c d => c.input = d.input ∧ (seen → c.output = d.output)

variable {same : Prop} {m₀ n₀ : Memory} {m n : Machine}

theorem DifferElsewhere.program (h : DifferElsewhere same m n) :
    m.debugger.program = n.debugger.program :=
  congrArg Debugger.program h.debugger

theorem DifferElsewhere.base (h : DifferElsewhere same m n) : m.config.base = n.config.base := by
  rw [← h.config]

theorem Apart.core (h : Apart same m₀ n₀ m n) :
    ApartCore (same ∨ m.trace.echo = false) m₀ n₀ m.core n.core :=
  ⟨h.registers, ⟨h.memory, h.left, h.right⟩, h.input, h.output⟩

theorem Apart.withCore (h : Apart same m₀ n₀ m n) {c d : Context Memory}
    (hcd : ApartCore (same ∨ m.trace.echo = false) m₀ n₀ c d) :
    Apart same m₀ n₀ (m.withCore c) (n.withCore d) :=
  { h with
    memory := hcd.bus.toSharesPage
    registers := hcd.registers
    input := hcd.console.1
    output := hcd.console.2
    left := hcd.bus.left
    right := hcd.bus.right }

/-- Different lines of trace may be put out by machines that go through labels in different orders. -/
theorem Apart.reported (h : Apart same m₀ n₀ m n) {rs qs : List String} (hreports : same → rs = qs) :
    Apart same m₀ n₀ (m.reported rs) (n.reported qs) := by
  refine { h with
    input := (m.input_reported rs).trans (h.input.trans (n.input_reported qs).symm)
    output := fun hseen => ?_
    lines := fun hsame => ?_ }
  · rcases hseen with hsame | hecho
    · have hconsole : m.console = n.console := Console.ext (h.output (.inl hsame)) h.input
      change (if m.trace.echo then rs.foldl Console.writeLine m.console else m.console).output =
        (if n.trace.echo then qs.foldl Console.writeLine n.console else n.console).output
      rw [hreports hsame, h.echo, hconsole]
    · have hm : m.trace.echo = false := hecho
      rw [console_reported hm, console_reported (h.echo.symm.trans hm)]
      exact h.output (.inr hm)
  · change m.trace.lines ++ rs.toArray = n.trace.lines ++ qs.toArray
    rw [hreports hsame, h.lines hsame]

theorem Apart.movedTo (h : Apart same m₀ n₀ m n) (pc : Nat) (resume : Option Nat) :
    Apart same m₀ n₀ (m.movedTo pc resume) (n.movedTo pc resume) :=
  { h with debugger := by simp only [Machine.movedTo, h.debugger] }

/-! ## The parts of operations -/

theorem apart_onCore {x : Exec Memory α} (hx : ∀ seen, Lockstep (ApartCore seen m₀ n₀) x x) :
    Lockstep (Apart same m₀ n₀) (onCore x) (onCore x) := by
  intro m n h
  rw [onCore_eq, onCore_eq]
  have hcore := hx _ m.core n.core h.core
  generalize x m.core = r at hcore
  generalize x n.core = q at hcore
  cases hcore with
  | ok a hend => exact .ok a (h.withCore hend)
  | error e hend => exact .error e (h.withCore hend)

theorem apart_onMemory {x : BusM Memory α} (hx : Lockstep (Memory.Apart m₀ n₀) x x) :
    Lockstep (Apart same m₀ n₀) (onMemory x) (onMemory x) :=
  apart_onCore fun _ => lockstep_onBus hx

theorem apart_setRegisters (f : RegisterFile → RegisterFile) :
    Lockstep (Apart same m₀ n₀) (setRegisters f) (setRegisters f) :=
  apart_onCore fun _ => lockstep_setRegisters f

theorem apart_onDisk (x : DiskM α) : Lockstep (Apart same m₀ n₀) (onDisk x) (onDisk x) := by
  intro m n h
  unfold onDisk
  dsimp only
  rw [h.disk]
  cases x n.disk with
  | ok a d => exact .ok a { h with disk := rfl }
  | error e d => exact .error _ { h with disk := rfl }

theorem apart_setDebugger {f : Debugger → Debugger}
    (hf : ∀ d : Debugger, d.watches.Local m₀.activePage → (f d).watches.Local m₀.activePage) :
    Lockstep (Apart same m₀ n₀) (setDebugger f) (setDebugger f) :=
  fun _ _ h => .ok () { h with debugger := congrArg f h.debugger, watches := hf _ h.watches }

theorem apart_setBreakpoints (breakpoints : Debugger → Breakpoints) :
    Lockstep (Apart same m₀ n₀) (setDebugger fun d => { d with breakpoints := breakpoints d })
      (setDebugger fun d => { d with breakpoints := breakpoints d }) :=
  apart_setDebugger fun _ h => h

theorem apart_setWatches {watches : Watches} (hlocal : watches.Local m₀.activePage) :
    Lockstep (Apart same m₀ n₀) (setDebugger fun d => { d with watches })
      (setDebugger fun d => { d with watches }) :=
  apart_setDebugger fun _ _ => hlocal

theorem apart_setStatus (status : Status) :
    Lockstep (Apart same m₀ n₀) (setStatus status) (setStatus status) :=
  fun _ _ h => .ok () { h with status := rfl }

theorem apart_setTracing (on : Bool) : Lockstep (Apart same m₀ n₀) (setTracing on) (setTracing on) :=
  fun _ _ h => .ok () { h with enabled := rfl }

theorem apart_emit (line : String) : Lockstep (Apart same m₀ n₀) (emit line) (emit line) := by
  intro m n h
  rw [emit_eq, emit_eq]
  exact .ok () (h.reported fun _ => rfl)

theorem apart_emitAll (lines : List String) :
    Lockstep (Apart same m₀ n₀) (emitAll lines) (emitAll lines) := by
  intro m n h
  rw [emitAll_eq, emitAll_eq]
  exact .ok () (h.reported fun _ => rfl)

theorem apart_ofMemory (q : Except MemoryError α) :
    Lockstep (Apart same m₀ n₀) (ofMemory q) (ofMemory q) := by
  cases q with
  | ok a => exact .pure a
  | error e => exact .throw _

theorem apart_ofDisk (q : Except DiskError α) : Lockstep (Apart same m₀ n₀) (ofDisk q) (ofDisk q) := by
  cases q with
  | ok a => exact .pure a
  | error e => exact .throw _

/-! ## Lines -/

theorem apart_observeWatches : Lockstep (Apart same m₀ n₀) observeWatches observeWatches := by
  refine Lockstep.get_bind fun m n h => ?_
  have hlocal := h.watches
  have hwatches : m.debugger.watches.observe m.registers m.memory =
      n.debugger.watches.observe n.registers n.memory := by
    rw [h.debugger, h.registers]
    exact Watches.Local.observe_eq h.memory (h.left.activePage ▸ hlocal) _
  rw [hwatches]
  exact Lockstep.bind (apart_setWatches (hlocal.observe _ _))
    (fun _ => apart_emitAll _) m n h

theorem apart_executeTraced (line : List Char) (i : Instruction) :
    Lockstep (Apart same m₀ n₀) (executeTraced line i) (executeTraced line i) := by
  refine Lockstep.get_bind fun m n h => ?_
  rw [h.registers]
  -- The accesses go into the trace line, so it takes the logs to agree, not the memories alone.
  refine Lockstep.bind (apart_onCore fun seen => lockstep_attemptLogged (busRelation_apart m₀ n₀)
    (consoleRelation_input seen) i) (fun found => Lockstep.get_bind fun m' n' h' => ?_) m n h
  rw [h'.registers]
  obtain ⟨result, accesses⟩ := found
  cases result with
  | ok outcome =>
    exact Lockstep.bind (apart_emit _)
      (fun _ => Lockstep.bind apart_observeWatches fun _ => Lockstep.pure _) m' n' h'
  | error e =>
    exact Lockstep.bind (apart_emit _)
      (fun _ => Lockstep.bind apart_observeWatches fun _ => Lockstep.throw _) m' n' h'

theorem apart_runLine (line : List Char) : Lockstep (Apart same m₀ n₀) (runLine line) (runLine line) := by
  unfold runLine
  split_ifs
  · exact .pure _
  · split
    · exact .throw _
    · exact .pure _
    · refine Lockstep.bind (apart_setRegisters _) fun _ => Lockstep.get_bind fun m n h => ?_
      rw [h.enabled]
      exact Lockstep.ite (apart_executeTraced line _) (apart_onCore fun seen =>
        Execution.execute_lockstep (busRelation_apart m₀ n₀) (consoleRelation_input seen) _) m n h

theorem apart_exec (line : String) : Lockstep (Apart same m₀ n₀) (exec line) (exec line) := by
  refine .bind (apart_runLine _) fun outcome => .bind ?_ fun _ => .pure _
  cases outcome with
  | proceed => exact .pure _
  | exit code => exact apart_setStatus _

theorem stepRelation_apart (same : Prop) (m₀ n₀ : Memory) : StepRelation (Apart same m₀ n₀) where
  program h := h.program
  stops h p := by
    unfold stops
    rw [h.debugger]
  maxSteps h := by rw [← h.config]
  movedTo h := h.movedTo
  breakAt h p line := h.reported fun hsame => by
    unfold labelOrder
    rw [h.labelOrders hsame, h.debugger]
  exec := apart_exec

/-! ## Programs, breakpoints and watches -/

theorem apart_load (source : List String) (base : UInt16) :
    Lockstep (Apart same m₀ n₀) (load source base) (load source base) :=
  .bind (apart_setDebugger fun _ h => h) fun _ => apart_setStatus _

theorem apart_loadFile (host : Host) (path : String) (base : UInt16) :
    Lockstep (Apart same m₀ n₀) (loadFile host path base) (loadFile host path base) := by
  unfold loadFile
  cases programText (host (.read path)) with
  | error fault => exact .throw _
  | ok text =>
    refine Lockstep.bind (apart_load _ _) fun _ => Lockstep.get_bind fun m n h => ?_
    rw [h.debugger]
    exact .ok _ h

theorem apart_addBreakpoint (location : String) :
    Lockstep (Apart same m₀ n₀) (addBreakpoint location) (addBreakpoint location) := by
  refine Lockstep.get_bind fun m n h => ?_
  rw [resolve_congr h.program]
  exact Lockstep.bind (.ofExcept _)
    (fun _ => Lockstep.bind (apart_setBreakpoints _) fun _ => .pure _) m n h

theorem apart_removeBreakpoint (location : String) :
    Lockstep (Apart same m₀ n₀) (removeBreakpoint location) (removeBreakpoint location) := by
  refine Lockstep.get_bind fun m n h => ?_
  rw [resolve_congr h.program, h.debugger]
  exact Lockstep.bind (.ofExcept _)
    (fun _ => Lockstep.bind (apart_setBreakpoints _) fun _ => .pure _) m n h

theorem apart_addWatch {expr : String} (hexpr : LocalExpression m₀.activePage expr) :
    Lockstep (Apart same m₀ n₀) (addWatch expr) (addWatch expr) := by
  refine Lockstep.get_bind fun m n h => ?_
  rw [h.debugger]
  cases hadd : n.debugger.watches.add expr with
  | error e => exact .error e h
  | ok ws => exact apart_setWatches (h.watches.add hexpr hadd) m n h

theorem apart_removeWatch (expr : String) :
    Lockstep (Apart same m₀ n₀) (removeWatch expr) (removeWatch expr) := by
  refine Lockstep.get_bind fun m n h => ?_
  rw [h.debugger]
  exact Lockstep.bind (apart_setWatches (h.watches.remove expr)) (fun _ => .pure _) m n h

/-! ## Registers, memory and disk -/

theorem apart_setRegister (name : String) (value : Nat) :
    Lockstep (Apart same m₀ n₀) (setRegister name value) (setRegister name value) := by
  refine .bind (apart_setRegisters _) fun _ => ?_
  cases Register.ofText name with
  | ok r => exact apart_setRegisters _
  | error e => exact .throw _

theorem apart_writeToDisk (address first count : Nat) :
    Lockstep (Apart same m₀ n₀) (writeToDisk address first count) (writeToDisk address first count) := by
  refine Lockstep.get_bind fun m n h => ?_
  simp only [h.disk, h.memory.block]
  exact Lockstep.bind (apart_ofDisk _) (fun _ => Lockstep.bind (apart_ofMemory _) fun _ =>
    Lockstep.bind (apart_ofMemory _) fun _ => Lockstep.bind (apart_onDisk _) fun _ => .pure _) m n h

theorem apart_readFromDisk (address first count : Nat) :
    Lockstep (Apart same m₀ n₀) (readFromDisk address first count) (readFromDisk address first count) := by
  refine Lockstep.get_bind fun m n h => ?_
  rw [h.disk]
  exact Lockstep.bind (apart_ofDisk _) (fun _ => Lockstep.bind (apart_ofMemory _) fun _ =>
    Lockstep.bind (apart_ofMemory _) fun _ =>
      Lockstep.bind (apart_onMemory (lockstep_writeActive _ _)) fun _ => .pure _) m n h

end Machine

/-! ## Operations -/

/-- The command selects no page and watches none but the given one. -/
def Command.Local (page : Nat) : Command → Prop
  | selectPage _ => False
  | addWatch expr => LocalExpression page expr
  | _ => True

/-- The call watches no page but the given one. -/
def Call.Local (page : Nat) : Call → Prop
  | addWatch expr => LocalExpression page expr
  | _ => True

/-- The operation selects no page and watches none but the given one. -/
def Operation.Local (page : Nat) : Operation → Prop
  | dispatch _ line => ∀ c, Command.ofLine? line = some c → c.Local page
  | command _ c => c.Local page
  | call c => c.Local page

namespace Machine

variable {same : Prop} {m₀ n₀ : Memory} {m n : Machine}

theorem apart_registerListing :
    Lockstep (Apart same m₀ n₀) Command.registerListing Command.registerListing :=
  Lockstep.get_bind fun m n h => by
    rw [h.registers]
    exact .ok _ h

theorem apart_command {command : Command} (hlocal : command.Local m₀.activePage) (host : Host) :
    Lockstep (Apart same m₀ n₀) (command.perform host) (command.perform host) := by
  cases command with
  | quit => exact .pure _
  | help => exact .pure _
  | showRegisters => exact apart_registerListing
  | setRegister name value => exact .bind (apart_setRegister name value) fun _ => apart_registerListing
  | execute line =>
    refine .bind (apart_exec line) fun outcome => ?_
    cases outcome with
    | proceed => exact apart_registerListing
    | exit code => exact .pure _
  | dump start stop =>
    refine Lockstep.get_bind fun m n h => ?_
    rw [h.memory.dump]
    exact Lockstep.bind (apart_ofMemory _) (fun _ => .pure _) m n h
  | fill start stop pattern => exact .bind (apart_onMemory (lockstep_fill _ _ _)) fun _ => .pure _
  | move start stop destination =>
    exact .bind (apart_onMemory (lockstep_move _ _ _)) fun _ => .pure _
  | search start pattern =>
    refine Lockstep.get_bind fun m n h => ?_
    rw [h.memory.search]
    exact Lockstep.bind (apart_ofMemory _) (fun _ => .pure _) m n h
  | compare start stop destination =>
    refine Lockstep.get_bind fun m n h => ?_
    rw [h.memory.compare]
    exact Lockstep.bind (apart_ofMemory _) (fun _ => .pure _) m n h
  | enter address text => exact .bind (apart_onMemory (lockstep_writeActive _ _)) fun _ => .pure _
  | selectPage page => exact hlocal.elim
  | load path base =>
    refine Lockstep.get_bind fun m n h => ?_
    rw [h.base]
    exact Lockstep.bind (apart_loadFile host path _) (fun _ => .pure _) m n h
  | trace on => exact .bind (apart_setTracing on) fun _ => .pure _
  | addBreakpoint location => exact .bind (apart_addBreakpoint location) fun _ => .pure _
  | removeBreakpoint location => exact .bind (apart_removeBreakpoint location) fun _ => .pure _
  | listBreakpoints =>
    refine Lockstep.get_bind fun m n h => ?_
    rw [h.debugger]
    exact .ok _ h
  | addWatch expr => exact .bind (apart_addWatch hlocal) fun _ => .pure _
  | removeWatch expr => exact .bind (apart_removeWatch expr) fun _ => .pure _
  | listWatches =>
    refine Lockstep.get_bind fun m n h => ?_
    rw [h.debugger]
    exact .ok _ h
  | step => exact .bind (stepRelation_apart same m₀ n₀).step fun _ => .pure _
  | run limit => exact .bind ((stepRelation_apart same m₀ n₀).run limit) fun _ => .pure _
  | listProgram =>
    refine Lockstep.get_bind fun m n h => ?_
    rw [listing_congr h.program]
    exact Lockstep.bind (.ofExcept _) (fun _ => .pure _) m n h
  | loadDisk =>
    refine Lockstep.bind (apart_onDisk _) fun _ => Lockstep.get_bind fun m n h => ?_
    rw [h.disk]
    exact .ok _ h
  | saveDisk =>
    refine Lockstep.bind (apart_onDisk _) fun _ => Lockstep.get_bind fun m n h => ?_
    rw [h.disk]
    exact .ok _ h
  | dumpDisk start stop =>
    refine Lockstep.get_bind fun m n h => ?_
    rw [h.disk]
    exact Lockstep.bind (apart_ofDisk _) (fun _ => .pure _) m n h
  | writeToDisk address first count =>
    exact .bind (apart_writeToDisk address first count) fun _ => .pure _
  | readFromDisk address first count =>
    exact .bind (apart_readFromDisk address first count) fun _ => .pure _

theorem apart_call {call : Call} (hlocal : call.Local m₀.activePage) :
    Lockstep (Apart same m₀ n₀) call.perform call.perform := by
  cases call with
  | exec line => exact (apart_exec line).map _
  | step => exact (stepRelation_apart same m₀ n₀).step.map _
  | run limit => exact ((stepRelation_apart same m₀ n₀).run limit).map _
  | load source base => exact (apart_load source base).map _
  | addBreakpoint location => exact (apart_addBreakpoint location).map _
  | removeBreakpoint location => exact (apart_removeBreakpoint location).map _
  | clearBreakpoints => exact (apart_setBreakpoints _).map _
  | addWatch expr => exact (apart_addWatch hlocal).map _
  | removeWatch expr => exact (apart_removeWatch expr).map _
  | clearWatches => exact (apart_setWatches fun _ hw => by cases hw).map _
  | listing =>
    refine Lockstep.get_bind fun m n h => ?_
    rw [listing_congr h.program]
    exact Lockstep.bind (.ofExcept _) (fun _ => .pure _) m n h

theorem DifferElsewhere.conclude (h : DifferElsewhere same m n) (output : CommandOutput) :
    m.conclude output = n.conclude output := by
  unfold Machine.conclude
  rw [h.status]

theorem Apart.dispatch (h : Apart same m₀ n₀ m n) (host : Host) {line : String}
    (hlocal : ∀ c, Command.ofLine? line = some c → c.Local m₀.activePage) :
    (m.dispatch host line).1 = (n.dispatch host line).1 ∧
      Apart same m₀ n₀ (m.dispatch host line).2 (n.dispatch host line).2 := by
  unfold Machine.dispatch
  split_ifs
  · exact ⟨rfl, h⟩
  · cases hc : Command.ofLine? line with
    | none => exact ⟨h.conclude _, h⟩
    | some c =>
      have hend := apart_command (hlocal c hc) host m n h
      dsimp only
      generalize c.perform host m = r at hend
      generalize c.perform host n = q at hend
      cases hend with
      | ok output hend => exact ⟨hend.conclude _, hend⟩
      | error e hend => exact ⟨hend.conclude _, hend⟩

theorem apart_perform {operation : Operation} (hlocal : operation.Local m₀.activePage) :
    Lockstep (Apart same m₀ n₀) operation.perform operation.perform := by
  cases operation with
  | dispatch host line =>
    intro m n h
    obtain ⟨houtput, hend⟩ := h.dispatch host hlocal
    change SameEnd _ (.ok (Answer.output (m.dispatch host line).1) _)
      (.ok (Answer.output (n.dispatch host line).1) _)
    rw [houtput]
    exact .ok _ hend
  | command host c => exact (apart_command hlocal host).map _
  | call c => exact (apart_call hlocal).map _

/-- What each of some operations has come to, with the machine after it. -/
def answers : List Operation → Machine → List (EStateM.Result Error Machine Answer)
  | [], _ => []
  | operation :: operations, m =>
    operation.perform m :: answers operations (after operation.perform m)

theorem Apart.operations {operations : List Operation}
    (hlocal : ∀ operation ∈ operations, operation.Local m₀.activePage) (h : Apart same m₀ n₀ m n) :
    List.Forall₂ (SameEnd (Apart same m₀ n₀)) (answers operations m) (answers operations n) ∧
      Apart same m₀ n₀ (afterOperations operations m) (afterOperations operations n) := by
  induction operations generalizing m n with
  | nil => exact ⟨.nil, h⟩
  | cons operation operations ih =>
    have hone := apart_perform (hlocal operation List.mem_cons_self) m n h
    have hrest := ih (fun o ho => hlocal o (List.mem_cons_of_mem _ ho)) hone.endState
    exact ⟨.cons hone hrest.1, hrest.2⟩

theorem DifferElsewhere.refl (same : Prop) (m : Machine) : m.DifferElsewhere same m :=
  ⟨⟨rfl, rfl, fun _ => rfl⟩, rfl, rfl, fun _ => rfl, rfl, rfl, rfl, rfl, fun _ => rfl, rfl, rfl,
    fun _ => rfl⟩

/-- A byte of another page makes such a difference. -/
theorem differElsewhere_write (m : Machine) {page : Nat} (hpage : page ≠ m.memory.activePage)
    (address : Nat) (value : UInt8) :
    m.DifferElsewhere same (m.withCore ⟨m.registers, m.memory.write page address value, m.console⟩) :=
  { DifferElsewhere.refl same m with
    memory := {
      pageCount := (Memory.pageCount_write ..).symm
      activePage := (Memory.activePage_write ..).symm
      bytes := fun _ => ((Memory.byte?_write ..).trans (if_neg fun h => hpage h.1.symm)).symm } }

/-- Other orders of labels are the other difference that there may be. -/
theorem DifferElsewhere.withLabelOrders (h : DifferElsewhere same m n) (orders : Nat → LabelOrder) :
    m.DifferElsewhere False { n with config := { n.config with labelOrders := orders } } :=
  { h with
    output := fun hseen => h.output (.inr (hseen.resolve_left id))
    lines := False.elim
    config := by
      change { m.config with labelOrders := orders } = { n.config with labelOrders := orders }
      rw [← h.config]
    labelOrders := False.elim }

/-- **Pages are isolated.** Operations that neither select a page nor watch another one leave every byte
of the other pages as it is, and machines that differ in these bytes alone come to the same answers and
errors, after each of which they differ in these bytes alone. So do machines that also go through labels in
different orders, but for the lines of trace: with several labels to a line, the orders decide on the one
that is shown. -/
theorem pages_isolated (m : Machine) (operations : List Operation)
    (hwatches : m.debugger.watches.Local m.memory.activePage)
    (hlocal : ∀ operation ∈ operations, operation.Local m.memory.activePage) :
    (∀ page address, page ≠ m.memory.activePage →
      (afterOperations operations m).memory.byte? page address = m.memory.byte? page address) ∧
    ∀ (same : Prop) (n : Machine), m.DifferElsewhere same n →
      List.Forall₂ (SameEnd (DifferElsewhere same)) (answers operations m) (answers operations n) := by
  have apart : ∀ {same : Prop} {n : Machine}, m.DifferElsewhere same n →
      Apart same m.memory n.memory m n := fun h =>
    { h with
      left := .refl _
      right := .refl _
      watches := h.debugger ▸ hwatches }
  refine ⟨fun page address hpage => ?_, fun same n h => ?_⟩
  · exact ((apart (.refl True m)).operations hlocal).2.left.bytes page address hpage
  · refine ((apart h).operations hlocal).1.imp fun r q hend => ?_
    exact hend.imp fun hapart => hapart.toDifferElsewhere

/-- Two machines that differ in a byte of the second page, and a third that goes through labels the other way
round, with a watch on the first page and a breakpoint in front of a line with two labels. -/
theorem pages_isolated_pages :
    let config := { Config.standard with
      pages := 2, labelOrders := fun _ => ⟨List.reverse, fun labels => labels.reverse_perm⟩ }
    let m : Machine :=
      { standard "" (.ofInput []) with core := ⟨.zero, .ofPages 2, .ofInput []⟩, config }
    let n := m.withCore ⟨m.registers, m.memory.write 1 5 0xFF, m.console⟩
    let other := { n with config := { n.config with labelOrders := fun _ => .latestFirst } }
    let operations : List Operation :=
      [.call (.addWatch "[0:FFFE]"), .call (.exec "PUSH AX"),
        .dispatch (fun _ => .error .notFound) "e 5 hi", .call (.load ["old:", "new:", "INC AX"] 0x100),
        .call (.addBreakpoint "100"), .call .step]
    m.debugger.watches.Local m.memory.activePage ∧
      (∀ operation ∈ operations, operation.Local m.memory.activePage) ∧
      (afterOperations operations m).memory.byte? 1 5 = m.memory.byte? 1 5 ∧
      m.DifferElsewhere True n ∧
      List.Forall₂ (SameEnd (DifferElsewhere True)) (answers operations m) (answers operations n) ∧
      m.DifferElsewhere False other ∧
      List.Forall₂ (SameEnd (DifferElsewhere False)) (answers operations m) (answers operations other) ∧
      (afterOperations operations n).trace.lines = #["[break] 0100 (OLD): INC AX"] ∧
      (afterOperations operations other).trace.lines = #["[break] 0100 (NEW): INC AX"] := by
  intro config m n other operations
  have hwatches : m.debugger.watches.Local m.memory.activePage := fun w hw => by cases hw
  have hlocal : ∀ operation ∈ operations, operation.Local m.memory.activePage := by
    have hexpr : WatchTarget.parse "[0:FFFE]" = .ok (.memory (some 0) 0xFFFE) := by rfl
    have hline : Command.ofLine? "e 5 hi" = some (.enter 5 "hi") := by decide +kernel
    refine List.forall_mem_cons.2 ⟨fun target h => ?_, List.forall_mem_cons.2 ⟨trivial,
      List.forall_mem_cons.2 ⟨fun c h => ?_, fun operation h => ?_⟩⟩⟩
    · obtain rfl := Except.ok.inj (hexpr.symm.trans h)
      rfl
    · obtain rfl := Option.some.inj (hline.symm.trans h)
      trivial
    · simp only [List.mem_cons, List.not_mem_nil, or_false] at h
      obtain rfl | rfl | rfl := h <;> trivial
  have hshown : (afterOperations operations n).trace.lines = #["[break] 0100 (OLD): INC AX"] := by
    decide +kernel
  have hother : (afterOperations operations other).trace.lines = #["[break] 0100 (NEW): INC AX"] := by
    decide +kernel
  have hdiffer : m.DifferElsewhere True n := differElsewhere_write m Nat.one_ne_zero 5 0xFF
  have hlabels : m.DifferElsewhere False other := hdiffer.withLabelOrders _
  obtain ⟨hframe, hanswers⟩ := pages_isolated m operations hwatches hlocal
  exact ⟨hwatches, hlocal, hframe 1 5 Nat.one_ne_zero, hdiffer, hanswers True n hdiffer, hlabels,
    hanswers False other hlabels, hshown, hother⟩

end Machine

end DosMonitor
