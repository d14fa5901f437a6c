import Mathlib
import DosMonitor.Machine.Debugging
import DosMonitor.Proofs.Lockstep

/-!
# Calls and runs

A run of the machine is a list of calls: lines of source to carry out, steps and runs of the loaded
program, loading another one, and edits of breakpoints and watches. `results` gives what each call of a
run has come to, with the machine after it, and `history` the steps and loads of a run in order, those
made inside a `Machine.run` included.

A property of history and machine that steps, edits of breakpoints and watches, lines and loads keep
holds at the end of any run (`history_induction`).
-/

namespace DosMonitor

/-- What may be asked of a machine. -/
inductive Call
  | exec (line : String)
  | step
  | run (limit : Option Nat)
  | load (source : List String) (base : UInt16)
  | addBreakpoint (location : String)
  | removeBreakpoint (location : String)
  | clearBreakpoints
  | addWatch (expr : String)
  | removeWatch (expr : String)
  | clearWatches
  | listing

/-- What a call answers. -/
inductive Reply
  | done
  | outcome (o : Outcome)
  | step (s : Step)
  | summary (s : RunSummary)
  | address (a : UInt16)
  | found (b : Bool)
  | lines (ls : List String)

open Machine in
def Call.perform : Call → MachineM Reply
  | .exec line => .outcome <$> Machine.exec line
  | .step => .step <$> Machine.step
  | .run limit => .summary <$> Machine.run limit
  | .load source base => (fun _ => .done) <$> Machine.load source base
  | .addBreakpoint location => .address <$> Machine.addBreakpoint location
  | .removeBreakpoint location => .found <$> Machine.removeBreakpoint location
  | .clearBreakpoints => (fun _ => .done) <$> Machine.clearBreakpoints
  | .addWatch expr => (fun _ => .done) <$> Machine.addWatch expr
  | .removeWatch expr => .found <$> Machine.removeWatch expr
  | .clearWatches => (fun _ => .done) <$> Machine.clearWatches
  | .listing => do return .lines (← ofExcept (← get).listing)

/-- A call that neither loads nor runs anything: it edits breakpoints or watches, or lists the program. -/
def Call.Edits : Call → Prop
  | .exec _ | .step | .run _ | .load _ _ => False
  | _ => True

/-- A call of the debugger that neither loads a program nor runs a line of its own. -/
def Call.Schedules : Call → Prop
  | .exec _ | .load _ _ => False
  | _ => True

namespace Machine

/-- The machine after an action, whether it has failed or not. -/
def after {α : Type} (action : MachineM α) (m : Machine) : Machine :=
  endState (action m)

/-- The machine after some calls. -/
def afterCalls (calls : List Call) (m : Machine) : Machine :=
  calls.foldl (fun m call => after call.perform m) m

/-- What each of some calls has come to, with the machine after it. -/
def results : List Call → Machine → List (EStateM.Result Error Machine Reply)
  | [], _ => []
  | call :: calls, m => call.perform m :: results calls (after call.perform m)

/-- The machines from which a run of at most `limit` lines takes its steps. -/
def stepsOfRun : (limit : Nat) → Machine → List Machine
  | 0, _ => []
  | limit + 1, m =>
    m :: match step m with
      | .ok (.executed _) m => stepsOfRun limit m
      | _ => []

end Machine

/-- What happens in a run, as far as the loaded program is concerned. -/
inductive Event
  | step (m : Machine)
  | load

namespace Machine

/-- The steps and loads of a call. -/
def events (m : Machine) : Call → List Event
  | .step => [.step m]
  | .run limit => (stepsOfRun (limit.getD m.config.maxSteps) m).map .step
  | .load _ _ => [.load]
  | _ => []

/-- The steps and loads of some calls, in order. -/
def history : List Call → Machine → List Event
  | [], _ => []
  | call :: calls, m => m.events call ++ history calls (after call.perform m)

/-- The machine of the standard shape, with nothing loaded. -/
def standard (home : String) (console : Console) : Machine where
  core := ⟨RegisterFile.zero, Memory.ofPages 1, console⟩
  disk := Disk.blank 512 "vdisk" home
  debugger := ⟨none, [], [], none, 0⟩
  trace := ⟨false, false, #[]⟩
  status := .running
  config := Config.standard

theorem create_standard (home : String) (console : Console) :
    create Config.standard home console = .ok (standard home console) := by
  have hpages : Config.standard.pages ≠ 0 := by decide
  have hactive : Memory.setActivePage Config.standard.activePage
      (Memory.ofPages Config.standard.pages) = .ok () (Memory.ofPages 1) :=
    dif_pos (Memory.ofPages 1).activePage_lt
  unfold create
  rw [if_neg hpages, hactive]
  rfl

/-- A machine is made of memory with the configured pages, and has nothing loaded. -/
theorem exists_memory_of_create {config : Config} {home : String} {console : Console} {m : Machine}
    (h : create config home console = .ok m) :
    config.pages ≠ 0 ∧ ∃ memory,
      Memory.setActivePage config.activePage (Memory.ofPages config.pages) = .ok () memory ∧
      m = {
        core := ⟨RegisterFile.zero, memory, console⟩
        disk := Disk.blank config.diskSize config.diskName (config.diskDirectory.getD home)
        debugger := ⟨none, [], [], none, 0⟩
        trace := ⟨config.trace, false, #[]⟩
        status := .running
        config } := by
  unfold create at h
  split_ifs at h with hpages
  split at h
  · cases h
  · rename_i memory hmemory
    exact ⟨hpages, memory, hmemory, (Except.ok.inj h).symm⟩

/-! ## What hangs on the program alone -/

section Congr
variable {m n : Machine}

theorem resolve_congr (h : m.debugger.program = n.debugger.program) (location : String) :
    m.resolve location = n.resolve location := by
  unfold resolve
  rw [h]

theorem listing_congr (h : m.debugger.program = n.debugger.program) : m.listing = n.listing := by
  unfold listing
  rw [h]

end Congr

/-! ## Runs step by step -/

theorem runFrom_succ (steps limit : Nat) (m : Machine) :
    runFrom steps (limit + 1) m =
      match step m with
      | .ok (.executed _) n => runFrom (steps + 1) limit n
      | .ok (.breakpoint address) n => .ok ⟨.breakpoint address, steps⟩ n
      | .ok .halted n => .ok ⟨.halted, steps⟩ n
      | .ok (.exited _ code) n => .ok ⟨.exited code, steps + 1⟩ n
      | .error e n => .error e n := by
  rw [runFrom]
  change EStateM.bind step _ m = _
  unfold EStateM.bind
  cases step m with
  | ok s n => cases s <;> rfl
  | error e n => rfl

theorem after_map {α β : Type} (f : α → β) (action : MachineM α) (m : Machine) :
    after (f <$> action) m = after action m := by
  change endState (EStateM.map f action m) = endState (action m)
  unfold EStateM.map
  cases action m <;> rfl

theorem after_get_bind {α : Type} (f : Machine → MachineM α) (m : Machine) :
    after (get >>= f) m = after (f m) m := rfl

theorem after_ofExcept_bind {α β : Type} (r : Except Error α) (f : α → MachineM β) (m : Machine) :
    after (ofExcept r >>= f) m =
      match r with
      | .ok a => after (f a) m
      | .error _ => m := by
  cases r <;> rfl

/-- The machine with other breakpoints and watches. -/
def edited (m : Machine) (breakpoints : Breakpoints) (watches : Watches) : Machine :=
  { m with debugger := { m.debugger with breakpoints, watches } }

theorem after_edit {call : Call} (h : call.Edits) (m : Machine) :
    ∃ breakpoints watches, after call.perform m = m.edited breakpoints watches := by
  cases call with
  | exec line => exact h.elim
  | step => exact h.elim
  | run limit => exact h.elim
  | load source base => exact h.elim
  | addBreakpoint location =>
    rw [Call.perform, after_map, addBreakpoint, after_get_bind, after_ofExcept_bind]
    cases m.resolve location with
    | error e => exact ⟨m.debugger.breakpoints, m.debugger.watches, rfl⟩
    | ok address => exact ⟨m.debugger.breakpoints.insert address, m.debugger.watches, rfl⟩
  | removeBreakpoint location =>
    rw [Call.perform, after_map, removeBreakpoint, after_get_bind, after_ofExcept_bind]
    cases m.resolve location with
    | error e => exact ⟨m.debugger.breakpoints, m.debugger.watches, rfl⟩
    | ok address => exact ⟨m.debugger.breakpoints.erase address, m.debugger.watches, rfl⟩
  | clearBreakpoints => exact ⟨[], m.debugger.watches, rfl⟩
  | addWatch expr =>
    rw [Call.perform, after_map, addWatch, after_get_bind, after_ofExcept_bind]
    cases m.debugger.watches.add expr with
    | error e => exact ⟨m.debugger.breakpoints, m.debugger.watches, rfl⟩
    | ok watches => exact ⟨m.debugger.breakpoints, watches, rfl⟩
  | removeWatch expr => exact ⟨m.debugger.breakpoints, m.debugger.watches.remove expr, rfl⟩
  | clearWatches => exact ⟨m.debugger.breakpoints, [], rfl⟩
  | listing =>
    rw [Call.perform, after_get_bind, after_ofExcept_bind]
    cases m.listing with
    | error e => exact ⟨m.debugger.breakpoints, m.debugger.watches, rfl⟩
    | ok lines => exact ⟨m.debugger.breakpoints, m.debugger.watches, rfl⟩

section Induction

/-- What holds of every step as a run of its own, and of a run that one more step comes before, holds of all
runs. The list has the machines that the steps start from. -/
theorem runFrom_chain {R : List Machine → Machine → Machine → Prop} (hnil : ∀ m, R [] m m)
    (hone : ∀ m, R [m] m (after step m))
    (hcons : ∀ m n k ms line, step m = .ok (.executed line) n → R [m] m n → R ms n k → R (m :: ms) m k)
    (steps limit : Nat) (m : Machine) :
    R (stepsOfRun limit m) m (after (runFrom steps limit) m) := by
  induction limit generalizing steps m with
  | zero => exact hnil m
  | succ limit ih =>
    have hfirst := hone m
    unfold after at hfirst ih ⊢
    rw [runFrom_succ, stepsOfRun]
    cases hs : step m with
    | ok s n =>
      rw [hs] at hfirst
      cases s with
      | executed line => exact hcons m n _ _ line hs hfirst (ih (steps + 1) n)
      | breakpoint address => exact hfirst
      | halted => exact hfirst
      | exited line code => exact hfirst
    | error e n =>
      rw [hs] at hfirst
      exact hfirst

variable {P : List Event → Machine → Prop}

/-- What every step keeps, a run of steps keeps. -/
theorem runFrom_induction (hstep : ∀ es m, P es m → P (es ++ [.step m]) (after step m))
    (steps limit : Nat) {es : List Event} {m : Machine} (h : P es m) :
    P (es ++ (stepsOfRun limit m).map .step) (after (runFrom steps limit) m) := by
  refine runFrom_chain (R := fun ms m n => ∀ es, P es m → P (es ++ ms.map .step) n) ?_ ?_ ?_
    steps limit m es h
  · intro m es h
    rwa [List.map_nil, List.append_nil]
  · exact fun m es h => hstep es m h
  · intro m n k ms line _ hfirst hrest es h
    have hall := hrest _ (hfirst es h)
    rwa [List.append_assoc, ← List.map_append] at hall

/-- What the steps of a run, its edits, its lines and its loads keep holds at the end of the run. -/
theorem history_induction {calls : List Call}
    (hstep : ∀ es m, P es m → P (es ++ [.step m]) (after step m))
    (hedit : ∀ es m breakpoints watches, P es m → P es (m.edited breakpoints watches))
    (hexec : ∀ es m line, .exec line ∈ calls → P es m → P es (after (exec line) m))
    (hload : ∀ es m source base, .load source base ∈ calls → P es m →
      P (es ++ [.load]) (after (load source base) m))
    {es : List Event} {m : Machine} (h : P es m) :
    P (es ++ history calls m) (afterCalls calls m) := by
  induction calls generalizing es m with
  | nil =>
    rw [history, List.append_nil]
    exact h
  | cons call calls ih =>
    have hcall : P (es ++ m.events call) (after call.perform m) := by
      have edit : call.Edits → P (es ++ []) (after call.perform m) := fun hc => by
        obtain ⟨breakpoints, watches, hafter⟩ := after_edit hc m
        rw [hafter, List.append_nil]
        exact hedit es m breakpoints watches h
      cases call with
      | exec line =>
        change P (es ++ []) _
        rw [Call.perform, after_map, List.append_nil]
        exact hexec es m line List.mem_cons_self h
      | step =>
        rw [Call.perform, after_map]
        exact hstep es m h
      | run limit =>
        rw [Call.perform, after_map]
        exact runFrom_induction hstep 0 _ h
      | load source base =>
        rw [Call.perform, after_map]
        exact hload es m source base List.mem_cons_self h
      | _ => exact edit trivial
    rw [history, ← List.append_assoc]
    exact ih (fun es m line hmem => hexec es m line (List.mem_cons_of_mem _ hmem))
      (fun es m source base hmem => hload es m source base (List.mem_cons_of_mem _ hmem)) hcall

end Induction

end Machine

end DosMonitor
