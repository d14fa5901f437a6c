import Mathlib
import DosMonitor.Proofs.Call
import DosMonitor.Proofs.Observation

/-!
# One step of the debugger

`step_eq` says what a step does as one equation: it stops in front of a breakpoint that it has not
reported yet, or runs the line at the program counter, which has moved on before. `Stepped` lists the
six ways in which a step can end. A relation between machines that lines keep is kept by steps and
runs (`StepRelation`).

To the program two of them matter: a step attempts a line (`attempt`) or leaves everything but the
resume marker alone (`pause`).
-/

namespace DosMonitor

namespace Program

/-- What holds of a program without lines, and stays with each line that is added, holds of the program of
a source. -/
theorem ofSource_induction {P : Program → Prop} {base : UInt16} (hempty : P (empty base))
    (hadd : ∀ p line, P p → P (p.addLine line)) (source : List String) : P (ofSource source base) := by
  have hfold : ∀ p, P p → P (source.foldl (fun p line => p.addLine line.toList) p) := by
    induction source with
    | nil => exact fun p h => h
    | cons line source ih => exact fun p h => ih _ (hadd p line.toList h)
  exact hfold _ hempty

theorem pc_base_addLine (p : Program) (line : List Char) :
    (p.addLine line).pc = p.pc ∧ (p.addLine line).base = p.base := by
  unfold addLine
  split
  · exact ⟨rfl, rfl⟩
  · dsimp only
    split_ifs <;> exact ⟨rfl, rfl⟩

theorem pc_ofSource (source : List String) (base : UInt16) : (ofSource source base).pc = 0 :=
  ofSource_induction (P := fun p => p.pc = 0) rfl
    (fun p line h => (p.pc_base_addLine line).1.trans h) source

theorem base_ofSource (source : List String) (base : UInt16) : (ofSource source base).base = base :=
  ofSource_induction (P := fun p => p.base = base) rfl
    (fun p line h => (p.pc_base_addLine line).2.trans h) source

end Program

namespace Machine

/-- The machine with its program at another line. -/
def movedTo (m : Machine) (pc : Nat) (resume : Option Nat) : Machine :=
  { m with
    debugger := { m.debugger with program := m.debugger.program.map ({ · with pc }), resume } }

/-- A step stops here: there is a breakpoint which the last step has not reported. -/
def stops (m : Machine) (p : Program) : Bool :=
  m.debugger.breakpoints.contains (p.address p.pc) && m.debugger.resume != some p.pc

theorem setPosition_eq (pc : Nat) (resume : Option Nat) (m : Machine) :
    setPosition pc resume m = .ok () (m.movedTo pc resume) := rfl

theorem step_eq (m : Machine) :
    step m =
      match m.debugger.program with
      | none => .error .noProgram m
      | some p =>
        if m.stops p then
          .ok (.breakpoint (p.address p.pc))
            ((m.movedTo p.pc (some p.pc)).reported [breakText m.labelOrder p p.pc])
        else
          match p.lines[p.pc]? with
          | none => .ok .halted m
          | some line =>
            match exec line (m.movedTo (p.pc + 1) none) with
            | .ok .proceed n => .ok (.executed line) n
            | .ok (.exit code) n => .ok (.exited line code) (n.movedTo p.lines.size none)
            | .error e n => .error e n := by
  simp only [step, bind, EStateM.bind, get, getThe, MonadStateOf.get, EStateM.get]
  cases hp : m.debugger.program with
  | none => rfl
  | some p =>
    dsimp only
    by_cases hstop : m.stops p = true
    · rw [if_pos hstop]
      unfold stops at hstop
      simp only [if_pos hstop, setPosition_eq, emit_eq, EStateM.bind]
      rfl
    · rw [if_neg hstop]
      unfold stops at hstop
      simp only [if_neg hstop]
      cases hl : p.lines[p.pc]? with
      | none => rfl
      | some line =>
        simp only [setPosition_eq, EStateM.bind]
        cases exec line (m.movedTo (p.pc + 1) none) with
        | ok outcome n => cases outcome <;> rfl
        | error e n => rfl

/-- The ways in which a step from `m` can end. -/
inductive Stepped (m : Machine) : EStateM.Result Error Machine Step → Prop
  | noProgram (hp : m.debugger.program = none) : Stepped m (.error .noProgram m)
  | breakpoint {p : Program} (hp : m.debugger.program = some p) (hstop : m.stops p = true) :
      Stepped m (.ok (.breakpoint (p.address p.pc))
        ((m.movedTo p.pc (some p.pc)).reported [breakText m.labelOrder p p.pc]))
  | halted {p : Program} (hp : m.debugger.program = some p) (hstop : m.stops p = false)
      (hline : p.lines[p.pc]? = none) : Stepped m (.ok .halted m)
  | executed {p : Program} {line : String} {n : Machine} (hp : m.debugger.program = some p)
      (hstop : m.stops p = false) (hline : p.lines[p.pc]? = some line)
      (hexec : exec line (m.movedTo (p.pc + 1) none) = .ok .proceed n) :
      Stepped m (.ok (.executed line) n)
  | exited {p : Program} {line : String} {code : UInt8} {n : Machine}
      (hp : m.debugger.program = some p) (hstop : m.stops p = false)
      (hline : p.lines[p.pc]? = some line)
      (hexec : exec line (m.movedTo (p.pc + 1) none) = .ok (.exit code) n) :
      Stepped m (.ok (.exited line code) (n.movedTo p.lines.size none))
  | failed {p : Program} {line : String} {e : Error} {n : Machine}
      (hp : m.debugger.program = some p) (hstop : m.stops p = false)
      (hline : p.lines[p.pc]? = some line)
      (hexec : exec line (m.movedTo (p.pc + 1) none) = .error e n) : Stepped m (.error e n)

theorem stepped (m : Machine) : Stepped m (step m) := by
  rw [step_eq]
  cases hp : m.debugger.program with
  | none => exact .noProgram hp
  | some p =>
    dsimp only
    by_cases hstop : m.stops p = true
    · rw [if_pos hstop]
      exact .breakpoint hp hstop
    · rw [if_neg hstop]
      rw [Bool.not_eq_true] at hstop
      cases hline : p.lines[p.pc]? with
      | none => exact .halted hp hstop hline
      | some line =>
        dsimp only
        cases hexec : exec line (m.movedTo (p.pc + 1) none) with
        | ok outcome n =>
          cases outcome with
          | proceed => exact .executed hp hstop hline hexec
          | exit code => exact .exited hp hstop hline hexec
        | error e n => exact .failed hp hstop hline hexec

/-! ## Steps in lockstep -/

/-- Related machines are at the same place of the same program, stop at the same lines and stay related when
they move, report a breakpoint or run a line. -/
structure StepRelation (R : Machine → Machine → Prop) : Prop where
  program : ∀ {m n}, R m n → m.debugger.program = n.debugger.program
  stops : ∀ {m n}, R m n → ∀ p, m.stops p = n.stops p
  maxSteps : ∀ {m n}, R m n → m.config.maxSteps = n.config.maxSteps
  movedTo : ∀ {m n}, R m n → ∀ pc resume, R (m.movedTo pc resume) (n.movedTo pc resume)
  breakAt : ∀ {m n}, R m n → ∀ p line,
    R (m.reported [breakText m.labelOrder p line]) (n.reported [breakText n.labelOrder p line])
  exec : ∀ line, Lockstep R (exec line) (exec line)

section StepRelation
variable {R : Machine → Machine → Prop}

theorem StepRelation.step (hR : StepRelation R) : Lockstep R step step := by
  intro m n h
  rw [step_eq, step_eq, hR.program h]
  cases n.debugger.program with
  | none => exact .error _ h
  | some p =>
    dsimp only
    rw [hR.stops h p]
    split_ifs
    · exact .ok _ (hR.breakAt (hR.movedTo h _ _) p p.pc)
    · cases p.lines[p.pc]? with
      | none => exact .ok _ h
      | some line =>
        dsimp only
        have hline := hR.exec line _ _ (hR.movedTo h (p.pc + 1) none)
        generalize Machine.exec line (m.movedTo (p.pc + 1) none) = r at hline
        generalize Machine.exec line (n.movedTo (p.pc + 1) none) = q at hline
        cases hline with
        | ok outcome h' =>
          cases outcome with
          | proceed => exact .ok _ h'
          | exit code => exact .ok _ (hR.movedTo h' _ _)
        | error e h' => exact .error e h'

theorem StepRelation.runFrom (hR : StepRelation R) (steps limit : Nat) :
    Lockstep R (runFrom steps limit) (runFrom steps limit) := by
  induction limit generalizing steps with
  | zero => exact Lockstep.pure _
  | succ limit ih =>
    refine Lockstep.bind hR.step fun s => ?_
    cases s with
    | executed line => exact ih _
    | breakpoint address => exact Lockstep.pure _
    | halted => exact Lockstep.pure _
    | exited line code => exact Lockstep.pure _

theorem StepRelation.run (hR : StepRelation R) (limit : Option Nat) :
    Lockstep R (run limit) (run limit) := by
  refine Lockstep.get_bind fun m n h => ?_
  rw [hR.maxSteps h]
  exact hR.runFrom _ _ m n h

end StepRelation

/-! ## Attempts and pauses -/

def pc? (m : Machine) : Option Nat :=
  m.debugger.program.map (·.pc)

def nextLine? (m : Machine) : Option String :=
  m.debugger.program.bind fun p => p.lines[p.pc]?

/-- The line that a step runs from here, to its end or to an error. -/
def attempted? (m : Machine) : Option String :=
  match step m with
  | .ok (.executed line) _ => some line
  | .ok (.exited line _) _ => some line
  | .error _ _ => m.nextLine?
  | _ => none

/-- A step from here ends the program. -/
def exits (m : Machine) : Bool :=
  match step m with
  | .ok (.exited _ _) _ => true
  | _ => false

/-- A step from here reports a breakpoint. -/
def breaks (m : Machine) : Bool :=
  match step m with
  | .ok (.breakpoint _) _ => true
  | _ => false

theorem attempt {m : Machine} {line : String} (h : m.attempted? = some line) :
    m.breaks = false ∧
      ∃ p n, m.debugger.program = some p ∧ m.stops p = false ∧ p.lines[p.pc]? = some line ∧
        n = after (exec line) (m.movedTo (p.pc + 1) none) ∧
        after step m = if m.exits then n.movedTo p.lines.size none else n := by
  have hstepped := stepped m
  unfold attempted? at h
  unfold exits breaks after
  cases hr : step m with
  | ok s n =>
    rw [hr] at h hstepped
    cases hstepped with
    | executed hp hstop hline hexec =>
      obtain rfl := Option.some.inj h
      exact ⟨rfl, _, n, hp, hstop, hline, by rw [hexec]; rfl, rfl⟩
    | exited hp hstop hline hexec =>
      obtain rfl := Option.some.inj h
      exact ⟨rfl, _, _, hp, hstop, hline, by rw [hexec]; rfl, rfl⟩
    | _ => cases h
  | error e n =>
    rw [hr] at h hstepped
    cases hstepped with
    | noProgram hp =>
      simp only [nextLine?, hp] at h
      cases h
    | failed hp hstop hline hexec =>
      simp only [nextLine?, hp] at h
      obtain rfl := Option.some.inj (hline.symm.trans h)
      exact ⟨rfl, _, n, hp, hstop, hline, by rw [hexec]; rfl, rfl⟩

theorem pause {m : Machine} (h : m.attempted? = none) :
    m.exits = false ∧
      (m.breaks = false ∧ m.nextLine? = none ∧ after step m = m ∨
        ∃ p, m.breaks = true ∧ m.debugger.program = some p ∧ m.stops p = true ∧
          after step m = (m.movedTo p.pc (some p.pc)).reported [breakText m.labelOrder p p.pc]) := by
  have hstepped := stepped m
  unfold attempted? at h
  unfold exits breaks after
  cases hr : step m with
  | ok s n =>
    rw [hr] at h hstepped
    cases hstepped with
    | breakpoint hp hstop => exact ⟨rfl, .inr ⟨_, rfl, hp, hstop, rfl⟩⟩
    | halted hp hstop hline => exact ⟨rfl, .inl ⟨rfl, by rw [nextLine?, hp]; exact hline, rfl⟩⟩
    | executed hp hstop hline hexec => cases h
    | exited hp hstop hline hexec => cases h
  | error e n =>
    rw [hr] at h hstepped
    cases hstepped with
    | noProgram hp => exact ⟨rfl, .inl ⟨rfl, h, rfl⟩⟩
    | failed hp hstop hline hexec =>
      simp only [nextLine?, hp] at h
      exact absurd (hline.symm.trans h) (by simp)

end Machine

namespace Event

/-- The line that is attempted, if any is. -/
def attempted? : Event → Option String
  | step m => m.attempted?
  | load => none

/-- The program ends here. -/
def exits : Event → Bool
  | step m => m.exits
  | load => false

end Event

end DosMonitor
