import Mathlib
import DosMonitor.Proofs.Agreement
import DosMonitor.Proofs.Step

/-!
# Tracing changes nothing

Two machines that differ in their trace alone, and in the values that watches have seen last, are told
apart by no call: `alike_perform` takes the calls one by one, and `results_traced` says it of every run,
once with tracing on and once with tracing off.

A step looks at program, breakpoints and the resume marker, which `Alike` keeps equal, and then runs a
line, which does the same on agreeing machines (`stepRelation_alike`).
-/

namespace DosMonitor.Machine

/-- Two machines that agree and have the same program, which is the last of as many loaded, breakpoints,
resume marker and watched expressions. -/
structure Alike (echo : Bool) (m n : Machine) : Prop extends Agree echo m n where
  program : m.debugger.program = n.debugger.program
  loads : m.debugger.loads = n.debugger.loads
  breakpoints : m.debugger.breakpoints = n.debugger.breakpoints
  resume : m.debugger.resume = n.debugger.resume
  watches : m.debugger.watches.subjects = n.debugger.watches.subjects

variable {echo : Bool} {m n : Machine}

/-! ## A step -/

theorem Alike.exec (echo : Bool) (line : String) :
    Lockstep (Alike echo) (exec line) (exec line) := by
  intro m n h
  have hm := exec_setup line m
  have hn := exec_setup line n
  refine (exec_agree echo line m n h.toAgree).imp fun h' => ?_
  exact { h' with
    program := hm.program.trans (h.program.trans hn.program.symm)
    loads := hm.loads.trans (h.loads.trans hn.loads.symm)
    breakpoints := hm.breakpoints.trans (h.breakpoints.trans hn.breakpoints.symm)
    resume := hm.resume.trans (h.resume.trans hn.resume.symm)
    watches := hm.watches.trans (h.watches.trans hn.watches.symm) }

theorem Alike.movedTo (h : Alike echo m n) (pc : Nat) (resume : Option Nat) :
    Alike echo (m.movedTo pc resume) (n.movedTo pc resume) :=
  { h with
    program := by simp only [Machine.movedTo, h.program]
    resume := rfl }

theorem Alike.reported (h : Alike echo m n) (rs qs : List String) :
    Alike echo (m.reported rs) (n.reported qs) :=
  { ((h.toAgree.reported rs).symm.reported qs).symm with
    program := h.program
    loads := h.loads
    breakpoints := h.breakpoints
    resume := h.resume
    watches := h.watches }

theorem Alike.stops (h : Alike echo m n) (p : Program) : m.stops p = n.stops p := by
  unfold Machine.stops
  rw [h.breakpoints, h.resume]

theorem stepRelation_alike (echo : Bool) : StepRelation (Alike echo) where
  program h := h.program
  stops h p := h.stops p
  maxSteps h := congrArg Config.maxSteps h.config
  movedTo h := h.movedTo
  breakAt h _ _ := h.reported _ _
  exec := Alike.exec echo

/-! ## The other calls -/

theorem Alike.load (echo : Bool) (source : List String) (base : UInt16) :
    Lockstep (Alike echo) (load source base) (load source base) :=
  fun _ _ h => .ok () { h with
    program := rfl
    loads := congrArg (· + 1) h.loads
    resume := rfl
    status := rfl }

theorem Alike.setBreakpoints (echo : Bool) (f : Breakpoints → Breakpoints) :
    Lockstep (Alike echo) (setDebugger fun d => { d with breakpoints := f d.breakpoints })
      (setDebugger fun d => { d with breakpoints := f d.breakpoints }) :=
  fun _ _ h => .ok () { h with breakpoints := congrArg f h.breakpoints }

theorem Alike.addBreakpoint (echo : Bool) (location : String) :
    Lockstep (Alike echo) (addBreakpoint location) (addBreakpoint location) := by
  refine Lockstep.get_bind fun m n h => ?_
  rw [resolve_congr h.program]
  exact Lockstep.bind (Lockstep.ofExcept _)
    (fun _ => Lockstep.bind (Alike.setBreakpoints echo _) fun _ => Lockstep.pure _) m n h

theorem Alike.removeBreakpoint (echo : Bool) (location : String) :
    Lockstep (Alike echo) (removeBreakpoint location) (removeBreakpoint location) := by
  refine Lockstep.get_bind fun m n h => ?_
  rw [resolve_congr h.program, h.breakpoints]
  exact Lockstep.bind (Lockstep.ofExcept _)
    (fun _ => Lockstep.bind (Alike.setBreakpoints echo _) fun _ => Lockstep.pure _) m n h

theorem subjects_add {ws vs : Watches} (h : ws.subjects = vs.subjects) (expr : String) :
    (ws.add expr).map Watches.subjects = (vs.add expr).map Watches.subjects := by
  have hany : ∀ key, ws.any (·.expr == key) = vs.any (·.expr == key) := fun key => by
    have hfst : ∀ us : Watches, us.any (·.expr == key) = us.subjects.any (·.1 == key) := fun us => by
      simp only [Watches.subjects, List.any_map]
      rfl
    rw [hfst, hfst, h]
  unfold Watches.add
  cases WatchTarget.parse expr with
  | error e => rfl
  | ok target =>
    simp only [bind, Except.bind, pure, Except.pure, Except.map, hany]
    split_ifs
    · rw [h]
    · have happend : ∀ us : Watches, ∀ w, Watches.subjects (us ++ [w]) = us.subjects ++ [w.subject] :=
        fun us w => List.map_append
      rw [happend, happend, h]

theorem subjects_remove {ws vs : Watches} (h : ws.subjects = vs.subjects) (expr : String) :
    (ws.remove expr).subjects = (vs.remove expr).subjects := by
  have hfilter : ∀ us : Watches, (us.remove expr).subjects =
      us.subjects.filter (·.1 != String.ofList (WatchTarget.canonical expr.toList)) := fun us => by
    simp only [Watches.subjects, Watches.remove, List.filter_map]
    rfl
  rw [hfilter, hfilter, h]

theorem length_subjects (ws : Watches) : ws.subjects.length = ws.length :=
  List.length_map _

theorem Alike.setWatches (h : Alike echo m n) {ws vs : Watches} (hws : ws.subjects = vs.subjects) :
    Alike echo (m.withWatches ws) (n.withWatches vs) :=
  { h with watches := hws }

theorem Alike.addWatch (echo : Bool) (expr : String) :
    Lockstep (Alike echo) (addWatch expr) (addWatch expr) := by
  refine Lockstep.get_bind fun m n h => ?_
  have hadd := subjects_add h.watches expr
  generalize m.debugger.watches.add expr = r at hadd
  generalize n.debugger.watches.add expr = q at hadd
  rcases r with e | ws <;> rcases q with e' | vs
  · cases hadd
    exact .error e h
  · cases hadd
  · cases hadd
  · exact .ok () (h.setWatches (Except.ok.inj hadd))

theorem Alike.removeWatch (echo : Bool) (expr : String) :
    Lockstep (Alike echo) (removeWatch expr) (removeWatch expr) := by
  refine Lockstep.get_bind fun m n h => ?_
  have hremove := subjects_remove h.watches expr
  have hbefore := congrArg List.length h.watches
  have hafter := congrArg List.length hremove
  simp only [length_subjects] at hbefore hafter
  change SameEnd _ (.ok _ _) (.ok _ _)
  rw [hbefore, hafter]
  exact .ok _ (h.setWatches hremove)

theorem Alike.clearWatches (echo : Bool) : Lockstep (Alike echo) clearWatches clearWatches :=
  fun _ _ h => .ok () (h.setWatches rfl)

/-! ## Runs -/

theorem alike_perform (echo : Bool) (call : Call) :
    Lockstep (Alike echo) call.perform call.perform := by
  cases call with
  | exec line => exact (Alike.exec echo line).map _
  | step => exact (stepRelation_alike echo).step.map _
  | run limit => exact ((stepRelation_alike echo).run limit).map _
  | load source base => exact (Alike.load echo source base).map _
  | addBreakpoint location => exact (Alike.addBreakpoint echo location).map _
  | removeBreakpoint location => exact (Alike.removeBreakpoint echo location).map _
  | clearBreakpoints => exact (Alike.setBreakpoints echo fun _ => []).map _
  | addWatch expr => exact (Alike.addWatch echo expr).map _
  | removeWatch expr => exact (Alike.removeWatch echo expr).map _
  | clearWatches => exact (Alike.clearWatches echo).map _
  | listing =>
    refine Lockstep.get_bind fun m n h => ?_
    rw [listing_congr h.program]
    exact Lockstep.bind (Lockstep.ofExcept _) (fun _ => Lockstep.pure _) m n h

theorem alike_results (calls : List Call) (h : Alike echo m n) :
    List.Forall₂ (SameEnd (Alike echo)) (results calls m) (results calls n) := by
  induction calls generalizing m n with
  | nil => exact .nil
  | cons call calls ih =>
    have hcall := alike_perform echo call m n h
    exact .cons hcall (ih hcall.endState)

theorem alike_setTracing (m : Machine) (on off : Bool) :
    Alike m.trace.echo (after (setTracing on) m) (after (setTracing off) m) :=
  { Agree.refl m with program := rfl, loads := rfl, breakpoints := rfl, resume := rfl, watches := rfl }

/-- **Tracing changes nothing.** From any machine, any calls come to the same replies and errors with
tracing on as with tracing off, and after each of them the two machines are `Alike`: only the lines put
out and the values that watches have seen last may differ. -/
theorem results_traced (m : Machine) (calls : List Call) :
    List.Forall₂ (SameEnd (Alike m.trace.echo)) (results calls (after (setTracing true) m))
      (results calls (after (setTracing false) m)) :=
  alike_results calls (alike_setTracing m true false)

end DosMonitor.Machine
