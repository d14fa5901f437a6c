import Mathlib
import DosMonitor.Proofs.Scheduling

/-!
# Stopping at breakpoints

A line with a breakpoint does not run before the breakpoint has been reported, and once it has been, it
runs with the next step. This hangs on the resume marker: it has to be right while breakpoints come and
go, lines fail, programs end and are loaded anew.

The invariant (`Marked`) ties the marker to the history of a run. A marker stands for a report that was
the last thing to happen, unless no line is left, where it no longer matters; and after a report the
marker stands at the program counter.

* Safety: what `Marked` says of the last event holds of every event of a history (`Guarded`).
* Progress: a fresh program runs up to its first breakpoint (`Reached.runFrom`).
-/

namespace DosMonitor.Machine

/-- The line that runs next has a breakpoint. -/
def AtBreakpoint (m : Machine) : Prop :=
  ∃ p, m.debugger.program = some p ∧ p.address p.pc ∈ m.debugger.breakpoints

/-- The last thing to happen was the report of a breakpoint in front of this line. -/
def LastReported (es : List Event) (pc : Nat) : Prop :=
  ∃ c, es.getLast? = some (.step c) ∧ c.breaks = true ∧ c.pc? = some pc

/-- The resume marker is the one of the history. -/
structure Marked (es : List Event) (m : Machine) : Prop where
  of_resume : ∀ k, m.debugger.resume = some k → LastReported es k ∨ m.nextLine? = none
  of_report : ∀ k, LastReported es k →
    ∃ p, m.debugger.program = some p ∧ p.pc = k ∧ m.debugger.resume = some k

variable {es : List Event} {m n : Machine}

theorem marked_nil (h : m.debugger.resume = none) : Marked [] m where
  of_resume k hk := by rw [h] at hk; cases hk
  of_report k hk := by obtain ⟨c, hc, -⟩ := hk; cases hc

/-- Only program and marker count. -/
theorem Marked.congr (h : Marked es m) (hprogram : n.debugger.program = m.debugger.program)
    (hresume : n.debugger.resume = m.debugger.resume) : Marked es n where
  of_resume k hk := by
    rw [nextLine?, hprogram]
    exact h.of_resume k (hresume.symm.trans hk)
  of_report k hk := by
    rw [hprogram, hresume]
    exact h.of_report k hk

/-- After an event that is not a report there has to be no marker, unless no line is left. -/
theorem marked_concat {e : Event} (he : ∀ c, e = .step c → c.breaks = false)
    (h : ∀ k, n.debugger.resume = some k → n.nextLine? = none) : Marked (es ++ [e]) n where
  of_resume k hk := .inr (h k hk)
  of_report k hk := by
    obtain ⟨c, hc, hbreaks, -⟩ := hk
    rw [List.getLast?_concat] at hc
    rw [he c (Option.some.inj hc)] at hbreaks
    cases hbreaks

/-! ## What a step does to the marker -/

theorem stops_of_breaks (h : m.breaks = true) :
    ∃ p, m.debugger.program = some p ∧ m.stops p = true := by
  cases hm : m.attempted? with
  | none =>
    rcases (pause hm).2 with ⟨hbreaks, -⟩ | ⟨p, -, hp, hstop, -⟩
    · rw [hbreaks] at h
      cases h
    · exact ⟨p, hp, hstop⟩
  | some line =>
    rw [(attempt hm).1] at h
    cases h

theorem resume_ne_of_stops {p : Program} (h : m.stops p = true) : m.debugger.resume ≠ some p.pc := by
  unfold stops at h
  simpa using (Bool.and_eq_true_iff.1 h).2

theorem resume_eq_of_not_stops {p : Program} (h : m.stops p = false)
    (hmem : p.address p.pc ∈ m.debugger.breakpoints) : m.debugger.resume = some p.pc := by
  unfold stops at h
  simpa [hmem] using h

theorem marked_step (es : List Event) (m : Machine) : Marked (es ++ [.step m]) (after step m) := by
  cases hm : m.attempted? with
  | none =>
    rcases (pause hm).2 with ⟨hbreaks, hline, hafter⟩ | ⟨p, hbreaks, hp, -, hafter⟩
    · rw [hafter]
      exact marked_concat (fun c hc => by cases hc; exact hbreaks) fun _ _ => hline
    · have hlast : LastReported (es ++ [.step m]) p.pc :=
        ⟨m, List.getLast?_concat, hbreaks, by rw [pc?, hp]; rfl⟩
      rw [hafter]
      refine ⟨fun k hk => ?_, fun k hk => ?_⟩
      · obtain rfl : p.pc = k := Option.some.inj hk
        exact .inl hlast
      · obtain ⟨c, hc, -, hpc⟩ := hk
        rw [List.getLast?_concat] at hc
        cases hc
        rw [pc?, hp] at hpc
        obtain rfl : p.pc = k := Option.some.inj hpc
        exact ⟨p, by simp [reported, movedTo, hp], rfl, rfl⟩
  | some line =>
    obtain ⟨hbreaks, p, n, hp, -, -, hn, hafter⟩ := attempt hm
    have hresume : (after step m).debugger.resume = none := by
      rw [hafter]
      cases m.exits
      · rw [hn]
        exact (exec_setup line _).resume
      · rfl
    refine marked_concat (fun c hc => by cases hc; exact hbreaks) fun k hk => ?_
    rw [hresume] at hk
    cases hk

/-! ## Safety -/

/-- In a history, no line with a breakpoint is attempted unless the breakpoint has just been reported,
and none is reported twice in a row. -/
structure Guarded (es : List Event) : Prop where
  reported : ∀ (pre : List Event) (b : Machine), pre ++ [.step b] <+: es → b.attempted?.isSome →
    b.AtBreakpoint → ∃ c, pre.getLast? = some (.step c) ∧ c.breaks = true ∧ c.pc? = b.pc?
  once : ∀ (pre : List Event) (c b : Machine), pre ++ [.step b] <+: es →
    pre.getLast? = some (.step c) → c.breaks = true → b.breaks = false

theorem guarded_nil : Guarded [] where
  reported pre b h := by simp at h
  once pre c b h := by simp at h

theorem Guarded.load (h : Guarded es) : Guarded (es ++ [.load]) where
  reported pre b hpre := by
    rcases List.prefix_concat_iff.1 hpre with heq | hpre
    · exact absurd (List.append_inj_right' heq rfl) (by simp)
    · exact h.reported pre b hpre
  once pre c b hpre := by
    rcases List.prefix_concat_iff.1 hpre with heq | hpre
    · exact absurd (List.append_inj_right' heq rfl) (by simp)
    · exact h.once pre c b hpre

theorem Guarded.step (h : Guarded es) (hm : Marked es m) : Guarded (es ++ [.step m]) where
  reported pre b hpre hattempt hbreakpoint := by
    rcases List.prefix_concat_iff.1 hpre with heq | hpre
    · obtain ⟨rfl, hb⟩ := List.append_inj' heq rfl
      cases hb
      obtain ⟨line, hline⟩ := Option.isSome_iff_exists.1 hattempt
      obtain ⟨-, p, n, hp, hstop, hget, -⟩ := attempt hline
      obtain ⟨q, hq, hmem⟩ := hbreakpoint
      obtain rfl : p = q := Option.some.inj (hp.symm.trans hq)
      rcases hm.of_resume _ (resume_eq_of_not_stops hstop hmem) with ⟨c, hc, hbreaks, hpc⟩ | hnone
      · exact ⟨c, hc, hbreaks, by rw [hpc, pc?, hp]; rfl⟩
      · rw [nextLine?, hp] at hnone
        exact absurd (hnone.symm.trans hget) (by simp)
    · exact h.reported pre b hpre hattempt hbreakpoint
  once pre c b hpre hlast hbreaks := by
    rcases List.prefix_concat_iff.1 hpre with heq | hpre
    · obtain ⟨rfl, hb⟩ := List.append_inj' heq rfl
      cases hb
      obtain ⟨q, hq, -⟩ := stops_of_breaks hbreaks
      obtain ⟨p, hp, hpc, hresume⟩ := hm.of_report q.pc ⟨c, hlast, hbreaks, by rw [pc?, hq]; rfl⟩
      by_contra hne
      obtain ⟨p', hp', hstop⟩ := stops_of_breaks (Bool.eq_true_of_not_eq_false hne)
      obtain rfl : p = p' := Option.some.inj (hp.symm.trans hp')
      rw [← hpc] at hresume
      exact resume_ne_of_stops hstop hresume
    · exact h.once pre c b hpre hlast hbreaks

theorem guarded_history (h : m.debugger.resume = none) (calls : List Call) :
    Guarded (history calls m) := by
  have hboth : Guarded ([] ++ history calls m) ∧
      Marked ([] ++ history calls m) (afterCalls calls m) := history_induction
    (P := fun es m => Guarded es ∧ Marked es m)
    (fun es m h => ⟨h.1.step h.2, marked_step es m⟩)
    (fun es m breakpoints watches h => ⟨h.1, h.2.congr rfl rfl⟩)
    (fun es m line _ h =>
      ⟨h.1, h.2.congr (exec_setup line m).program (exec_setup line m).resume⟩)
    (fun es m source base _ h =>
      ⟨h.1.load, marked_concat (fun c hc => by cases hc) fun k hk => by cases hk⟩)
    ⟨guarded_nil, marked_nil h⟩
  exact hboth.1

/-! ## Progress -/

/-- The line runs without an error and does not end the program. -/
def proceeds (line : String) (m : Machine) : Bool :=
  match exec line m with
  | .ok .proceed _ => true
  | _ => false

theorem exec_of_proceeds {line : String} (h : proceeds line m = true) :
    ∃ n, exec line m = .ok .proceed n := by
  unfold proceeds at h
  split at h
  · exact ⟨_, ‹_›⟩
  · cases h

/-- A program, loaded at `start`, has come to its line `k` without a stop. -/
structure Reached (p : Program) (bps : Breakpoints) (start : Machine) (k : Nat) (m : Machine) :
    Prop where
  program : m.debugger.program = some { p with pc := k }
  breakpoints : m.debugger.breakpoints = bps
  resume : m.debugger.resume = none
  agree : Agree start.trace.echo m (feed (p.lines.toList.take k) start)

variable {p : Program} {bps : Breakpoints} {start : Machine} {k i : Nat}

theorem Reached.stops (h : Reached p bps start k m) :
    m.stops { p with pc := k } = bps.contains (p.address k) := by
  unfold Machine.stops
  rw [h.breakpoints, h.resume]
  exact Bool.and_true _

theorem Reached.stop (h : Reached p bps start k m) (hmem : p.address k ∈ bps) :
    ∃ reports, step m =
      .ok (.breakpoint (p.address k)) ((m.movedTo k (some k)).reported reports) := by
  refine ⟨[breakText m.labelOrder { p with pc := k } k], ?_⟩
  rw [step_eq, h.program]
  dsimp only
  rw [h.stops, if_pos (by simpa using hmem)]
  rfl

theorem Reached.proceed (h : Reached p bps start k m) (hmem : p.address k ∉ bps) {line : String}
    (hline : p.lines[k]? = some line)
    (hproceeds : proceeds line (feed (p.lines.toList.take k) start) = true) :
    ∃ n, step m = .ok (.executed line) n ∧ Reached p bps start (k + 1) n := by
  obtain ⟨n', hexec⟩ := exec_of_proceeds hproceeds
  have hagree := exec_agree start.trace.echo line _ _ (h.agree.withDebugger
    (m.movedTo (k + 1) none).debugger)
  rw [hexec] at hagree
  obtain ⟨n, hn, hagree⟩ := hagree.exists_ok
  change exec line (m.movedTo (k + 1) none) = _ at hn
  have hsetup := exec_setup line (m.movedTo (k + 1) none)
  rw [hn] at hsetup
  refine ⟨n, ?_, ?_, ?_, hsetup.resume, ?_⟩
  · rw [step_eq, h.program]
    dsimp only
    rw [h.stops, if_neg (by simpa using hmem), hline]
    dsimp only
    rw [hn]
  · refine hsetup.program.trans ?_
    simp [movedTo, h.program]
  · exact hsetup.breakpoints.trans h.breakpoints
  · rw [List.take_add_one, Array.getElem?_toList, hline, Option.toList_some, feed_concat]
    unfold after
    rw [hexec]
    exact hagree

theorem Reached.runFrom (hi : i ≤ p.lines.size) (hmem : p.address i ∈ bps)
    (hbefore : ∀ j < i, p.address j ∉ bps)
    (hproceeds : ∀ j < i, ∀ line, p.lines[j]? = some line →
      proceeds line (feed (p.lines.toList.take j) start) = true) {limit : Nat} (hk : k ≤ i)
    (hlimit : i < k + limit) (h : Reached p bps start k m) :
    ∃ n, runFrom k limit m = .ok ⟨.breakpoint (p.address i), i⟩ n ∧ n.pc? = some i ∧
      Agree start.trace.echo n (feed (p.lines.toList.take i) start) ∧
      attempts ((stepsOfRun limit m).map .step) = (p.lines.toList.take i).drop k := by
  induction limit generalizing k m with
  | zero => omega
  | succ limit ih =>
    rw [runFrom_succ, stepsOfRun, List.map_cons, ← List.singleton_append, attempts_append,
      attempts_step]
    rcases Nat.eq_or_lt_of_le hk with rfl | hlt
    · obtain ⟨reports, hstep⟩ := h.stop hmem
      have hattempted : m.attempted? = none := by
        unfold attempted?
        rw [hstep]
      refine ⟨(m.movedTo k (some k)).reported reports, by rw [hstep], ?_,
        (h.agree.withDebugger _).reported reports, ?_⟩
      · simp [pc?, reported, movedTo, h.program]
      · rw [hstep, hattempted, List.drop_take, Nat.sub_self]
        rfl
    · have hline : p.lines[k]? = some p.lines[k] := Array.getElem?_eq_getElem (by omega)
      obtain ⟨n, hstep, hn⟩ := h.proceed (hbefore k hlt) hline (hproceeds k hlt _ hline)
      obtain ⟨n', hrun, hpc, hagree, hattempts⟩ := ih hlt (by omega) hn
      have hattempted : m.attempted? = some p.lines[k] := by
        unfold attempted?
        rw [hstep]
      refine ⟨n', by rw [hstep]; exact hrun, hpc, hagree, ?_⟩
      rw [hstep, hattempted]
      change [p.lines[k]] ++ attempts _ = _
      have hk' : k < (p.lines.toList.take i).length := by
        rw [List.length_take, Array.length_toList]
        omega
      rw [hattempts, List.drop_eq_getElem_cons hk', List.getElem_take, Array.getElem_toList]
      rfl

theorem reached_load (m : Machine) (source : List String) (base : UInt16) :
    Reached (Program.ofSource source base) m.debugger.breakpoints (after (load source base) m) 0
      (after (load source base) m) where
  program := by
    show some (Program.ofSource source base) = some { Program.ofSource source base with pc := 0 }
    rw [← Program.pc_ofSource source base]
  breakpoints := rfl
  resume := rfl
  agree := Agree.refl _

/-- **Breakpoints hold.** In any run that starts without a stop behind it:

* a line with a breakpoint is attempted only if the report of this breakpoint was the last step, with no
  load since;
* of two steps in a row, with no load between them, at most one reports a breakpoint;
* a program that has just been loaded, on any machine, runs up to its first line with a breakpoint (or
  to the place behind its last line) if the lines before it proceed and the limit leaves room for them.
  It stops there with as many steps, and that line has not run. -/
theorem breakpoints_hold (m : Machine) (hm : m.debugger.resume = none) (calls : List Call) :
    (∀ (pre : List Event) (b : Machine), pre ++ [.step b] <+: history calls m →
      b.attempted?.isSome → b.AtBreakpoint →
      ∃ c, pre.getLast? = some (.step c) ∧ c.breaks = true ∧ c.pc? = b.pc?) ∧
    (∀ (pre : List Event) (c b : Machine), pre ++ [.step b] <+: history calls m →
      pre.getLast? = some (.step c) → ¬(c.breaks = true ∧ b.breaks = true)) ∧
    ∀ (n : Machine) (source : List String) (base : UInt16) (limit : Option Nat) (i : Nat),
      let p := Program.ofSource source base
      let start := after (load source base) n
      i ≤ p.lines.size → i < limit.getD n.config.maxSteps →
      p.address i ∈ n.debugger.breakpoints → (∀ j < i, p.address j ∉ n.debugger.breakpoints) →
      (∀ j < i, ∀ line, p.lines[j]? = some line →
        proceeds line (feed (p.lines.toList.take j) start) = true) →
      ∃ n', run limit start = .ok ⟨.breakpoint (p.address i), i⟩ n' ∧ n'.pc? = some i ∧
        Agree n.trace.echo n' (feed (p.lines.toList.take i) start) ∧
        attempts (events start (.run limit)) = p.lines.toList.take i := by
  have hguarded := guarded_history hm calls
  refine ⟨hguarded.reported, fun pre c b hpre hlast hboth => ?_, ?_⟩
  · obtain ⟨hc, hb⟩ := hboth
    rw [hguarded.once pre c b hpre hlast hc] at hb
    cases hb
  · intro n source base limit i p start hi hlimit hmem hbefore hproceeds
    exact Reached.runFrom hi hmem hbefore hproceeds (Nat.zero_le i) (by rwa [Nat.zero_add])
      (reached_load n source base)

theorem breakpoints_hold_standard :
    let m := after (addBreakpoint "0x101") (standard "" (.ofInput []))
    let source := ["MOV AX, 1", "two: ; label", "MOV BX, 2"]
    let start := after (load source 0x100) m
    let reported := after (run (some 9)) start
    m.debugger.resume = none ∧
      (∃ c, (Event.load :: (stepsOfRun 9 start).map .step).getLast? = some (.step c) ∧
        c.breaks = true ∧ c.pc? = reported.pc?) ∧
      ∃ n, run (some 9) start = .ok ⟨.breakpoint 0x101, 1⟩ n ∧ n.pc? = some 1 := by
  intro m source start reported
  have hold := breakpoints_hold m rfl [.load source 0x100, .run (some 9), .step]
  have hhistory : history [.load source 0x100, .run (some 9), .step] m =
      Event.load :: (stepsOfRun 9 start).map .step ++ [.step reported] := by
    simp only [history, events, Call.perform, after_map, List.cons_append,
      List.nil_append, List.append_nil, Option.getD_some, start, reported]
  refine ⟨rfl, ?_, ?_⟩
  · refine hold.1 (Event.load :: (stepsOfRun 9 start).map .step) reported ?_ ?_ ?_
    · rw [hhistory]
    · decide +kernel
    · exact ⟨{ Program.ofSource source 0x100 with pc := 1 }, by decide +kernel, by decide +kernel⟩
  · have hbefore : ∀ j < 1, (Program.ofSource source 0x100).address j ∉ m.debugger.breakpoints := by
      decide +kernel
    have hproceeds : ∀ j < 1, ∀ line, (Program.ofSource source 0x100).lines[j]? = some line →
        proceeds line (feed ((Program.ofSource source 0x100).lines.toList.take j) start) = true := by
      intro j hj line hline
      obtain rfl : j = 0 := by omega
      obtain rfl : "MOV AX, 1" = line := Option.some.inj hline
      decide +kernel
    obtain ⟨n, hrun, hpc, -⟩ := hold.2.2 m source 0x100 (some 9) 1 (by decide +kernel)
      (by decide) (by decide +kernel) hbefore hproceeds
    exact ⟨n, hrun, hpc⟩

end DosMonitor.Machine
