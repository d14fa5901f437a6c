import DosMonitor.Session.Session
import DosMonitor.Proofs.Accounts
import DosMonitor.Proofs.Grammar

/-!
# The course of a session

A session takes its input line by line, each as a command or for a program that asks for one, and ends with
a command: after `q`, after one by which a program has ended, or when no line is left.

What the host answers is given from outside, one host for each prompt. `Machine.rounds` lists the commands of
a session with the machines that carry them out. `Course` says how these account for the input, for the end
of the session and for its status. It is kept from one prompt to the next (`Machine.course_prompts`), and so
it holds of whole sessions (`Session.hold_course`), in which the answers come from files (`Session.hosts`).
-/

namespace DosMonitor

/-- A command line at a prompt, with the machine that has read it and the host that answers for it. -/
structure Round where
  host : Host
  machine : Machine
  line : String

namespace Round

def output (r : Round) : CommandOutput :=
  (r.machine.dispatch r.host r.line).1

def after (r : Round) : Machine :=
  (r.machine.dispatch r.host r.line).2

def invocations (r : Round) : List Invocation :=
  r.machine.lineInvocations r.line

/-- The lines of input that the instructions of the command take, each by service 0Ah. -/
def taken (r : Round) : List InputLine :=
  r.invocations.filterMap Invocation.taken?

/-- The codes with which these instructions end the program, each by service 4Ch. -/
def exitCodes (r : Round) : List UInt8 :=
  r.invocations.filterMap Invocation.exitCode?

/-- The lines of input that go to the command: its own and those that are taken. -/
def lines (r : Round) : List InputLine :=
  .text r.line :: r.taken

/-- The command is `q`, or a program has ended in it. -/
def Ends (r : Round) : Prop :=
  Command.word r.line = "q" ∨ r.exitCodes ≠ []

theorem accounts (r : Round) : Machine.Accounts r.invocations r.machine r.after :=
  Machine.accounts_dispatch r.host r.line r.machine

theorem quit_iff {r : Round} (hrunning : r.machine.status = .running) :
    r.output.quit = true ↔ r.Ends := by
  have hstatus : r.after.status = .ofCodes r.exitCodes := r.accounts.status hrunning
  unfold output
  rw [Machine.quit_dispatch_iff]
  change _ ∧ (_ ∨ ∃ code, r.after.status = .terminated code) ↔ _
  rw [hstatus]
  have hblank : r.exitCodes ≠ [] → Command.word r.line ≠ "" := by
    intro hcodes hword
    apply hcodes
    have hnone := Command.ofLine?_of_blank (Command.word_eq_empty_iff.1 hword)
    unfold exitCodes invocations Machine.lineInvocations
    rw [hnone]
    rfl
  have hterminated : (∃ code, Status.ofCodes r.exitCodes = .terminated code) ↔ r.exitCodes ≠ [] := by
    cases r.exitCodes <;> simp [Status.ofCodes]
  rw [hterminated, and_iff_right_of_imp]
  · rfl
  · rintro (hword | hcodes)
    · rw [hword]
      decide
    · exact hblank hcodes

end Round

/-! ## Prompts -/

namespace Machine

/-- The command line at the next prompt, if there is one. -/
def round? (host : Host) (m : Machine) : Option Round :=
  let m := m.withConsole (·.writeText prompt)
  match m.console.readLine with
  | (none, _) => none
  | (some line, console) => some ⟨host, m.withConsole fun _ => console, line⟩

/-- One prompt after the other, each with its host, until a command ends the session. -/
def prompts : (hosts : List Host) → Machine → Machine
  | [], m => m
  | host :: hosts, m =>
    if (m.promptOnce host).2 then prompts hosts (m.promptOnce host).1 else (m.promptOnce host).1

/-- The command lines of these prompts. -/
def rounds : (hosts : List Host) → Machine → List Round
  | [], _ => []
  | host :: hosts, m =>
    match m.round? host with
    | none => []
    | some r => r :: if (m.promptOnce host).2 then rounds hosts (m.promptOnce host).1 else []

/-- With no line left, the session ends and the machine stays as it is but for the prompt. -/
theorem promptOnce_of_nil {m : Machine} (host : Host) (h : m.console.input = []) :
    m.round? host = none ∧ (m.promptOnce host).2 = false ∧
      (m.promptOnce host).1.console.input = [] ∧ (m.promptOnce host).1.status = m.status := by
  have hread : (m.withConsole (·.writeText prompt)).console.readLine =
      (none, (m.withConsole (·.writeText prompt)).console) := by
    unfold Console.readLine
    rw [show (m.withConsole (·.writeText prompt)).console.input = [] from h]
  unfold round? promptOnce
  dsimp only
  rw [hread]
  exact ⟨rfl, rfl, h, rfl⟩

theorem promptOnce_of_cons {m : Machine} (host : Host) {line : String} {rest : List InputLine}
    (h : m.console.input = .text line :: rest) :
    ∃ r, m.round? host = some r ∧ r.line = line ∧ r.machine.console.input = rest ∧
      r.machine.status = m.status ∧ (m.promptOnce host).2 = !r.output.quit ∧
      (m.promptOnce host).1.console.input = r.after.console.input ∧
      (m.promptOnce host).1.status = r.after.status := by
  have hread : (m.withConsole (·.writeText prompt)).console.readLine =
      (some line, { (m.withConsole (·.writeText prompt)).console with input := rest }) := by
    unfold Console.readLine
    rw [show (m.withConsole (·.writeText prompt)).console.input = .text line :: rest from h]
    rfl
  unfold round? promptOnce
  dsimp only
  rw [hread]
  exact ⟨_, rfl, rfl, rfl, rfl, rfl, Console.input_foldl_writeLine _ _, rfl⟩

end Machine

/-! ## Courses -/

/-- How commands account for the input of a session that leaves this machine. -/
structure Course (input : List InputLine) (rounds : List Round) (last : Machine) : Prop where
  /-- The lines are used in order, each once, for a command or by one of its instructions. -/
  input : input = rounds.flatMap Round.lines ++ last.console.input
  /-- Nothing comes after a command that ends the session. -/
  stops : ∀ before r after, rounds = before ++ r :: after → r.Ends → after = []
  /-- Without such a command no line is left. -/
  goesOn : (∀ r ∈ rounds, ¬r.Ends) → last.console.input = []
  /-- The machine is terminated with the code of the program that has ended, if one has. -/
  status : last.status = .ofCodes (rounds.flatMap Round.exitCodes)
  /-- One program has ended at most. -/
  once : (rounds.flatMap Round.exitCodes).length ≤ 1

namespace Course

variable {input : List InputLine} {rounds : List Round} {last : Machine} {r : Round}

theorem nil (hstatus : last.status = .running) (hinput : last.console.input = []) :
    Course [] [] last where
  input := hinput.symm
  stops before r after h := by simp at h
  goesOn _ := hinput
  status := hstatus
  once := Nat.zero_le 1

theorem ended (hrunning : r.machine.status = .running) (hends : r.Ends)
    (hinput : last.console.input = r.after.console.input) (hstatus : last.status = r.after.status) :
    Course (.text r.line :: r.machine.console.input) [r] last where
  input := by
    rw [hinput, r.accounts.input]
    simp [Round.lines, Round.taken]
  stops before r' after h _ := by
    cases before with
    | nil => exact (List.cons.inj h).2.symm
    | cons _ before => simp at h
  goesOn h := absurd hends (h r List.mem_cons_self)
  status := by
    rw [hstatus, r.accounts.status hrunning]
    simp [Round.exitCodes]
  once := by
    simpa [Round.exitCodes] using r.accounts.once

theorem cons (hgoes : ¬r.Ends) (h : Course r.after.console.input rounds last) :
    Course (.text r.line :: r.machine.console.input) (r :: rounds) last where
  input := by
    rw [r.accounts.input, h.input]
    simp [Round.lines, Round.taken]
  stops before r' after hrounds hends := by
    cases before with
    | nil =>
      obtain ⟨rfl, -⟩ := List.cons.inj hrounds
      exact absurd hends hgoes
    | cons _ before => exact h.stops before r' after (List.cons.inj hrounds).2 hends
  goesOn hnone := h.goesOn fun r' hr' => hnone r' (List.mem_cons_of_mem r hr')
  status := by
    have hcodes : r.exitCodes = [] := by
      by_contra hcodes
      exact hgoes (.inr hcodes)
    rw [h.status, List.flatMap_cons, hcodes, List.nil_append]
  once := by
    have hcodes : r.exitCodes = [] := by
      by_contra hcodes
      exact hgoes (.inr hcodes)
    rw [List.flatMap_cons, hcodes, List.nil_append]
    exact h.once

end Course

namespace Machine

/-- What is left of input that is text is text, and not more. -/
theorem exists_texts {texts : List String} {taken left : List InputLine}
    (h : texts.map InputLine.text = taken ++ left) :
    ∃ more : List String, left = more.map .text ∧ more.length ≤ texts.length := by
  refine ⟨texts.drop taken.length, ?_, by simp⟩
  rw [List.map_drop, h, List.drop_left]

/-- One prompt for each line, and one that finds none, make a course, whatever the hosts answer. -/
theorem course_prompts (hosts : List Host) (texts : List String) (m : Machine)
    (hinput : m.console.input = texts.map .text) (hrunning : m.status = .running)
    (hlength : texts.length < hosts.length) :
    Course m.console.input (m.rounds hosts) (m.prompts hosts) := by
  induction hosts generalizing texts m with
  | nil => exact absurd hlength (Nat.not_lt_zero _)
  | cons host hosts ih =>
    rw [rounds, prompts]
    cases texts with
    | nil =>
      obtain ⟨hround, hgoesOn, hleft, hstatus⟩ := promptOnce_of_nil host hinput
      rw [hround, hgoesOn, show m.console.input = [] from hinput]
      exact .nil (hstatus.trans hrunning) hleft
    | cons text texts =>
      obtain ⟨r, hround, rfl, hrest, hsame, hgoesOn, hleft, hstatus⟩ := promptOnce_of_cons host hinput
      have hstart : r.machine.status = .running := hsame.trans hrunning
      have hline : m.console.input = .text r.line :: r.machine.console.input := by
        rw [hrest]
        exact hinput
      rw [hline, hround, hgoesOn]
      by_cases hends : r.Ends
      · rw [(Round.quit_iff hstart).2 hends]
        exact .ended hstart hends hleft hstatus
      · have hquit : r.output.quit = false := by
          rw [← Bool.not_eq_true, Round.quit_iff hstart]
          exact hends
        rw [hquit]
        -- the next prompt finds a machine that runs, with what the command has left of the input
        have hcodes : r.exitCodes = [] := by
          by_contra hcodes
          exact hends (.inr hcodes)
        have hnext : (m.promptOnce host).1.status = .running := by
          rw [hstatus, r.accounts.status hstart]
          change Status.ofCodes r.exitCodes = _
          rw [hcodes]
          rfl
        have hused := r.accounts.input
        rw [hrest] at hused
        obtain ⟨more, hmore, hcount⟩ := exists_texts hused
        rw [List.length_cons, List.length_cons] at hlength
        have hcourse := ih more (m.promptOnce host).1 (hleft.trans hmore) hnext (by omega)
        rw [hleft] at hcourse
        exact hcourse.cons hends

/-! ## Whole sessions -/

theorem create_ok {config : Config} {home : String} {console : Console} {m : Machine}
    (h : create config home console = .ok m) : m.console = console ∧ m.status = .running := by
  obtain ⟨-, _, -, rfl⟩ := exists_memory_of_create h
  exact ⟨rfl, rfl⟩

theorem quiet_loadAtStart (host : Host) (path : String) (m : Machine) :
    Quiet m (m.loadAtStart host path).1 := by
  have hquiet := (encloses_quiet.toEnclosesPlain.loadFile host path m.config.base).single m
  unfold loadAtStart
  cases hload : loadFile host path m.config.base m with
  | ok count n =>
    rw [hload] at hquiet
    exact hquiet
  | error e n =>
    rw [hload] at hquiet
    exact hquiet

/-- The machine at the first prompt, with the program that the options name, if the host has it. -/
def atFirstPrompt (o : Options) (host : Host) (m : Machine) : Machine :=
  match o.program with
  | none => m
  | some path => (m.loadAtStart host path).1

theorem quiet_atFirstPrompt (o : Options) (host : Host) (m : Machine) :
    Quiet m (m.atFirstPrompt o host) := by
  unfold atFirstPrompt
  cases o.program with
  | none => exact ⟨rfl, id⟩
  | some path => exact quiet_loadAtStart host path m

/-- At the first prompt no line has been taken and no program has ended. -/
theorem atFirstPrompt_ok {o : Options} {home : String} {input : List InputLine} {m : Machine}
    (h : ofOptions o home (.ofInput input) = .ok m) (host : Host) :
    (m.atFirstPrompt o host).console.input = input ∧ (m.atFirstPrompt o host).status = .running := by
  obtain ⟨made, hcreate, hecho⟩ := Source.bind_eq_ok_iff.1 h
  obtain ⟨hconsole, hstatus⟩ := create_ok hcreate
  obtain rfl := Except.ok.inj hecho
  obtain ⟨hinput, hrunning⟩ := quiet_atFirstPrompt o host { made with trace := { made.trace with echo := true } }
  refine ⟨hinput.trans ?_, hrunning hstatus⟩
  change made.console.input = input
  rw [hconsole]
  rfl

theorem exitStatus_ofCodes {m : Machine} {codes : List UInt8} (h : m.status = .ofCodes codes) :
    m.exitStatus = codes.head?.getD 0 := by
  unfold exitStatus
  rw [h]
  cases codes <;> rfl

end Machine

namespace Session

/-- What the host answers to the next command. -/
def reply (s : Session) : FileReply :=
  match s.machine.pendingRequest? with
  | some request => (s.files.answer request).1
  | none => .error .notFound

/-- What the files answer at each of so many prompts. -/
def hosts : (limit : Nat) → Session → List Host
  | 0, _ => []
  | limit + 1, s => (fun _ => s.reply) :: hosts limit s.step.1

theorem length_hosts (limit : Nat) (s : Session) : (s.hosts limit).length = limit := by
  induction limit generalizing s with
  | zero => rfl
  | succ limit ih => rw [hosts, List.length_cons, ih]

theorem machine_writeLog (s : Session) : s.writeLog.machine = s.machine := by
  unfold writeLog
  split <;> rfl

theorem step_eq (s : Session) :
    s.step.2 = (s.machine.promptOnce fun _ => s.reply).2 ∧
      s.step.1.machine = (s.machine.promptOnce fun _ => s.reply).1 := by
  unfold step reply
  cases s.machine.pendingRequest? with
  | none => exact ⟨rfl, machine_writeLog _⟩
  | some request =>
    dsimp only
    exact ⟨rfl, machine_writeLog _⟩

/-- A session is its machine at one prompt after the other, with the answers of its files. -/
theorem machine_prompts (limit : Nat) (s : Session) :
    (s.prompts limit).machine = s.machine.prompts (s.hosts limit) := by
  induction limit generalizing s with
  | zero => rfl
  | succ limit ih =>
    obtain ⟨hgoesOn, hmachine⟩ := s.step_eq
    rw [hosts, Machine.prompts, ← hgoesOn, ← hmachine, ← ih, prompts]
    rcases s.step with ⟨s', _ | _⟩ <;> rfl

theorem machine_openLog (name : Option String) (fresh : String) (s : Session) :
    (openLog name fresh s).machine = s.machine := by
  unfold openLog
  cases name with
  | none => rfl
  | some name =>
    dsimp only
    split <;> rfl

/-- A session begins with a machine at its first prompt, for which the files are the host. -/
theorem start_ok {o : Options} {home fresh : String} {input : List InputLine} {files : FileTree}
    {s : Session} (h : start o home fresh input files = .ok s) :
    ∃ host m, Machine.ofOptions o home (.ofInput input) = .ok m ∧ s.machine = m.atFirstPrompt o host := by
  obtain ⟨m, hm, hs⟩ := Source.bind_eq_ok_iff.1 h
  obtain rfl := Except.ok.inj hs
  unfold loadProgram Machine.atFirstPrompt
  cases o.program with
  | none => exact ⟨fun _ => .error .notFound, m, hm, machine_openLog ..⟩
  | some path =>
    refine ⟨fun _ => (openLog o.traceLog fresh ⟨m, files, none⟩).files.read path, m, hm, ?_⟩
    dsimp only
    rw [machine_openLog]

/-- **The course of a session.** A command ends the session exactly if its word is not empty and is `q` or
the machine is terminated after it. In every session whose machine can be made, whatever the host answers, on
input that is text: the lines are used in order, each once, as a command or by one call of service 0Ah; the
session stops after the first command that is `q` or in which service 4Ch has run, or else with the input;
and its exit status is the low byte of AX at that service, or 0 if it has not run. So it is for a command
line that asks for a session, where the answers are those of the files. -/
theorem hold_course :
    (∀ (host : Host) (line : String) (m : Machine), (m.dispatch host line).1.quit = true ↔
      Command.word line ≠ "" ∧
        (Command.word line = "q" ∨ ∃ code, (m.dispatch host line).2.status = .terminated code)) ∧
    (∀ (o : Options) (home : String) (host : Host) (hosts : List Host) (texts : List String)
      (made : Machine),
      Machine.ofOptions o home (.ofInput (texts.map .text)) = .ok made → texts.length < hosts.length →
      let m := made.atFirstPrompt o host
      Course (texts.map .text) (m.rounds hosts) (m.prompts hosts) ∧
        (m.prompts hosts).exitStatus = ((m.rounds hosts).flatMap Round.exitCodes).head?.getD 0) ∧
    ∀ (args : List String) (home fresh : String) (input : List UInt8) (files : FileTree) (o : Options)
      (s : Session) (texts : List String),
      CommandLine.read [] Options.standard args = .session o →
      start o home fresh (InputLine.ofInput input) files = .ok s →
      InputLine.ofInput input = texts.map .text →
      let rounds := s.machine.rounds (s.hosts (texts.length + 1))
      Course (InputLine.ofInput input) rounds (s.prompts (texts.length + 1)).machine ∧
        (hold args home fresh input files).exitStatus =
          (rounds.flatMap Round.exitCodes).head?.getD 0 := by
  have hany : ∀ (o : Options) (home : String) (host : Host) (hosts : List Host) (texts : List String)
      (made : Machine),
      Machine.ofOptions o home (.ofInput (texts.map .text)) = .ok made → texts.length < hosts.length →
      let m := made.atFirstPrompt o host
      Course (texts.map .text) (m.rounds hosts) (m.prompts hosts) := by
    intro o home host hosts texts made hmade hlength m
    obtain ⟨hinput, hrunning⟩ := Machine.atFirstPrompt_ok hmade host
    exact hinput ▸ Machine.course_prompts hosts texts m hinput hrunning hlength
  refine ⟨Machine.quit_dispatch_iff, fun o home host hosts texts made hmade hlength => ?_, ?_⟩
  · have hcourse := hany o home host hosts texts made hmade hlength
    exact ⟨hcourse, Machine.exitStatus_ofCodes hcourse.status⟩
  intro args home fresh input files o s texts hargs hstart htexts rounds
  obtain ⟨host, made, hmade, hmachine⟩ := start_ok hstart
  rw [htexts] at hmade
  have hcourse := hany o home host (s.hosts (texts.length + 1)) texts made hmade
    (by rw [length_hosts]; exact Nat.lt_succ_self _)
  dsimp only at hcourse
  rw [← hmachine, ← machine_prompts] at hcourse
  refine ⟨htexts ▸ hcourse, ?_⟩
  rw [← Machine.exitStatus_ofCodes hcourse.status]
  unfold hold
  rw [hargs]
  dsimp only
  rw [hstart]
  dsimp only
  rw [htexts, List.length_map]

/-- Input of which a program takes a line before it ends with 7. -/
def exitTexts : List String :=
  ["p mov ax, 0x0a00", "p int 33", "text", "p mov ax, 0x4c07", "p int 33", "d"]

/-- The session on this input, at its beginning. -/
def exitSession : Session where
  machine := { Machine.standard "" (.ofInput (exitTexts.map .text)) with trace := ⟨false, true, #[]⟩ }
  files := .empty
  log := none

theorem hold_course_exit :
    let input := exitTexts.flatMap fun text => Text.bytes (text ++ "\n")
    let rounds := exitSession.machine.rounds (exitSession.hosts (exitTexts.length + 1))
    let hosts : List Host := List.replicate 7 fun _ => .error (.other "denied")
    Machine.ofOptions Options.standard "" (.ofInput (exitTexts.map .text)) = .ok exitSession.machine ∧
      exitTexts.length < hosts.length ∧
      Course (exitTexts.map .text) (exitSession.machine.rounds hosts) (exitSession.machine.prompts hosts) ∧
      (exitSession.machine.prompts hosts).exitStatus = 7 ∧
      CommandLine.read [] Options.standard [] = .session Options.standard ∧
      start Options.standard "" "" (InputLine.ofInput input) .empty = .ok exitSession ∧
      InputLine.ofInput input = exitTexts.map .text ∧
      Course (InputLine.ofInput input) rounds (exitSession.prompts (exitTexts.length + 1)).machine ∧
      rounds.map (fun r => (r.line, r.taken, r.exitCodes)) =
        [("p mov ax, 0x0a00", [], []), ("p int 33", [.text "text"], []), ("p mov ax, 0x4c07", [], []),
          ("p int 33", [], [7])] ∧
      (hold [] "" "" input .empty).exitStatus = 7 := by
  intro input rounds hosts
  have hmade : Machine.ofOptions Options.standard "" (.ofInput (exitTexts.map .text)) =
      .ok exitSession.machine := by
    unfold Machine.ofOptions
    rw [show Options.standard.config = Config.standard from rfl, Machine.create_standard]
    rfl
  have hread : CommandLine.read [] Options.standard [] = .session Options.standard := by
    rw [CommandLine.read]
  have htexts : InputLine.ofInput input = exitTexts.map .text := by decide +kernel
  have hstart : start Options.standard "" "" (InputLine.ofInput input) .empty = .ok exitSession := by
    rw [htexts, start, hmade]
    rfl
  have hcodes : ∀ rounds : List Round, rounds.map (fun r => (r.line, r.taken, r.exitCodes)) =
      [("p mov ax, 0x0a00", [], []), ("p int 33", [.text "text"], []), ("p mov ax, 0x4c07", [], []),
        ("p int 33", [], [7])] → rounds.flatMap Round.exitCodes = [7] := by
    intro rounds hrounds
    have hmap : rounds.flatMap Round.exitCodes =
        (rounds.map fun r => (r.line, r.taken, r.exitCodes)).flatMap fun shown => shown.2.2 := by
      rw [List.flatMap_map]
    rw [hmap, hrounds]
    rfl
  have hlength : exitTexts.length < hosts.length := by decide
  obtain ⟨-, hany, hheld⟩ := hold_course
  obtain ⟨hcourse, hstatus⟩ := hany Options.standard "" (fun _ => .error (.other "denied")) hosts exitTexts
    exitSession.machine hmade hlength
  obtain ⟨hcourse', hstatus'⟩ :=
    hheld [] "" "" input .empty Options.standard exitSession exitTexts hread hstart htexts
  have hrounds : rounds.map (fun r => (r.line, r.taken, r.exitCodes)) =
      [("p mov ax, 0x0a00", [], []), ("p int 33", [.text "text"], []), ("p mov ax, 0x4c07", [], []),
        ("p int 33", [], [7])] := by
    decide +kernel
  refine ⟨hmade, hlength, hcourse, hstatus.trans ?_, hread, hstart, htexts, hcourse', hrounds,
    hstatus'.trans ?_⟩
  · have hcodes' := hcodes (exitSession.machine.rounds hosts) (by decide +kernel)
    exact congrArg (fun codes : List UInt8 => codes.head?.getD 0) hcodes'
  · exact congrArg (fun codes : List UInt8 => codes.head?.getD 0) (hcodes rounds hrounds)

end Session

end DosMonitor
