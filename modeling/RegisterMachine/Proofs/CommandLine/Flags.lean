import RegisterMachine.CommandLine
import RegisterMachine.Proofs.Machine.Independence
import RegisterMachine.Proofs.Machine.Sources
import RegisterMachine.Proofs.Session.Scripts

/-!
# Flags of a script

A command that names a script takes one course, whatever flags it has. The flags add to what is
shown, each in its own place: the listing in front of all that the run shows, and the trace behind
it. The exit status tells whether the script was loaded and has completed.
-/

namespace RegisterMachine

/-! ## Runs of the same course -/

namespace Session

section
variable (outcome : Option (Except Crash RunResult))

/-! What follows a run does not look at the trace in its result. -/

theorem verdict_untraced :
    verdict (outcome.map (Except.map RunResult.untraced)) = verdict outcome := by
  rcases outcome with _ | _ | _ <;> rfl

theorem complaint_untraced :
    complaint (outcome.map (Except.map RunResult.untraced)) = complaint outcome := by
  rcases outcome with _ | _ | _ <;> rfl

end

end Session

namespace Machine

/-- Two runs leave the same state and have shown the same, and what is told about them is the same
too. So are the trace reports if both machines are traced or neither is. -/
structure SameCourse (a b : Machine) (ran ran' : Option (Except Crash RunResult) × Machine) :
    Prop where
  verdict : Session.verdict ran.1 = Session.verdict ran'.1
  complaint : Session.complaint ran.1 = Session.complaint ran'.1
  report : a.tracing = b.tracing →
    Session.reportAfter ran.2 ran.1 = Session.reportAfter ran'.2 ran'.1
  cpu : ran.2.cpu = ran'.2.cpu
  world : World.Agree a.console.shown b.console.shown ran.2.toWorld ran'.2.toWorld

theorem Lockstep.reportAfter_eq {start start' a b : Machine} (h : Lockstep start start' a b)
    (ht : start.tracing = start'.tracing) (outcome : Option (Except Crash RunResult)) :
    Session.reportAfter a outcome = Session.reportAfter b outcome := by
  have hr : a.traceReport = b.traceReport := by
    simp only [traceReport, stateLines, h.trace_eq ht, h.cpu_eq, h.world.memory_eq]
  rcases outcome with _ | _ | _
  · rfl
  · rfl
  · exact hr

theorem SameStart.sameCourse {a b : Machine} (h : SameStart a b) {program : Program} {cpu : Cpu}
    (hp : a.program = some program) (hc : a.cpu = some cpu) (hl : a.limit = b.limit)
    (budget : Nat) : SameCourse a b (a.run none budget) (b.run none budget) := by
  have hor : (none : Option Int).or a.limit = (none : Option Int).or b.limit := hl
  obtain ⟨ending, s, s', hlock, ha, hb⟩ := h.lockstep_of_run hp hc hor budget
  have hlike := hlock.resultOf ((none : Option Int).or a.limit) ending
  rw [ha, hb]
  refine ⟨?_, ?_, fun ht => ?_, hlock.cpu_eq, hlock.world⟩
  · rw [← Session.verdict_untraced, hlike, Session.verdict_untraced]
  · rw [← Session.complaint_untraced, hlike, Session.complaint_untraced]
  · rw [hlock.resultOf_eq ht]
    exact hlock.reportAfter_eq ht _

theorem SameCourse.remarks {a b : Machine} {ran ran' : Option (Except Crash RunResult) × Machine}
    (h : SameCourse a b ran ran') (settings : SessionSettings)
    (ht : settings.trace = true → a.tracing = b.tracing) :
    Session.remarks settings ran = Session.remarks settings ran' := by
  rw [Session.remarks, Session.remarks, h.complaint]
  split
  next htrace => rw [h.report (ht htrace)]
  next => rfl

end Machine

namespace CommandLine

/-! ## Courses -/

structure Flags where
  trace : Bool := false
  listing : Bool := false
  verbose : Bool := false

def Flags.options (flags : Flags) (path : String) (limit : Option Int) : Options :=
  { path := some path, limit := limit.map .cycles, trace := flags.trace
    listing := flags.listing, verbose := flags.verbose }

def Flags.settings (flags : Flags) (read : FileReader) (budget : Nat) : SessionSettings :=
  { read, trace := flags.trace, listing := flags.listing, verbose := flags.verbose, budget }

def unusedMachine (console : Console) (limit : Option Int) (tracing : Bool) : Machine :=
  { memory := Memory.standard, console, limit, tracing }

/-- What a command does whatever its flags: its outcome, the state it leaves and what it shows; and
what can be shown in front of that and behind it. -/
structure Course (α : Type) where
  outcome : Except Break α
  memory : Memory
  cpu : Option Cpu
  pending : List String
  listing : List String := []
  body : List Shown
  report : List String := []

/-- A command that starts with a console has taken a course. Its flags are seen in what it has shown
and in nothing else: the listing stands in front of all the rest, and the trace report behind it. -/
structure Course.TakenBy (course : Course α) (flags : Flags) (console : Console)
    (done : Except Break α × Session) : Prop where
  outcome : done.1 = course.outcome
  memory : done.2.machine.memory = course.memory
  cpu : done.2.machine.cpu = course.cpu
  pending : done.2.machine.console.pending = course.pending
  shown : done.2.machine.console.shown.toList = console.shown.toList ++
    ((if flags.listing then course.listing.map .output else []) ++ course.body ++
      if flags.trace then course.report.map .notice else [])

/-- The lines written are those of the course, behind the listing if that is asked for. -/
theorem Course.TakenBy.outputs_eq {course : Course α} {flags : Flags} {console : Console}
    {done : Except Break α × Session} (h : course.TakenBy flags console done) :
    done.2.machine.console.outputs = console.outputs ++
      (if flags.listing then course.listing else []) ++ course.body.filterMap Shown.output? := by
  have hlisting : (if flags.listing then course.listing.map Shown.output else []).filterMap
      Shown.output? = if flags.listing then course.listing else [] := by
    split
    · exact Console.filterMap_map_output _
    · rfl
  have hreport : (if flags.trace then course.report.map Shown.notice else []).filterMap
      Shown.output? = [] := by
    split
    · exact Console.filterMap_map_notice (fun _ => rfl) _
    · rfl
  simp only [Console.outputs, h.shown, List.filterMap_append, hlisting, hreport, List.append_nil,
    List.append_assoc]

def Course.ofRun (loaded : Machine) (budget : Nat) : Course Bool :=
  let ran := loaded.run none budget
  { outcome := Session.verdict ran.1
    memory := ran.2.memory
    cpu := ran.2.cpu
    pending := ran.2.console.pending
    listing := loaded.listing
    body := ran.2.console.shown.toList.drop loaded.console.shown.size ++
      (Session.complaint ran.1).map .notice
    report := Session.reportAfter ran.2 ran.1 }

/-- The machine of a script under some flags comes to its run with the listing on its console, and
otherwise like the traced machine without a listing. -/
theorem listed_start (read : FileReader) (path : String) (console : Console) (limit : Option Int)
    (budget : Nat) (program : Program) (flags : Flags) :
    let m := Session.listed (flags.settings read budget)
      ((unusedMachine console limit flags.trace).withProgram program path)
    let m' := (unusedMachine console limit true).withProgram program path
    Machine.SameStart m m' ∧ m.program = some program ∧ m.cpu = some Cpu.initial ∧
      m.limit = m'.limit ∧ (flags.trace = true → m.tracing = m'.tracing) ∧
      m.console.shown.toList = console.shown.toList ++
        if flags.listing then m'.listing.map .output else [] := by
  intro m m'
  have hm : m = { (unusedMachine console limit flags.trace).withProgram program path with
      console := console.add (Session.listingShown (flags.settings read budget) m') } :=
    Session.listed_eq_add _ _
  rw [hm]
  refine ⟨⟨rfl, rfl, rfl, rfl, rfl, nofun⟩, rfl, rfl, rfl, id, ?_⟩
  rw [Console.add, Array.toList_append]
  rfl

section
variable {read : FileReader} {path : String} {console : Console} {limit : Option Int}
  {budget : Nat} {program : Program}

/-- Whatever the flags are, a loaded script takes the course of its traced run. -/
theorem takenBy_of_loaded (flags : Flags) {s : Session}
    (hs : s.machine = (unusedMachine console limit flags.trace).withProgram program path) :
    (Course.ofRun ((unusedMachine console limit true).withProgram program path) budget).TakenBy
      flags console (s.runLoaded (flags.settings read budget)) := by
  obtain ⟨houtcome, hmachine⟩ := Session.runLoaded_eq (flags.settings read budget) rfl s
  obtain ⟨hstart, hp, hc, hl, htracing, hfront⟩ :=
    listed_start read path console limit budget program flags
  rw [hs] at houtcome hmachine
  generalize Session.listed (flags.settings read budget) _ = m at *
  generalize hm' : (unusedMachine console limit true).withProgram program path = m' at *
  have hcourse := hstart.sameCourse hp hc hl budget
  have hremarks := hcourse.remarks (flags.settings read budget) htracing
  obtain ⟨more, hshown, hshown'⟩ := hcourse.world.added
  have hbody : (m'.run none budget).2.console.shown.toList.drop m'.console.shown.size =
      more.toList := by
    rw [hshown', Array.toList_append, ← Array.length_toList, List.drop_left]
  rw [show (flags.settings read budget).budget = budget from rfl] at houtcome hmachine
  refine ⟨houtcome.trans hcourse.verdict, ?_, ?_, ?_, ?_⟩
  · rw [hmachine]
    exact hcourse.world.memory_eq
  · rw [hmachine]
    exact hcourse.cpu
  · rw [hmachine]
    exact hcourse.world.pending_eq
  · calc (s.runLoaded (flags.settings read budget)).2.machine.console.shown.toList
        = m.console.shown.toList ++ more.toList ++
            (Session.remarks (flags.settings read budget) (m'.run none budget)).map .notice := by
          rw [hmachine, Console.add, Array.toList_append, hshown, Array.toList_append, hremarks]
      _ = _ := by
          rw [hfront, Session.remarks, Course.ofRun, hbody, List.map_append,
            apply_ite (List.map _), List.map_nil]
          simp only [List.append_assoc]
          rfl

/-- A path whose last characters, in small letters, are the ending of scripts. -/
def HasScriptEnding (path : String) : Prop :=
  ".assembly".toList <:+ path.toList.map Char.toLower

theorem isScriptPath_iff (path : String) : isScriptPath path = true ↔ HasScriptEnding path :=
  List.isSuffixOf_iff_suffix

/-- A script is loaded if its path has the ending of scripts and its file holds a program. -/
def Loads (read : FileReader) (path : String) (program : Program) : Prop :=
  HasScriptEnding path ∧ Machine.InFile read path program

theorem Loads.unique {other : Program} (h : Loads read path program)
    (h' : Loads read path other) : program = other := by
  obtain ⟨-, lines, hl, hp⟩ := h
  obtain ⟨-, lines', hl', hp'⟩ := h'
  cases hl.symm.trans hl'
  exact Except.ok.inj (hp.symm.trans hp')

/-- A command that has loaded nothing has taken the course of what it has shown. -/
theorem takenBy_of_unused (flags : Flags) {tracing : Bool} {done : Except Break α × Session}
    {body : List Shown} (h : done.2.machine = unusedMachine (console.add body) limit tracing) :
    Course.TakenBy
      { outcome := done.1, memory := .standard, cpu := none, pending := console.pending, body }
      flags console done := by
  refine ⟨rfl, ?_, ?_, ?_, ?_⟩
  · rw [h]
    rfl
  · rw [h]
    rfl
  · rw [h]
    rfl
  · rw [h]
    simp [unusedMachine, Console.add]

/-- A script that is not loaded leaves the machine unused, but for notices on its console. -/
theorem exists_course_of_not_loaded (read : FileReader) (path : String) (console : Console)
    (limit : Option Int) (budget : Nat) (h : ∀ program, ¬Loads read path program) :
    ∃ (outcome : Except Break Bool) (notices : List String), outcome ≠ .ok true ∧
      (¬HasScriptEnding path → outcome = .ok false) ∧
      ∀ (flags : Flags) (s : Session),
        s.machine = unusedMachine console limit flags.trace →
        (s.runScript (flags.settings read budget) path).1 = outcome ∧
          (s.runScript (flags.settings read budget) path).2.machine =
            unusedMachine (console.add (notices.map .notice)) limit flags.trace := by
  have hnotify (text : String) : console.notify text = console.add [.notice text] := by
    simp [Console.notify, Console.add]
  by_cases hpath : isScriptPath path = true
  · rcases Machine.loadFile_cases read path with ⟨failure, -, hload⟩ | ⟨program, hin, -⟩
    · cases failure with
      | crash reason =>
          refine ⟨.error (.crash reason), [], by simp,
            fun hn => (hn ((isScriptPath_iff path).1 hpath)).elim, fun flags s hs => ?_⟩
          simp only [Session.runScript, hpath, if_true, hload, Flags.settings,
            Session.machine_record, hs]
          exact ⟨trivial, by simp [Console.add, Machine.unload, unusedMachine]⟩
      | fault error =>
          refine ⟨.ok false, [s!"An error occurred: {error.message}"], by simp, fun _ => rfl,
            fun flags s hs => ?_⟩
          simp only [Session.runScript, hpath, if_true, hload, Flags.settings, Session.notify,
            Session.machine_record, hs]
          exact ⟨trivial, by simp [hnotify, Machine.unload, unusedMachine]⟩
    · exact (h program ⟨(isScriptPath_iff path).1 hpath, hin⟩).elim
  · refine ⟨.ok false,
      [s!"Error: Invalid file type. Please provide a path to a '{scriptExtension}' file."],
      by simp, fun _ => rfl, fun flags s hs => ?_⟩
    simp only [Session.runScript, hpath, if_false, Bool.false_eq_true, Session.notify, hs]
    exact ⟨trivial, by simp [hnotify, unusedMachine]⟩

/-- A script that is loaded is run. -/
theorem runScript_of_loads (h : Loads read path program) (settings : SessionSettings)
    (hr : settings.read = read) (s : Session) :
    ∃ loaded : Session, loaded.machine = s.machine.withProgram program path ∧
      s.runScript settings path = loaded.runLoaded settings := by
  have hload : s.machine.loadFile settings.read path =
      (.ok (), s.machine.withProgram program path) := by
    rcases Machine.loadFile_cases read path with ⟨-, hnone, -⟩ | ⟨other, hin, hload⟩
    · exact (hnone program h.2).elim
    · rw [hr, h.unique ⟨h.1, hin⟩]
      exact hload s.machine
  refine ⟨{ s with machine := s.machine.withProgram program path }.record settings fun _ =>
    loadLog settings.read path, Session.machine_record _ _ _, ?_⟩
  simp only [Session.runScript, (isScriptPath_iff path).2 h.1, if_true, hload]

/-- The machine of a command with a script loaded, untraced and with nothing listed. -/
def plainlyLoaded (path : String) (console : Console) (limit : Option Int) (program : Program) :
    Machine :=
  (unusedMachine console limit false).withProgram program path

/-- A course with a result is a success exactly if the plain machine completes its program. -/
theorem ok_of_course_iff {ok : Bool}
    (h : (Course.ofRun ((unusedMachine console limit true).withProgram program path)
      budget).outcome = .ok ok) :
    ok = true ↔ (plainlyLoaded path console limit program).Completes := by
  have hstart : Machine.SameStart ((unusedMachine console limit true).withProgram program path)
      (plainlyLoaded path console limit program) := ⟨rfl, rfl, rfl, rfl, rfl, nofun⟩
  have hverdict := (hstart.sameCourse rfl rfl rfl budget).verdict
  rw [show Session.verdict _ = .ok ok from h] at hverdict
  cases hr : ((plainlyLoaded path console limit program).run none budget).1 with
  | none => simp [hr, Session.verdict] at hverdict
  | some outcome =>
      cases outcome with
      | error reason => simp [hr, Session.verdict] at hverdict
      | ok result =>
          rw [hr, Session.verdict, Except.ok.injEq] at hverdict
          rw [hverdict]
          exact Machine.ok_of_run_iff rfl rfl hr

end

def Course.map (f : α → β) (course : Course α) : Course β :=
  { course with outcome := course.outcome.map f }

theorem Course.TakenBy.map (f : α → β) {course : Course α} {flags : Flags} {console : Console}
    {done : Except Break α × Session} (h : course.TakenBy flags console done) :
    (course.map f).TakenBy flags console (done.1.map f, done.2) where
  outcome := congrArg (Except.map f) h.outcome
  memory := h.memory
  cpu := h.cpu
  pending := h.pending
  shown := h.shown

/-- A command that names a script runs it on an unused machine. -/
theorem conduct_of_script (flags : Flags) (read : FileReader) {path : String} (hp : path ≠ "")
    (console : Console) (limit : Option Int) (budget : Nat) :
    ∃ s : Session,
      s.machine = unusedMachine
        (console.notify s!"Running script from command-line argument: {path}") limit flags.trace ∧
      conduct (flags.options path limit) read console budget =
        ((s.runScript (flags.settings read budget) path).1.map fun ok => if ok then 0 else 1,
          (s.runScript (flags.settings read budget) path).2) := by
  refine ⟨(openSession (flags.options path limit) console).notify
    s!"Running script from command-line argument: {path}", ?_, ?_⟩
  · cases limit <;> rfl
  · have hfilter : (flags.options path limit).path.filter (· ≠ "") = some path := by
      simp [Flags.options, hp]
    have hblank : decide ((flags.options path limit).limit = some .blank) = false := by
      cases limit <;> rfl
    unfold conduct
    simp only [hfilter, hblank]
    rfl

def exitStatus (ok : Bool) : Nat :=
  if ok then 0 else 1

/-- An exit status is zero or one, and zero means success. -/
theorem exitStatus_cases {outcome : Except Break Bool} {code : Nat}
    (h : outcome.map exitStatus = .ok code) :
    ∃ ok, outcome = .ok ok ∧ (code = 0 ∨ code = 1) ∧ (code = 0 ↔ ok = true) := by
  cases outcome with
  | error reason => cases h
  | ok ok =>
      cases h
      refine ⟨ok, rfl, ?_⟩
      cases ok <;> decide

/-- The exit status of a script that is loaded tells whether it completes. -/
theorem status_of_loads {read : FileReader} {path : String} {opened : Console}
    {limit : Option Int} {budget : Nat} {program : Program} (h : Loads read path program)
    {code : Nat}
    (hcode : (Course.ofRun ((unusedMachine opened limit true).withProgram program path)
      budget).outcome.map exitStatus = .ok code) :
    (code = 0 ∨ code = 1) ∧
      (code = 0 ↔ ∃ program, Loads read path program ∧
        (plainlyLoaded path opened limit program).Completes) := by
  obtain ⟨ok, hok, hcases, hzero⟩ := exitStatus_cases hcode
  have hcompletes : code = 0 ↔ (plainlyLoaded path opened limit program).Completes :=
    hzero.trans (ok_of_course_iff hok)
  refine ⟨hcases, hcompletes.trans ⟨fun hc => ⟨program, h, hc⟩, ?_⟩⟩
  rintro ⟨other, hother, hc⟩
  rwa [h.unique hother]

section
variable {read : FileReader} {path : String} (hpath : path ≠ "") (console : Console)
  (limit : Option Int) (budget : Nat) (flags : Flags)
include hpath

theorem takenBy_of_loads {program : Program} (h : Loads read path program) :
    let opened := console.notify s!"Running script from command-line argument: {path}"
    ((Course.ofRun ((unusedMachine opened limit true).withProgram program path) budget).map
      exitStatus).TakenBy flags opened
        (conduct (flags.options path limit) read console budget) := by
  intro opened
  obtain ⟨s, hs, hc⟩ := conduct_of_script flags read hpath console limit budget
  obtain ⟨loaded, hm, hr⟩ := runScript_of_loads h (flags.settings read budget) rfl s
  rw [hr] at hc
  rw [hc]
  exact (takenBy_of_loaded flags (hm.trans (by rw [hs]))).map exitStatus

theorem conduct_of_not_loaded {opened : Console} {outcome : Except Break Bool}
    {notices : List String}
    (ho : opened = console.notify s!"Running script from command-line argument: {path}")
    (hscript : ∀ s : Session,
      s.machine = unusedMachine opened limit flags.trace →
      (s.runScript (flags.settings read budget) path).1 = outcome ∧
        (s.runScript (flags.settings read budget) path).2.machine =
          unusedMachine (opened.add (notices.map .notice)) limit flags.trace) :
    (conduct (flags.options path limit) read console budget).1 = outcome.map exitStatus ∧
      (conduct (flags.options path limit) read console budget).2.machine =
        unusedMachine (opened.add (notices.map .notice)) limit flags.trace := by
  obtain ⟨s, hs, hc⟩ := conduct_of_script flags read hpath console limit budget
  obtain ⟨houtcome, hmachine⟩ := hscript s (ho ▸ hs)
  rw [hc, houtcome]
  exact ⟨rfl, hmachine⟩

end

/-- A command that names a script takes one course whatever its flags: it ends or breaks off alike
and leaves the same memory, the same processor and the same lines to be read, and what it shows is
the same but for the listing of the script in front, if that is asked for, and for the trace report
behind everything else. If it ends, then its status is zero or one, and it is zero exactly if the
script is loaded and completes: its path is that of a script, its file can be read and holds a
program, and the program comes to its end within the limit. A script that is not loaded leaves the
machine unused, but for notices on the console; that includes every path with another ending, for
which the status is one. -/
theorem script_takes_one_course (read : FileReader) {path : String} (hpath : path ≠ "")
    (console : Console) (limit : Option Int) (budget : Nat) :
    let opened := console.notify s!"Running script from command-line argument: {path}"
    let done (flags : Flags) := conduct (flags.options path limit) read console budget
    ∃ course : Course Nat,
      (∀ flags, course.TakenBy flags opened (done flags) ∧
        (start (flags.options path limit) read console budget).status = course.outcome ∧
        (start (flags.options path limit) read console budget).console =
          (done flags).2.machine.console) ∧
      (∀ code, course.outcome = .ok code → (code = 0 ∨ code = 1) ∧
        (code = 0 ↔ ∃ program, Loads read path program ∧
          (plainlyLoaded path opened limit program).Completes)) ∧
      (∀ program, Loads read path program →
        course.listing = (plainlyLoaded path opened limit program).listing) ∧
      ((∀ program, ¬Loads read path program) → course.listing = [] ∧ course.report = [] ∧
        ∃ notices : List String, ∀ flags,
          (done flags).2.machine =
            unusedMachine (opened.add (notices.map .notice)) limit flags.trace) ∧
      (¬HasScriptEnding path →
        course.outcome = .ok 1 ∧ ∀ program, ¬Loads read path program) := by
  intro opened done
  by_cases h : ∃ program, Loads read path program
  · obtain ⟨program, hl⟩ := h
    have htaken (flags : Flags) := takenBy_of_loads hpath console limit budget flags hl
    refine ⟨_, fun flags => ⟨htaken flags, (htaken flags).outcome, rfl⟩,
      fun _ => status_of_loads hl, ?_, fun hnone => (hnone program hl).elim, ?_⟩
    · intro other hother
      rw [hl.unique hother]
      rfl
    · intro hending
      exact (hending hl.1).elim
  · have hnone : ∀ program, ¬Loads read path program := fun program hl => h ⟨program, hl⟩
    obtain ⟨outcome, notices, hfails, hending, hscript⟩ :=
      exists_course_of_not_loaded read path opened limit budget hnone
    have hdone (flags : Flags) :=
      conduct_of_not_loaded hpath console limit budget flags rfl (hscript flags)
    refine ⟨{ outcome := outcome.map exitStatus, memory := .standard, cpu := none,
              pending := opened.pending, body := notices.map .notice },
      fun flags => ⟨?_, (hdone flags).1, rfl⟩, ?_, fun program hl => (hnone program hl).elim,
      fun _ => ⟨rfl, rfl, notices, fun flags => (hdone flags).2⟩, ?_⟩
    · rw [← (hdone flags).1]
      exact takenBy_of_unused flags (hdone flags).2
    · intro code hcode
      obtain ⟨ok, hok, hcases, hzero⟩ := exitStatus_cases hcode
      refine ⟨hcases, iff_of_false (fun hc => hfails ?_) ?_⟩
      · rw [hok, hzero.1 hc]
      · rintro ⟨program, hl, -⟩
        exact hnone program hl
    · intro he
      rw [hending he]
      exact ⟨rfl, hnone⟩

/-- A script that its limit cuts off after one line, listed and traced or neither. -/
theorem script_takes_one_course_cut_off :
    let text := "MOV R0, #1\nOUT R0\nOUT R0"
    let read : FileReader := fun _ => .ok text.toUTF8.data.toList
    let path := "ones.ASSEMBLY"
    let done (flags : Flags) := conduct (flags.options path (some 2)) read {} 0
    let both : Flags := { trace := true, listing := true }
    path ≠ "" ∧ (∃ program, Loads read path program) ∧
      (done {}).1 = .ok 1 ∧ (done both).1 = .ok 1 ∧
      (done {}).2.machine.console.outputs = ["1"] ∧
      (done both).2.machine.console.outputs =
        ["Instructions: ", "0 : MOV R0, #1", "1 : OUT R0", "2 : OUT R0", "Branches: ", "1"] ∧
      (done both).2.machine.memory = (done {}).2.machine.memory ∧
      (done both).2.machine.cpu = (done {}).2.machine.cpu := by
  intro text read path done both
  let program : Program :=
    { instructions := #[{ text := "MOV R0, #1", line := 1 }, { text := "OUT R0", line := 2 },
                        { text := "OUT R0", line := 3 }]
      labels := {} }
  have hpath : path ≠ "" := by decide
  have hloads : Loads read path program :=
    ⟨⟨"ones".toList, by decide⟩, _, readLines_of_text (by decide) rfl,
      show Program.ofText text = .ok program by decide +kernel⟩
  have hplain : (done {}).1 = .ok 1 ∧ (done {}).2.machine.console.outputs = ["1"] := by
    have h := takenBy_of_loads hpath {} (some 2) 0 {} hloads
    exact ⟨h.outcome.trans (by decide +kernel), h.outputs_eq.trans (by decide +kernel)⟩
  obtain ⟨course, htaken, -, hlisting, -⟩ := script_takes_one_course read hpath {} (some 2) 0
  have hlisted : course.listing =
      ["Instructions: ", "0 : MOV R0, #1", "1 : OUT R0", "2 : OUT R0", "Branches: "] := by
    rw [hlisting program hloads]
    decide
  have hbody : course.body.filterMap Shown.output? = ["1"] := by
    have h := (htaken {}).1.outputs_eq
    rw [show (conduct _ read {} 0).2.machine.console.outputs = _ from hplain.2] at h
    exact h.symm
  have hboth := (htaken both).1.outputs_eq
  rw [hlisted, hbody] at hboth
  exact ⟨hpath, ⟨program, hloads⟩, hplain.1,
    ((htaken both).1.outcome.trans (htaken {}).1.outcome.symm).trans hplain.1, hplain.2, hboth,
    (htaken both).1.memory.trans (htaken {}).1.memory.symm,
    (htaken both).1.cpu.trans (htaken {}).1.cpu.symm⟩

end CommandLine

end RegisterMachine
