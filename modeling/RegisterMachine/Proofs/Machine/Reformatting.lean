import RegisterMachine.Proofs.Machine.Agreement

/-!
# Reformatted sources

The layout of a source does not change what its program does. Two sources whose lines say the same
are both refused, at the same content, or both accepted, and then they run alike: all that can
differ are the line numbers and texts in what is reported.
-/

namespace RegisterMachine

/-! ## Results without layout -/

def Site.bare (site : Site) : Site :=
  { site with line := 0, text := "" }

def Report.bare (report : Report) : Report :=
  { report with site := report.site.map Site.bare }

def TraceEntry.bare (entry : TraceEntry) : TraceEntry :=
  { entry with
    instruction := { text := "", line := 0 }
    decoded := { entry.decoded with raw := "" } }

def RunResult.bare (result : RunResult) : RunResult :=
  { result with
    error := result.error.map Report.bare
    trace := result.trace.map TraceEntry.bare }

namespace Guise

variable {g g' : Guise} (h : g.program.code = g'.program.code)
include h

theorem bare_report (hf : g.file = g'.file) (index : Int) (fault : Fault) :
    (g.report index fault).bare = (g'.report index fault).bare := by
  rcases Program.fetch?_of_code_eq h index with ⟨hn, hn'⟩ | ⟨instruction, other, hi, ho, -⟩
  · simp only [report, hn, hn', Option.map_none]
  · simp only [report_eq hi, report_eq ho, hf]
    rfl

theorem bare_record? (before after : Cpu) :
    (g.record? before after).map TraceEntry.bare =
      (g'.record? before after).map TraceEntry.bare := by
  rcases Program.fetch?_of_code_eq h before.pc with ⟨hn, hn'⟩ | ⟨instruction, other, hi, ho, ht⟩
  · simp only [record?, hn, hn', Option.map_none]
  · have hm : (Decoded.ofText instruction.text).mnemonic = (Decoded.ofText other.text).mnemonic :=
      congrArg Tokens.mnemonic ht
    have ha : (Decoded.ofText instruction.text).arguments = (Decoded.ofText other.text).arguments :=
      congrArg Tokens.arguments ht
    simp only [record?_eq hi, record?_eq ho, Option.map_some, TraceEntry.bare, hm, ha]

end Guise

namespace Machine

section
variable {g g' : Guise} (hcode : g.program.code = g'.program.code) (ht : g.tracing = g'.tracing)
  (hb : g.trace.map TraceEntry.bare = g'.trace.map TraceEntry.bare)
include hcode ht hb

theorem TracesAgree.bare_eq {trace trace' : Array TraceEntry} (h : TracesAgree g g' trace trace') :
    trace.map TraceEntry.bare = trace'.map TraceEntry.bare := by
  obtain ⟨states, hs, hs'⟩ := h ht
  have hbase := congrArg (List.map some) (congrArg Array.toList hb)
  have hbare := congrArg (List.map (Option.map TraceEntry.bare)) hs
  have hbare' := congrArg (List.map (Option.map TraceEntry.bare)) hs'
  simp only [Array.toList_map, List.map_append, List.map_map, Function.comp_def, Option.map_some,
    Guise.bare_record? hcode] at hbase hbare hbare'
  refine Array.toList_inj.1 ?_
  rw [Array.toList_map, Array.toList_map]
  refine (List.map_inj_right fun _ _ => Option.some.inj).1 ?_
  rw [List.map_map, List.map_map]
  refine hbare.trans ?_
  rw [hbase]
  exact hbare'.symm

theorem ResultsAgree.bare_eq {result result' : RunResult} (h : ResultsAgree g g' result result')
    (hf : g.file = g'.file) : result.bare = result'.bare := by
  obtain ⟨fault, he, he'⟩ := h.error
  have herror : result.error.map Report.bare = result'.error.map Report.bare := by
    rw [he, he']
    cases fault with
    | none => rfl
    | some fault => exact congrArg some (Guise.bare_report hcode hf result.pc fault)
  simp only [RunResult.bare, h.ok_eq, h.cycles_eq, h.pc_eq, herror, h.trace.bare_eq hcode ht hb]

theorem OutcomesAgree.bare_eq {outcome outcome' : Option (Except Crash RunResult)}
    (h : OutcomesAgree g g' outcome outcome') (hf : g.file = g'.file) :
    outcome.map (Except.map RunResult.bare) = outcome'.map (Except.map RunResult.bare) := by
  cases h with
  | none => rfl
  | crash reason => rfl
  | result h => exact congrArg (fun bare => some (Except.ok bare)) (h.bare_eq hcode ht hb hf)

end

/-! ## Loading and running -/

structure SameRun (start start' : Console)
    (ran ran' : Option (Except Crash RunResult) × Machine) : Prop where
  outcome : ran.1.map (Except.map RunResult.bare) = ran'.1.map (Except.map RunResult.bare)
  cpu : ran.2.cpu = ran'.2.cpu
  memory : ran.2.memory = ran'.2.memory
  trace : ran.2.trace.map TraceEntry.bare = ran'.2.trace.map TraceEntry.bare
  pending : ran.2.console.pending = ran'.2.console.pending
  outputs : ∃ lines, ran.2.console.outputs = start.outputs ++ lines ∧
    ran'.2.console.outputs = start'.outputs ++ lines
  prompts : ∃ lines, ran.2.console.prompts = start.prompts ++ lines ∧
    ran'.2.console.prompts = start'.prompts ++ lines

theorem sameRun_of_agree {a b : Machine} {program program' : Program}
    (h : Agree (a.restart.guise program) (b.restart.guise program') a.restart b.restart)
    (hf : a.file = b.file) (ht : a.tracing = b.tracing) {limit limit' : Option Int}
    (hl : limit.or a.limit = limit'.or b.limit) (budget : Nat) :
    SameRun a.console b.console (a.run limit budget) (b.run limit' budget) := by
  obtain ⟨ho, hn⟩ := run_agree h hl budget
  exact
    { outcome := ho.bare_eq h.code_eq ht rfl hf
      cpu := hn.cpu_eq
      memory := hn.world.memory_eq
      trace := hn.trace.bare_eq h.code_eq ht rfl
      pending := hn.world.pending_eq
      outputs := hn.world.added_lines Shown.output?
      prompts := hn.world.added_lines Shown.prompt? }

/-- The layout of a source makes no difference. If the lines of two sources say the same, then both
are refused because of the same content, or both are accepted and have the same labels. In machines
with the same memory of words, the same lines to read, the same limit and the same tracing, they run
alike then: the runs have no result, crash for the same reason, or have the same result up to line
numbers and texts, and they leave the same processor, the same memory and the same trace, and have
shown the same outputs and prompts. -/
theorem run_of_same_contents {source source' : SourceForm}
    (h : contents source.toLines = contents source'.toLines) :
    (∃ e e' reason, source.toProgram = .error e ∧ source'.toProgram = .error e' ∧
      e.LiesAt source.toLines reason ∧ e'.LiesAt source'.toLines reason) ∨
    ∃ program program', source.toProgram = .ok program ∧ source'.toProgram = .ok program' ∧
      program.labels = program'.labels ∧
      ∀ a b : Machine, a.memory.HoldsWords → a.memory = b.memory →
        a.console.pending = b.console.pending → a.limit = b.limit → a.tracing = b.tracing →
        ∀ (file : String) (limit : Option Int) (budget : Nat),
          (a.load source file).1 = .ok () ∧ (b.load source' file).1 = .ok () ∧
          SameRun a.console b.console ((a.load source file).2.run limit budget)
            ((b.load source' file).2.run limit budget) := by
  rw [source.toProgram_eq, source'.toProgram_eq]
  rcases Program.ofLines_of_contents_eq h with hrefused | ⟨program, program', hp, hp', hcode⟩
  · exact .inl hrefused
  · refine .inr ⟨program, program', hp, hp', Program.labels_eq_of_code_eq hcode, ?_⟩
    intro a b hwords hm hq hlimit ht file limit budget
    rw [load_of_toProgram (source.toProgram_eq.trans hp),
      load_of_toProgram (source'.toProgram_eq.trans hp')]
    have hcons : (a.withProgram program file).Consistent a.memory.size :=
      consistent_of_loaded rfl hwords rfl rfl (Program.wellFormed_of_ofLines hp)
        (Cpu.Fits.initial program.length)
    have hagree : Agree ((a.withProgram program file).restart.guise program)
        ((b.withProgram program' file).restart.guise program') _ _ :=
      hcons.restart.agree rfl rfl hcode rfl hm hq
    exact ⟨rfl, rfl, sameRun_of_agree hagree rfl ht (congrArg limit.or hlimit) budget⟩

/-- An output and a store that is out of bounds, in a text and in lines that are spaced out. The
errors are the same, at lines four and six. -/
theorem run_of_same_contents_spaced :
    let source := SourceForm.asText
      "B show\nshow:\nOUT R1\nSTR R1, 9"
    let source' := SourceForm.asLines
      ["// shows R1", "B\tsh ow", " show :", "", "OUT R1 ", "STR  R 1,9"]
    let m : Machine :=
      { memory := .zeroed 4 (by decide) (by decide), console := {}, tracing := true }
    let ran := (m.load source "show").2.run none 9
    let ran' := (m.load source' "show").2.run none 9
    contents source.toLines = contents source'.toLines ∧ SameRun m.console m.console ran ran' ∧
      ran.1.map (Except.map RunResult.traceback) =
        some (.ok ("Traceback:\n> File \"show\", line 4\nRuntimeError: " ++
          "Memory address 9 is out of bounds. Valid addresses are 0-3.")) ∧
      ran'.1.map (Except.map RunResult.traceback) =
        some (.ok ("Traceback:\n> File \"show\", line 6\nRuntimeError: " ++
          "Memory address 9 is out of bounds. Valid addresses are 0-3.")) := by
  intro source source' m ran ran'
  have hc : contents source.toLines = contents source'.toLines := by decide +kernel
  have hok : source.toProgram.isOk = true := by decide +kernel
  have hwords : m.memory.HoldsWords := Memory.holdsWords_zeroed 4 (by decide) (by decide)
  refine ⟨hc, ?_, by decide +kernel, by decide +kernel⟩
  rcases run_of_same_contents hc with ⟨e, e', reason, he, -⟩ | ⟨program, program', -, -, -, hrun⟩
  · rw [he] at hok
    cases hok
  · exact (hrun m m hwords rfl rfl rfl rfl "show" none 9).2.2

end Machine

end RegisterMachine
