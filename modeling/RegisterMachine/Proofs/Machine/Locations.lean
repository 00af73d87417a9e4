import RegisterMachine.Proofs.Machine.Completed
import RegisterMachine.Proofs.Program.Placement

/-!
# Where errors are reported

The error of a run carries the place of the instruction that the run has stopped at: the file and
the line in it, the index of the instruction and its text. An instruction that fails is put in its
place by the step that executes it, and one that the limit no longer lets in by the run itself. In
either way the place leads to the line of the source that the instruction was read from.
-/

namespace RegisterMachine

/-- The traceback of an error that has a place names file and line. -/
theorem Report.traceback_of_site {report : Report} {site : Site} (h : report.site = some site) :
    report.traceback =
      s!"Traceback:\n> File \"{site.file}\", line {site.line}\nRuntimeError: {report.message}" := by
  simp only [traceback, h]

namespace Machine

def placeIn (file : String) (index : Int) (instruction : Instruction) : Site :=
  { file, line := instruction.line, index, text := instruction.text }

/-- A step that reports a fault reports it at the instruction that it could not execute, and stays
in front of it. -/
theorem Within.site_of_step {m next : Machine} {program : Program} {file : String} {cpu : Cpu}
    (h : m.Within program file cpu) {report : Report}
    (hs : m.step = (.error (.fault report), next)) :
    ∃ instruction, program.fetch? cpu.pc = some instruction ∧
      report.site = some (placeIn file cpu.pc instruction) ∧ next.cpu = some cpu := by
  have he : m.step.1 = .error (.fault report) := by rw [hs]
  have hlt : cpu.pc < program.length := h.pc_lt_of_isFinished (h.not_isFinished_of_step he)
  obtain ⟨instruction, hf⟩ := Program.exists_fetch? h.pc_nonneg hlt
  have hn : next.cpu = m.cpu := by rw [step_eq_error hs]
  refine ⟨instruction, hf, ?_, hn.trans h.cpu_eq⟩
  rw [step_of_fetch h.program_eq h.cpu_eq hlt (Program.fetch_of_fetch? hf)] at hs
  cases hx : m.executeAt program cpu instruction with
  | mk result reached =>
      cases result with
      | ok entry => simp [hx, Except.map] at hs
      | error failure =>
          obtain ⟨reason, rfl⟩ := executeAt_failure hx
          cases reason with
          | crash cause => simp [hx, Except.map, Failure.map] at hs
          | fault fault =>
              simp only [hx, Except.map, Failure.map, Prod.mk.injEq, Except.error.injEq,
                Failure.fault.injEq] at hs
              rw [← hs.1, placeIn, ← h.file_eq]
              rfl

section
variable {m : Machine} {program : Program} {cpu : Cpu} (hp : m.program = some program)
  (hc : m.cpu = some cpu) {limit : Option Int} {budget : Nat}
include hp hc

/-- The error of a run is placed at the instruction that the run has stopped at. -/
theorem site_of_run {result : RunResult} (hr : (m.run limit budget).1 = some (.ok result))
    {report : Report} (he : result.error = some report) :
    ∃ reached instruction, (m.run limit budget).2.cpu = some reached ∧ result.pc = reached.pc ∧
      0 ≤ reached.pc ∧ program.fetch? reached.pc = some instruction ∧
      report.site = some (placeIn m.file reached.pc instruction) := by
  have hm := within_restart hp hc
  obtain ⟨last, hn, -, hends⟩ :=
    @iterate_ends (fun _ _ => True) (fun _ _ _ _ _ _ => trivial) m.restart [] trivial
      (m.allowance limit budget)
  cases hi : m.restart.iterate (m.allowance limit budget) with
  | mk ending next =>
      rw [run_of_iterate hp hc hi] at hr ⊢
      rw [hi] at hends
      rcases resultOf_eq_ok hr with ⟨-, rfl⟩ | ⟨fault, rfl, rfl⟩ | ⟨bound, rfl, -, -, rfl⟩
      · cases he
      · obtain ⟨reached, hw, -, -⟩ := hm.nth? hn
        obtain ⟨instruction, hf, hsite, hcpu⟩ := hw.site_of_step hends.1
        cases he
        refine ⟨reached, instruction, hcpu, ?_, hw.pc_nonneg, hf, hsite⟩
        simp [Machine.resultWith, hcpu]
      · -- The program is not finished there, so there is an instruction to place the error at.
        obtain ⟨hb, hf⟩ := nth?_of_exhausted hi
        obtain ⟨reached, hw, -, -⟩ := hm.nth? hb
        obtain ⟨instruction, hins⟩ :=
          Program.exists_fetch? hw.pc_nonneg (hw.pc_lt_of_isFinished hf)
        cases he
        refine ⟨reached, instruction, hw.cpu_eq, ?_, hw.pc_nonneg, hins, ?_⟩
        · rw [hw.resultWith]
        · rw [hw.limitReport hins]
          rfl

end

/-- A program that was loaded from a source reports its errors where they are. Whatever memory,
console and processor hold, if a run of it has a result that is no success, then the error names the
file, the index at which the machine has stopped, and the text of the instruction there. It also
names the line of the source which that instruction was read from, and so does the traceback: cut at
both ends, the line is that text, and there are as many instruction lines in front of it as the
index says. -/
theorem location_of_load {m loaded : Machine} {source : SourceForm} {file : String}
    (hl : m.load source file = (.ok (), loaded)) {s : Machine} (hp : s.program = loaded.program)
    (hf : s.file = loaded.file) (hc : s.cpu.isSome = true) {limit : Option Int} {budget : Nat}
    {result : RunResult} (hr : (s.run limit budget).1 = some (.ok result))
    (hn : result.ok = false) :
    ∃ report site cpu program instruction front line back, result.error = some report ∧
      report.site = some site ∧ site.file = file ∧
      site.index = result.pc ∧ (s.run limit budget).2.cpu = some cpu ∧ cpu.pc = result.pc ∧
      loaded.program = some program ∧ program.fetch? site.index = some instruction ∧
      site.text = instruction.text ∧
      source.toLines = front ++ line :: back ∧ site.line = front.length + 1 ∧
      String.ofList (Text.trim line.toList) = site.text ∧
      ((front.filter isInstructionLine).length : Int) = site.index ∧
      result.traceback =
        s!"Traceback:\n> File \"{file}\", line {site.line}\nRuntimeError: {report.message}" := by
  obtain ⟨program, hs, rfl⟩ := load_eq_ok hl
  obtain ⟨cpu, hcpu⟩ := Option.isSome_iff_exists.1 hc
  obtain ⟨report, he⟩ : ∃ report, result.error = some report := by
    rcases ok_or_error_of_run hr with ⟨hok, -⟩ | ⟨-, he⟩
    · rw [hn] at hok
      cases hok
    · exact he
  obtain ⟨reached, instruction, hreached, hpc, h0, hfetch, hsite⟩ := site_of_run hp hcpu hr he
  obtain ⟨index, hindex⟩ := Int.eq_ofNat_of_zero_le h0
  have hplaces : program.Places source.toLines := by
    rw [SourceForm.toProgram_eq] at hs
    exact Program.places_of_ofLines hs
  have hi : program.instructions[index]? = some instruction := by
    rw [← Program.fetch?_natCast, ← hindex]
    exact hfetch
  obtain ⟨front, line, back, hsplit, hline, htext, hcount⟩ := hplaces.standsIn index instruction hi
  refine ⟨report, placeIn s.file reached.pc instruction, reached, program, instruction, front, line,
    back, he, hsite, hf, hpc.symm, hreached, hpc.symm, rfl, hfetch, rfl, hsplit, hline, htext.symm,
    ?_, ?_⟩
  · rw [hcount]
    exact hindex.symm
  · have hfile : (placeIn s.file reached.pc instruction).file = file := hf
    rw [RunResult.traceback, he, Option.elim_some, Report.traceback_of_site hsite, hfile]

/-- A loop whose third instruction fails in the second round. It stands in the sixth line of a text
that starts with a comment, a blank line and a label. -/
theorem location_of_load_loop :
    let source := SourceForm.asText
      "// down\n\nagain:\n  ADD R1, R1, #1\n\tOUT R1\n STR R1, R2 \r\nSUB R2, R2, #1\nB again"
    let m : Machine := { memory := Memory.zeroed 4 (by decide) (by decide), console := {} }
    ∃ result report site front line back,
      ((m.load source "loop").2.run none 20).1 = some (.ok result) ∧
      result.error = some report ∧ report.site = some site ∧ site.file = "loop" ∧
      site.line = 6 ∧ site.index = 2 ∧ source.toLines = front ++ line :: back ∧
      site.line = front.length + 1 ∧ String.ofList (Text.trim line.toList) = site.text := by
  intro source m
  have hl : m.load source "loop" = (.ok (), (m.load source "loop").2) := rfl
  have hrun : (((m.load source "loop").2.run none 20).1.any fun outcome =>
      outcome.toOption.any fun result =>
        !result.ok && result.pc == 2 && (result.error.bind (·.site)).any (·.line == 6)) = true := by
    decide +kernel
  match hr : ((m.load source "loop").2.run none 20).1 with
  | none => simp [hr] at hrun
  | some (.error reason) => simp [hr, Except.toOption] at hrun
  | some (.ok result) =>
      simp only [hr, Option.any_some, Except.toOption, Bool.and_eq_true, Bool.not_eq_true',
        beq_iff_eq] at hrun
      obtain ⟨⟨hn, hpc⟩, hline⟩ := hrun
      obtain ⟨report, site, cpu, program, instruction, front, line, back, he, hs, hfile, hindex, -,
        -, -, -, -, hsplit, hnumber, htext, -⟩ := location_of_load hl rfl rfl rfl hr hn
      simp only [he, Option.bind_some, hs, Option.any_some, beq_iff_eq] at hline
      exact ⟨result, report, site, front, line, back, rfl, he, hs, hfile, hline,
        hindex.trans hpc, hsplit, hnumber, htext⟩

end Machine

end RegisterMachine
