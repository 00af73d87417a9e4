import RegisterMachine.Proofs.Machine.Trace

/-!
# The conversation of a run

What passes between a run and the console is dictated by the instructions that the run completes,
and by the one it stops at. Lines of input are taken one by one from the front, each by the
instruction that keeps its number; lines of output come from registers as they were in front of
their instruction. Only an instruction that has its register can prompt, and if it does not get a
number, the run stops at it.
-/

namespace RegisterMachine

/-! ## Console instructions -/

namespace TraceEntry

def isInput (entry : TraceEntry) : Bool :=
  entry.decoded.mnemonic == Mnemonic.input.name

def isOutput (entry : TraceEntry) : Bool :=
  entry.decoded.mnemonic == Mnemonic.output.name

/-- An entry has put the number that a line of input denotes into the register that it names. -/
def Took (entry : TraceEntry) (line : String) : Prop :=
  ∃ token r v, entry.decoded.arguments = [token] ∧ Register.ofToken token = .ok r ∧
    Word.ofText line.toList = .ok (some v) ∧ entry.after.read r = .ok v

/-- The line of output of an entry: the value that its register had before it, in decimal. -/
def line? (entry : TraceEntry) : Option String :=
  match entry.decoded.arguments with
  | [token] => (registerValue token entry.before).toOption.map toString
  | _ => none

theorem line?_of_registerValue {entry : TraceEntry} {token : String} {v : Int}
    (ha : entry.decoded.arguments = [token]) (hv : registerValue token entry.before = .ok v) :
    entry.line? = some (toString v) := by
  simp only [line?, ha, hv]
  rfl

end TraceEntry

/-- A console has come about from another one by the console instructions among some entries. -/
structure Converses (start : Console) (entries : List TraceEntry) (now : Console) : Prop where
  taken : ∀ (k : Nat) (entry : TraceEntry), (entries.filter (·.isInput))[k]? = some entry →
    ∃ line, start.pending[k]? = some line ∧ entry.Took line
  pending : now.pending = start.pending.drop (entries.filter (·.isInput)).length
  outputs : ∃ written, now.outputs = start.outputs ++ written ∧
    (entries.filter (·.isOutput)).map (·.line?) = written.map some
  prompts : now.prompts =
    start.prompts ++ List.replicate (entries.filter (·.isInput)).length inputPrompt

namespace Converses

theorem refl (console : Console) : Converses console [] console where
  taken := by simp
  pending := by simp
  outputs := ⟨[], by simp⟩
  prompts := by simp

variable {start console : Console} {entries : List TraceEntry}
  (h : Converses start entries console) {entry : TraceEntry}
include h

theorem pending_readLine :
    (console.readLine inputPrompt).2.pending =
      start.pending.drop ((entries.filter (·.isInput)).length + 1) := by
  rw [← List.tail_drop, ← h.pending]
  rfl

theorem prompts_readLine :
    (console.readLine inputPrompt).2.prompts =
      start.prompts ++ List.replicate ((entries.filter (·.isInput)).length + 1) inputPrompt := by
  rw [Console.prompts_readLine, h.prompts, List.append_assoc, ← List.replicate_succ']

theorem input (hi : entry.isInput = true) (ho : entry.isOutput = false) {line : String}
    (hl : console.pending.head? = some line) (ht : entry.Took line) :
    Converses start (entries ++ [entry]) (console.readLine inputPrompt).2 := by
  have hin : (entries ++ [entry]).filter (·.isInput) = entries.filter (·.isInput) ++ [entry] := by
    simp [hi]
  have hout : (entries ++ [entry]).filter (·.isOutput) = entries.filter (·.isOutput) := by
    simp [ho]
  refine ⟨?_, ?_, ?_, ?_⟩
  · intro k other hk
    rw [hin] at hk
    -- The instruction is the last one, and takes the line in front, or it is one of the others.
    rcases Nat.lt_or_ge k (entries.filter (·.isInput)).length with hlt | hge
    · rw [List.getElem?_append_left hlt] at hk
      exact h.taken k other hk
    · have hlt := (List.getElem?_eq_some_iff.1 hk).1
      rw [List.length_append, List.length_singleton] at hlt
      obtain rfl : k = (entries.filter (·.isInput)).length := by omega
      rw [List.getElem?_concat_length] at hk
      cases hk
      rw [h.pending, List.head?_drop] at hl
      exact ⟨line, hl, ht⟩
  · rw [hin, List.length_append, List.length_singleton]
    exact h.pending_readLine
  · rw [hout, Console.outputs_readLine]
    exact h.outputs
  · rw [hin, List.length_append, List.length_singleton]
    exact h.prompts_readLine

theorem output (hi : entry.isInput = false) (ho : entry.isOutput = true) {line : String}
    (hl : entry.line? = some line) :
    Converses start (entries ++ [entry]) (console.writeLine line) := by
  have hin : (entries ++ [entry]).filter (·.isInput) = entries.filter (·.isInput) := by simp [hi]
  have hout : (entries ++ [entry]).filter (·.isOutput) =
      entries.filter (·.isOutput) ++ [entry] := by
    simp [ho]
  refine ⟨?_, ?_, ?_, ?_⟩
  · rw [hin]
    exact h.taken
  · rw [hin]
    exact h.pending
  · obtain ⟨written, hw, hm⟩ := h.outputs
    refine ⟨written ++ [line], ?_, ?_⟩
    · rw [Console.outputs_writeLine, hw, List.append_assoc]
    · rw [hout, List.map_append, hm, List.map_append, List.map_singleton, List.map_singleton, hl]
  · rw [hin, Console.prompts_writeLine]
    exact h.prompts

theorem silent (hi : entry.isInput = false) (ho : entry.isOutput = false) :
    Converses start (entries ++ [entry]) console := by
  have hin : (entries ++ [entry]).filter (·.isInput) = entries.filter (·.isInput) := by simp [hi]
  have hout : (entries ++ [entry]).filter (·.isOutput) = entries.filter (·.isOutput) := by
    simp [ho]
  refine ⟨?_, ?_, ?_, ?_⟩
  · rw [hin]
    exact h.taken
  · rw [hin]
    exact h.pending
  · rw [hout]
    exact h.outputs
  · rw [hin]
    exact h.prompts

end Converses

/-- A completed instruction goes on with the conversation. -/
theorem Converses.execute {start : Console} {entries : List TraceEntry} {entry : TraceEntry}
    {layout : Layout} {world after : World} (h : Converses start entries world.console)
    (hx : Registry.standard.execute layout entry.before entry.decoded world =
      (.ok entry.after, after)) : Converses start (entries ++ [entry]) after.console := by
  rcases Registry.console_of_execute hx with
    ⟨hm, token, r, line, v, ha, hr, hl, hv, hn, hc⟩ | ⟨hm, token, v, ha, hv, hc⟩ | ⟨hi, ho, hc⟩
  · have ho : entry.isOutput = false := by
      simp only [TraceEntry.isOutput, hm]
      decide
    rw [hc]
    exact h.input (beq_iff_eq.2 hm) ho hl ⟨token, r, v, ha, hr, hv, hn⟩
  · have hi : entry.isInput = false := by
      simp only [TraceEntry.isInput, hm]
      decide
    rw [hc]
    exact h.output hi (beq_iff_eq.2 hm) (TraceEntry.line?_of_registerValue ha hv)
  · rw [hc]
    exact h.silent (beq_eq_false_iff_ne.2 hi) (beq_eq_false_iff_ne.2 ho)

/-- An instruction that is to read a line completes if the line is a number. -/
theorem Registry.execute_of_readsInput {cpu : Cpu} (hc : cpu.HoldsWords) {decoded : Decoded}
    (hd : decoded.ReadsInput) {world : World} {line : String}
    (hl : world.console.pending.head? = some line) {v : Int}
    (hv : Word.ofText line.toList = .ok (some v)) (layout : Layout) :
    ∃ next after, standard.execute layout cpu decoded world = (.ok next, after) := by
  obtain ⟨r, ht⟩ := (Decoded.readsInput_iff hd.1).1 hd
  have he : (Command.input r).effect layout cpu world.memory.size = .ok (.input r) := rfl
  have hw : world.readWord.1 = .ok v := by
    simp only [World.readWord, Console.readLine, hl, wordOr, hv]
  have hp : (Effect.input r).perform cpu world = (.ok (cpu.put r v), world.readWord.2) := by
    simp only [Effect.perform, hw, hc.write_eq, orCrash_ok]
    rfl
  rw [execute_of_command hc hd.1 layout world ht, Command.execute_of_effect he, hp]
  exact ⟨_, _, rfl⟩

namespace Machine

/-! ## Where a run stops -/

/-- A run stops in front of an instruction that fails, behind all those that it completes. -/
def StopsAt (m : Machine) (limit : Option Int) (budget : Nat) (last : Machine)
    (instruction : Instruction) : Prop :=
  (m.completedByRun limit budget).length < m.allowance limit budget ∧
    last.current? = some instruction ∧
    ∃ failure, m.restart.FailsAt (m.completedByRun limit budget).length last failure

/-- A run stops at an instruction that has read a line, which is no number. -/
def StopsRefusing (m : Machine) (limit : Option Int) (budget : Nat) : Prop :=
  ∃ last instruction line, m.StopsAt limit budget last instruction ∧
    (Decoded.ofText instruction.text).ReadsInput ∧ last.console.pending.head? = some line ∧
    ∀ v, Word.ofText line.toList ≠ .ok (some v)

/-- A run stops at an instruction that was to read a line when there was none left. -/
def StopsWaiting (m : Machine) (limit : Option Int) (budget : Nat) : Prop :=
  ∃ last instruction, m.StopsAt limit budget last instruction ∧
    (Decoded.ofText instruction.text).ReadsInput ∧ last.console.pending = []

section
variable {m : Machine} {limit : Option Int} {budget : Nat} {last other : Machine}
  {instruction another : Instruction}

theorem StopsAt.unique (h : m.StopsAt limit budget last instruction)
    (ho : m.StopsAt limit budget other another) : other = last ∧ another = instruction := by
  obtain ⟨-, hi, failure, hn, -⟩ := h
  obtain ⟨-, ha, failure', hn', -⟩ := ho
  obtain rfl : other = last := Option.some.inj (hn'.symm.trans hn)
  exact ⟨rfl, Option.some.inj (ha.symm.trans hi)⟩

/-- A run that stops at an instruction that is to read a line has refused one, or there was none. -/
theorem StopsAt.stopsRefusing_or_empty (h : m.StopsAt limit budget last instruction)
    (hd : (Decoded.ofText instruction.text).ReadsInput)
    (hrefused : ∀ line, last.console.pending.head? = some line →
      ∀ v, Word.ofText line.toList ≠ .ok (some v)) :
    m.StopsRefusing limit budget ∨
      last.console.pending = [] ∧ ¬m.StopsRefusing limit budget := by
  cases hl : last.console.pending with
  | nil =>
      refine .inr ⟨rfl, ?_⟩
      intro hr
      obtain ⟨other, another, line, ho, -, hline, -⟩ := hr
      obtain ⟨rfl, rfl⟩ := h.unique ho
      rw [hl] at hline
      cases hline
  | cons line rest =>
      have hhead : last.console.pending.head? = some line := by rw [hl, List.head?_cons]
      exact .inl ⟨last, instruction, line, h, hd, hhead, hrefused line hhead⟩

/-- A line that a failing instruction was to read is no number. -/
theorem not_number_of_failed_step {size : Int} (h : m.Consistent size) {next : Machine}
    {failure : Failure Report} (hs : m.step = (.error failure, next))
    (hi : m.current? = some instruction) (hd : (Decoded.ofText instruction.text).ReadsInput)
    {line : String} (hl : m.console.pending.head? = some line) (v : Int) :
    Word.ofText line.toList ≠ .ok (some v) := by
  intro hv
  rcases h.finished_or_at with ⟨-, hn⟩ | ⟨program, cpu, executed, mnemonic, ha⟩
  · rw [hn] at hi
    cases hi
  · obtain rfl : executed = instruction := Option.some.inj (ha.current.symm.trans hi)
    have hf := h.fits program cpu ha.program_eq ha.cpu_eq
    obtain ⟨after, world, hx⟩ := Registry.execute_of_readsInput hf.words hd hl hv program.layout
    rw [ha.step] at hs
    rcases h.executeAt_cases ha with ⟨reason, reached, hr, -⟩ | ⟨reached, world', -, he⟩
    · rw [hx] at hr
      cases hr
    · rw [he] at hs
      cases hs

end

/-! ## Runs -/

structure Conversed (m : Machine) (size : Int) (start : Console) : Prop where
  consistent : m.Consistent size
  tracing : m.tracing = true
  converses : Converses start m.trace.toList m.console

theorem Conversed.step_ok {m next : Machine} {size : Int} {start : Console}
    (h : m.Conversed size start) {entry : TraceEntry} (hs : m.step = (.ok (some entry), next)) :
    next.Conversed size start := by
  obtain ⟨program, world, -, -, -, -, hr, hn⟩ := step_completes hs
  have ht : next.trace.toList = m.trace.toList ++ [entry] := by
    rw [hn, h.tracing, if_pos rfl, Array.toList_push]
  have hc : next.console = world.console := by rw [hn]
  refine ⟨h.consistent.of_step hs, by rw [hn, h.tracing], ?_⟩
  rw [ht, hc]
  exact h.converses.execute hr

section
variable {m : Machine} {size : Int} (h : m.Consistent size)
include h

theorem Consistent.not_finished {instruction : Instruction} (hi : m.current? = some instruction) :
    m.isFinished = false := by
  rcases h.finished_or_at with ⟨-, hn⟩ | ⟨program, cpu, executed, mnemonic, ha⟩
  · rw [hn] at hi
    cases hi
  · exact ha.isFinished

/-- A run is a conversation up to its last completed instruction. Then it ends, or stops at an
instruction that leaves the console alone, or at one that has asked for a line and got no number. -/
theorem Consistent.run_converses (ht : m.tracing = true) {program : Program}
    (hp : m.program = some program) (limit : Option Int) (budget : Nat) :
    ∃ last : Machine, Converses m.console (m.run limit budget).2.trace.toList last.console ∧
      (((m.run limit budget).2.console = last.console ∧
          ∀ other instruction, m.StopsAt limit budget other instruction →
            other = last ∧ ¬(Decoded.ofText instruction.text).ReadsInput) ∨
        ∃ instruction, m.StopsAt limit budget last instruction ∧
          (Decoded.ofText instruction.text).ReadsInput ∧
          (m.run limit budget).2.console = (last.console.readLine inputPrompt).2 ∧
          ∀ line, last.console.pending.head? = some line →
            ∀ v, Word.ofText line.toList ≠ .ok (some v)) := by
  obtain ⟨cpu, hc, -, -⟩ := h.loaded hp
  have hr : m.restart.Conversed size m.console := ⟨h.restart, ht, Converses.refl m.console⟩
  obtain ⟨last, ending, hn, hl, he, -⟩ :=
    run_ends (P := fun s _ => s.Conversed size m.console)
      (fun s entries entry next hs hstep => hs.step_ok hstep) hp hc hr limit budget
  have hlast {other : Machine} {instruction : Instruction}
      (hs : m.StopsAt limit budget other instruction) : other = last := by
    obtain ⟨-, -, failure, ho, -⟩ := hs
    exact Option.some.inj (ho.symm.trans hn)
  refine ⟨last, ?_⟩
  generalize (m.run limit budget).2 = next at he ⊢
  cases ending with
  | finished =>
      obtain ⟨rfl, hf⟩ := he
      refine ⟨hl.converses, .inl ⟨rfl, ?_⟩⟩
      intro other instruction hs
      obtain rfl := hlast hs
      rw [hl.consistent.not_finished hs.2.1] at hf
      cases hf
  | exhausted =>
      obtain ⟨rfl, hb⟩ := he
      refine ⟨hl.converses, .inl ⟨rfl, ?_⟩⟩
      intro other instruction hs
      exact (Nat.ne_of_lt hs.1 hb).elim
  | failed failure =>
      obtain ⟨hs, hb⟩ := he
      have htrace : next.trace = last.trace := by rw [step_eq_error hs]
      rw [htrace]
      refine ⟨hl.converses, ?_⟩
      rcases hl.consistent.failed_step hs with ⟨hnone, -⟩ | ⟨instruction, hi, hread, hkept⟩
      · obtain ⟨reached, hw, -, -⟩ := (within_restart hp hc).nth? hn
        rw [hw.program_eq] at hnone
        cases hnone
      · have hstop : m.StopsAt limit budget last instruction :=
          ⟨hb, hi, failure, hn, by rw [hs]⟩
        by_cases hd : (Decoded.ofText instruction.text).ReadsInput
        · refine .inr ⟨instruction, hstop, hd, ?_, ?_⟩
          · rw [hread hd]
            rfl
          · intro line hline
            exact not_number_of_failed_step hl.consistent hs hi hd hline
        · refine .inl ⟨by rw [hkept hd], ?_⟩
          intro other another ho
          obtain ⟨rfl, rfl⟩ := hstop.unique ho
          exact ⟨rfl, hd⟩

end

/-- The conversation of a run is what its instructions dictate. The inputs that complete take the
lines in order, and each puts the number of its line into its register. The lines of output are
those of the outputs that complete, in order. The lines that are left are those behind the lines
taken, and behind one more if the run stopped at an input that refused its line. There is a prompt
for each input that completed, and one more if the run stopped at an input that had its register.
Any other instruction that a run stops at has left the console as it was. -/
theorem conversation_of_history {room : Nat} {console : Console} {size : Int}
    {own : Option Int} {m : Machine}
    (h : create room console size own true = .ok m) (history : List Operation) {program : Program}
    (hp : (m.after history).program = some program) (limit : Option Int) (budget : Nat) :
    let s := m.after history
    let next := (s.run limit budget).2
    let inputs := next.trace.toList.filter (·.isInput)
    let outputs := next.trace.toList.filter (·.isOutput)
    (∀ (k : Nat) (entry : TraceEntry), inputs[k]? = some entry →
      ∃ line, s.console.pending[k]? = some line ∧ entry.Took line) ∧
    (∃ written, next.console.outputs = s.console.outputs ++ written ∧
      outputs.map (·.line?) = written.map some) ∧
    (∃ d, next.console.pending = s.console.pending.drop (inputs.length + d) ∧
      (d = 1 ∧ s.StopsRefusing limit budget ∨ d = 0 ∧ ¬s.StopsRefusing limit budget)) ∧
    (∃ p, next.console.prompts =
        s.console.prompts ++ List.replicate (inputs.length + p) inputPrompt ∧
      (p = 1 ∧ (s.StopsRefusing limit budget ∨ s.StopsWaiting limit budget) ∨
        p = 0 ∧ ∀ last instruction, s.StopsAt limit budget last instruction →
          ¬(Decoded.ofText instruction.text).ReadsInput)) ∧
    ∀ last instruction, s.StopsAt limit budget last instruction →
      ¬(Decoded.ofText instruction.text).ReadsInput → next.console = last.console := by
  intro s next inputs outputs
  have hs : s.Traces size true := (traces_create h).after history
  obtain ⟨last, hc, hend⟩ := hs.consistent.run_converses hs.tracing_eq hp limit budget
  refine ⟨hc.taken, ?_⟩
  rcases hend with ⟨hkept, hother⟩ | ⟨instruction, hstop, hd, hread, hrefused⟩
  · have hnext : next.console = last.console := hkept
    rw [hnext]
    refine ⟨hc.outputs, ⟨0, hc.pending, .inr ⟨rfl, ?_⟩⟩, ⟨0, hc.prompts, .inr ⟨rfl, ?_⟩⟩, ?_⟩
    · intro hr
      obtain ⟨other, instruction, line, ho, hd, -⟩ := hr
      exact (hother other instruction ho).2 hd
    · intro other instruction ho
      exact (hother other instruction ho).2
    · intro other instruction ho _
      rw [(hother other instruction ho).1]
  · have hnext : next.console = (last.console.readLine inputPrompt).2 := hread
    rw [hnext, Console.outputs_readLine]
    have hline := hstop.stopsRefusing_or_empty hd hrefused
    refine ⟨hc.outputs, ?_, ⟨1, hc.prompts_readLine, .inl ⟨rfl, ?_⟩⟩, ?_⟩
    · rcases hline with hr | ⟨hl, hr⟩
      · exact ⟨1, hc.pending_readLine, .inl ⟨rfl, hr⟩⟩
      · refine ⟨0, ?_, .inr ⟨rfl, hr⟩⟩
        have hempty : s.console.pending.drop inputs.length = [] := hc.pending.symm.trans hl
        rw [hc.pending_readLine, ← List.tail_drop]
        exact (congrArg List.tail hempty).trans hempty.symm
    · exact hline.imp_right fun hw => ⟨last, instruction, hstop, hd, hw.1⟩
    · intro other another ho hn
      obtain ⟨rfl, rfl⟩ := hstop.unique ho
      exact (hn hd).elim

/-- The second line is no number. It is taken all the same, and the run stops at it. -/
theorem conversation_of_history_refused :
    let history : List Operation :=
      [.loadLines ["again:", "IN R0", "ADD R0, R0, #1", "OUT R0", "B again"] "input"]
    let m : Machine :=
      { memory := Memory.zeroed 4 (by decide) (by decide)
        console := { pending := ["41", "x", "3"] }
        tracing := true }
    create 4 { pending := ["41", "x", "3"] } 4 none true = .ok m ∧
      ((m.after history).run (some 10) 0).2.console.pending = ["3"] ∧
      ((m.after history).run (some 10) 0).2.console.outputs = ["42"] ∧
      (m.after history).StopsRefusing (some 10) 0 := by
  intro history m
  have hm : create 4 { pending := ["41", "x", "3"] } 4 none true = .ok m := rfl
  have hp : (m.after history).program =
      some
        { instructions := #[{ text := "IN R0", line := 2 }, { text := "ADD R0, R0, #1", line := 3 },
                            { text := "OUT R0", line := 4 }, { text := "B again", line := 5 }]
          labels := { entries := [("again", 0)] } } := by
    decide +kernel
  obtain ⟨-, ⟨written, hw, hl⟩, ⟨d, hd, hr⟩, -⟩ :=
    conversation_of_history hm history hp (some 10) 0
  have hq : (m.after history).console = { pending := ["41", "x", "3"] } := by decide +kernel
  have hi : (((m.after history).run (some 10) 0).2.trace.toList.filter (·.isInput)).length = 1 := by
    decide +kernel
  have ho : (((m.after history).run (some 10) 0).2.trace.toList.filter (·.isOutput)).map (·.line?) =
      [some "42"] := by
    decide +kernel
  have hn : ((m.after history).run (some 10) 0).2.console.pending = ["3"] := by decide +kernel
  rw [ho] at hl
  rw [hq] at hw
  rw [hi, hq, hn] at hd
  refine ⟨hm, hn, ?_, ?_⟩
  · obtain rfl : written = ["42"] := (List.map_inj_right fun _ _ => Option.some.inj).1 hl.symm
    exact hw
  · rcases hr with ⟨-, hr⟩ | ⟨rfl, -⟩
    · exact hr
    · simp at hd

end Machine

end RegisterMachine
