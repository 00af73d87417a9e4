import RegisterMachine.Proofs.Machine.Independence

/-!
# What is taken from the console

Lines wait at the console, and a run takes some of them from the front. Those behind them matter to
it only if it runs out of lines: a run that leaves some of the lines behind it would have gone the
same way with any others in their place.
-/

namespace RegisterMachine

/-! ## Lines asked for and taken -/

/-- A console has come about from another one by asking for lines of input and taking those that
there are, whatever else was shown. -/
def Console.Consulted (start now : Console) : Prop :=
  ∃ n, now.pending = start.pending.drop n ∧
    now.prompts = start.prompts ++ List.replicate n inputPrompt

namespace Console.Consulted

theorem refl (console : Console) : Consulted console console :=
  ⟨0, by simp, by simp⟩

theorem trans {a b c : Console} (h : Consulted a b) (h' : Consulted b c) : Consulted a c := by
  obtain ⟨n, hp, hn⟩ := h
  obtain ⟨k, hp', hk⟩ := h'
  refine ⟨n + k, ?_, ?_⟩
  · rw [hp', hp, List.drop_drop]
  · rw [hk, hn, List.append_assoc, List.replicate_append_replicate]

theorem readLine (console : Console) : Consulted console (console.readLine inputPrompt).2 :=
  ⟨1, List.drop_one.symm, Console.prompts_readLine console inputPrompt⟩

theorem writeLine (console : Console) (text : String) :
    Consulted console (console.writeLine text) :=
  ⟨0, rfl, by simp⟩

theorem length_le {start now : Console} (h : Consulted start now) :
    now.pending.length ≤ start.pending.length := by
  obtain ⟨n, hp, -⟩ := h
  rw [hp, List.length_drop]
  omega

/-- Lines are taken for as many prompts as there are lines, and those that got none stand behind
the others. -/
theorem exists_taken {start now : Console} (h : Consulted start now) :
    ∃ taken n, start.pending = taken ++ now.pending ∧
      now.prompts = start.prompts ++ List.replicate (taken.length + n) inputPrompt ∧
      (now.pending = [] ∨ n = 0) := by
  obtain ⟨n, hpending, hprompts⟩ := h
  refine ⟨start.pending.take n, n - start.pending.length, ?_, ?_, ?_⟩
  · rw [hpending, List.take_append_drop]
  · have hlength : (start.pending.take n).length + (n - start.pending.length) = n := by
      rw [List.length_take]
      omega
    rw [hprompts, hlength]
  · by_cases hle : start.pending.length ≤ n
    · exact .inl (hpending.trans (List.drop_eq_nil_of_le hle))
    · exact .inr (by omega)

end Console.Consulted

section
variable (cpu : Cpu) (world : World)

theorem Effect.consulted_of_perform (effect : Effect) :
    Console.Consulted world.console (effect.perform cpu world).2.console := by
  cases effect with
  | set r v => exact .refl _
  | load r address => exact .refl _
  | store address v =>
      simp only [perform]
      split <;> exact .refl _
  | compare left right => exact .refl _
  | jump target => exact .refl _
  | input r => exact .readLine _
  | output v => exact .writeLine _ _

theorem Registry.consulted_of_execute (layout : Layout) (decoded : Decoded) :
    Console.Consulted world.console (standard.execute layout cpu decoded world).2.console := by
  by_cases hm : ∃ m : Mnemonic, decoded.mnemonic = m.name
  · obtain ⟨m, hm⟩ := hm
    rw [execute_of_mnemonic hm]
    simp only [Mnemonic.handler_eq]
    split
    next => exact .refl _
    next effect _ => exact effect.consulted_of_perform cpu world
  · have hn (m : Mnemonic) : decoded.mnemonic ≠ m.name := fun he => hm ⟨m, he⟩
    rw [execute_of_not_mnemonic hn]
    exact .refl _

end

/-! ## Lines that are not reached -/

section
variable (cpu : Cpu) (world : World)

/-- An effect does not see lines behind those that it could have read, unless it reads where there
is none. -/
theorem Effect.perform_feed_cases (effect : Effect) :
    (∀ lines, effect.perform cpu (world.feed lines) =
      ((effect.perform cpu world).1, (effect.perform cpu world).2.feed lines)) ∨
    ∀ lines, (effect.perform cpu (world.feed lines)).2.console.pending = lines.tail := by
  cases effect with
  | set r v => exact .inl fun lines => rfl
  | load r address => exact .inl fun lines => rfl
  | store address v =>
      refine .inl fun lines => ?_
      simp only [perform, World.feed]
      split <;> rfl
  | compare left right => exact .inl fun lines => rfl
  | jump target => exact .inl fun lines => rfl
  | input r =>
      cases hp : world.console.pending with
      | nil =>
          refine .inr fun lines => ?_
          simp only [perform, World.readWord, World.feed, Console.feed, Console.readLine, hp,
            List.nil_append]
      | cons line rest =>
          have hl : world.console.pending.head? = some line := by rw [hp, List.head?_cons]
          refine .inl fun lines => ?_
          simp only [perform, World.readWord, World.feed, Console.readLine_feed hl]
          simp only [Console.readLine, hl]
  | output v => exact .inl fun lines => rfl

theorem Registry.execute_feed_cases (layout : Layout) (decoded : Decoded) :
    (∀ lines, standard.execute layout cpu decoded (world.feed lines) =
      ((standard.execute layout cpu decoded world).1,
        (standard.execute layout cpu decoded world).2.feed lines)) ∨
    ∀ lines, (standard.execute layout cpu decoded (world.feed lines)).2.console.pending =
      lines.tail := by
  by_cases hm : ∃ m : Mnemonic, decoded.mnemonic = m.name
  · obtain ⟨m, hm⟩ := hm
    simp only [execute_of_mnemonic hm]
    have hsize (lines : List String) : (world.feed lines).memory.size = world.memory.size := rfl
    simp only [Mnemonic.handler_eq, hsize]
    cases m.effect layout cpu world.memory.size decoded.arguments with
    | error failure => exact .inl fun lines => rfl
    | ok effect =>
        rcases effect.perform_feed_cases cpu world with h | h
        · exact .inl fun lines => by simp only [h]
        · exact .inr h
  · have hn (m : Mnemonic) : decoded.mnemonic ≠ m.name := fun he => hm ⟨m, he⟩
    simp only [execute_of_not_mnemonic hn]
    exact .inl fun lines => trivial

end

namespace Machine

/-! ## Steps -/

theorem consulted_of_executeAt (m : Machine) (program : Program) (cpu : Cpu)
    (instruction : Instruction) :
    Console.Consulted m.console (m.executeAt program cpu instruction).2.console := by
  have hx := Registry.consulted_of_execute cpu m.toWorld program.layout
    (Decoded.ofText instruction.text)
  unfold executeAt
  dsimp only
  -- The goal is about what is projected out of pairs; opening the registry there is slow.
  generalize Registry.standard.execute program.layout cpu (Decoded.ofText instruction.text)
    m.toWorld = executed at hx ⊢
  split
  next => exact hx
  next =>
    split
    · rw [complete_eq]
      exact hx
    · exact hx

theorem consulted_of_step (m : Machine) : Console.Consulted m.console m.step.2.console := by
  unfold step
  split
  next program cpu _ _ =>
    split
    · exact .refl _
    · split
      next => exact .refl _
      next instruction _ =>
        have hx := m.consulted_of_executeAt program cpu instruction
        generalize m.executeAt program cpu instruction = executed at hx ⊢
        exact hx
  next => exact .refl _

theorem executeAt_feed_cases (m : Machine) (program : Program) (cpu : Cpu)
    (instruction : Instruction) :
    (∀ lines, (m.feed lines).executeAt program cpu instruction =
      ((m.executeAt program cpu instruction).1,
        (m.executeAt program cpu instruction).2.feed lines)) ∨
    ∀ lines, ((m.feed lines).executeAt program cpu instruction).2.console.pending =
      lines.tail := by
  have hworld (lines : List String) : (m.feed lines).toWorld = m.toWorld.feed lines := rfl
  rcases Registry.execute_feed_cases cpu m.toWorld program.layout
      (Decoded.ofText instruction.text) with h | h
  · refine .inl fun lines => ?_
    unfold executeAt
    simp only [hworld, h]
    generalize Registry.standard.execute program.layout cpu (Decoded.ofText instruction.text)
      m.toWorld = executed
    split
    next => rfl
    next =>
      split
      · simp only [complete_eq]
        rfl
      · rfl
  · refine .inr fun lines => ?_
    have hl := h lines
    unfold executeAt
    simp only [hworld]
    generalize Registry.standard.execute program.layout cpu (Decoded.ofText instruction.text)
      (m.toWorld.feed lines) = executed at hl ⊢
    split
    next => exact hl
    next =>
      split
      · rw [complete_eq]
        exact hl
      · exact hl

theorem step_feed_cases (m : Machine) :
    (∀ lines, (m.feed lines).step = (m.step.1, m.step.2.feed lines)) ∨
    ∀ lines, (m.feed lines).step.2.console.pending = lines.tail := by
  have hp (lines : List String) : (m.feed lines).program = m.program := rfl
  have hc (lines : List String) : (m.feed lines).cpu = m.cpu := rfl
  unfold step
  simp only [hp, hc]
  split
  next program cpu _ _ =>
    split
    · exact .inl fun lines => rfl
    · split
      next => exact .inl fun lines => rfl
      next instruction _ =>
        rcases m.executeAt_feed_cases program cpu instruction with h | h
        · exact .inl fun lines => by simp only [h]
        · refine .inr fun lines => ?_
          have hl := h lines
          generalize (m.feed lines).executeAt program cpu instruction = executed at hl ⊢
          exact hl
  next => exact .inl fun lines => rfl

/-! ## Iterations -/

theorem consulted_of_iterate (m : Machine) (budget : Nat) :
    Console.Consulted m.console (m.iterate budget).2.console := by
  induction budget generalizing m with
  | zero =>
      unfold iterate
      split <;> exact .refl _
  | succ budget ih =>
      have hstep := m.consulted_of_step
      cases hf : m.isFinished with
      | true =>
          rw [iterate_of_isFinished hf]
          exact .refl _
      | false =>
          cases hs : m.step with
          | mk result next =>
              rw [hs] at hstep
              cases result with
              | error failure =>
                  rw [iterate_succ_of_step_error hf hs]
                  exact hstep
              | ok entry =>
                  rw [iterate_succ_of_step_ok hf hs]
                  exact hstep.trans (ih next)

/-- Lines behind those that an iteration could have read are not seen by it, or the iteration goes
on to read them. -/
theorem iterate_feed_cases (m : Machine) (budget : Nat) :
    (∀ lines, (m.feed lines).iterate budget =
      ((m.iterate budget).1, (m.iterate budget).2.feed lines)) ∨
    ∀ lines, lines ≠ [] →
      ((m.feed lines).iterate budget).2.console.pending.length < lines.length := by
  induction budget generalizing m with
  | zero =>
      refine .inl fun lines => ?_
      have hfeed : (m.feed lines).isFinished = m.isFinished := rfl
      cases hf : m.isFinished with
      | true => rw [iterate_of_isFinished hf, iterate_of_isFinished (hfeed.trans hf)]
      | false => rw [iterate_zero hf, iterate_zero (hfeed.trans hf)]
  | succ budget ih =>
      have hfeed (lines : List String) : (m.feed lines).isFinished = m.isFinished := rfl
      cases hf : m.isFinished with
      | true =>
          refine .inl fun lines => ?_
          rw [iterate_of_isFinished hf, iterate_of_isFinished ((hfeed lines).trans hf)]
      | false =>
          rcases m.step_feed_cases with hsame | hread
          · cases hs : m.step with
            | mk result next =>
                simp only [hs] at hsame
                cases result with
                | error failure =>
                    refine .inl fun lines => ?_
                    rw [iterate_succ_of_step_error hf hs,
                      iterate_succ_of_step_error ((hfeed lines).trans hf) (hsame lines)]
                | ok entry =>
                    have hnext (lines : List String) :
                        (m.feed lines).iterate (budget + 1) = (next.feed lines).iterate budget :=
                      iterate_succ_of_step_ok ((hfeed lines).trans hf) (hsame lines) budget
                    simp only [hnext, iterate_succ_of_step_ok hf hs]
                    exact ih next
          · refine .inr fun lines hn => ?_
            -- The step has taken the first of the lines, and the steps behind it take no less.
            have htail : lines.tail.length < lines.length := by
              rw [List.length_tail]
              have hpos := List.length_pos_of_ne_nil hn
              omega
            cases hs : (m.feed lines).step with
            | mk result next =>
                have hpending := hread lines
                rw [hs] at hpending
                cases result with
                | error failure =>
                    rw [iterate_succ_of_step_error ((hfeed lines).trans hf) hs, hpending]
                    exact htail
                | ok entry =>
                    rw [iterate_succ_of_step_ok ((hfeed lines).trans hf) hs]
                    have hle := (next.consulted_of_iterate budget).length_le
                    rw [hpending] at hle
                    omega

/-! ## Runs -/

theorem consulted_of_run (m : Machine) (limit : Option Int) (budget : Nat) :
    Console.Consulted m.console (m.run limit budget).2.console := by
  unfold run
  split
  · cases limit.or m.limit with
    | some bound => exact m.restart.consulted_of_iterate bound.toNat
    | none => exact m.restart.consulted_of_iterate budget
  · exact .refl _

theorem resultOf_feed (m : Machine) (lines : List String) (limit : Option Int) (ending : Ending) :
    (m.feed lines).resultOf limit ending = m.resultOf limit ending := by
  cases ending with
  | finished => rfl
  | failed failure => cases failure <;> rfl
  | exhausted => rfl

section
variable {m : Machine} {program : Program} {cpu : Cpu} (hp : m.program = some program)
  (hc : m.cpu = some cpu) (limit : Option Int) (budget : Nat)
include hp hc

/-- What the console has shown before a run makes no difference to it. -/
theorem run_of_pending_eq {console : Console} (h : m.console.pending = console.pending) :
    RunsAlike m { m with console } (m.run limit budget) ({ m with console }.run limit budget) := by
  have hs : SameStart m { m with console } :=
    ⟨rfl, rfl, rfl, rfl, h, by simp [hp]⟩
  obtain ⟨he, hn⟩ := hs.restart.iterate (m.allowance limit budget)
  cases hi : m.restart.iterate (m.allowance limit budget) with
  | mk ending s =>
      cases hi' : ({ m with console } : Machine).restart.iterate (m.allowance limit budget) with
      | mk ending' s' =>
          rw [hi, hi'] at he hn
          obtain rfl : ending = ending' := he
          have hp' : ({ m with console } : Machine).program = some program := hp
          rw [run_of_iterate hp hc hi, run_of_iterate hp' hc hi']
          exact hn.runsAlike _ ending

/-- A run that leaves lines behind would have left any others in their place, and done the same. -/
theorem run_feed_of_rest {rest : List String} (hn : rest ≠ [])
    (hr : ((m.feed rest).run limit budget).2.console.pending = rest) :
    ∃ (outcome : Option (Except Crash RunResult)) (next : Machine), next.console.pending = [] ∧
      ∀ lines, (m.feed lines).run limit budget = (outcome, next.feed lines) := by
  have hrun (lines : List String) {ending : Ending} {s : Machine}
      (hi : (m.feed lines).restart.iterate (m.allowance limit budget) = (ending, s)) :=
    run_of_iterate (m := m.feed lines) hp hc hi
  have hrestart (lines : List String) : (m.feed lines).restart = m.restart.feed lines := rfl
  rcases m.restart.iterate_feed_cases (m.allowance limit budget) with hsame | hread
  · cases hi : m.restart.iterate (m.allowance limit budget) with
    | mk ending next =>
        have hall (lines : List String) : (m.feed lines).run limit budget =
            (next.resultOf (limit.or m.limit) ending, next.feed lines) := by
          have hl := hsame lines
          rw [hi, ← hrestart] at hl
          rw [hrun lines hl, resultOf_feed]
          rfl
        refine ⟨_, next, ?_, hall⟩
        rw [hall rest] at hr
        exact List.append_left_eq_self.1 hr
  · have hlt := hread rest hn
    rw [← hrestart] at hlt
    rw [hrun rest rfl] at hr
    rw [hr] at hlt
    exact (Nat.lt_irrefl _ hlt).elim

/-- A run takes the same lines from the front of another console, and does the same with them, if
that console has lines left where the first one has. -/
theorem run_of_taken {console : Console} {taken rest rest' : List String}
    (ha : m.console.pending = taken ++ rest) (hb : console.pending = taken ++ rest')
    (hr : rest = [] → rest' = []) (he : (m.run limit budget).2.console.pending = rest) :
    ({ m with console }.run limit budget).1 = (m.run limit budget).1 ∧
      ({ m with console }.run limit budget).2.memory = (m.run limit budget).2.memory ∧
      ({ m with console }.run limit budget).2.console.pending = rest' ∧
      ∃ written, (m.run limit budget).2.console.outputs = m.console.outputs ++ written ∧
        ({ m with console }.run limit budget).2.console.outputs = console.outputs ++ written := by
  by_cases hn : rest = []
  · -- Nothing is left, so that the two consoles have the same lines.
    obtain rfl := hr hn
    have hsame := run_of_pending_eq hp hc limit budget (show m.console.pending = console.pending by
      rw [ha, hb, hn])
    exact ⟨(hsame.traced rfl).symm, hsame.memory.symm, by rw [← hsame.pending, he, hn],
      hsame.outputs⟩
  · let front : Machine := { m with console := { m.console with pending := taken } }
    have hfront : front.feed rest = m := by
      simp only [front, feed, Console.feed, ← ha]
    have hrest : ((front.feed rest).run limit budget).2.console.pending = rest := by rw [hfront, he]
    obtain ⟨outcome, next, hempty, hall⟩ :=
      run_feed_of_rest (m := front) hp hc limit budget hn hrest
    have hm := hall rest
    rw [hfront] at hm
    have hsame := run_of_pending_eq (m := front.feed rest') hp hc limit budget hb.symm
    rw [hall rest'] at hsame
    rw [hm]
    refine ⟨(hsame.traced rfl).symm, hsame.memory.symm, ?_, hsame.outputs⟩
    have hpending := hsame.pending
    simp only [feed, Console.feed, hempty, List.nil_append] at hpending
    exact hpending.symm

end

end Machine

end RegisterMachine
