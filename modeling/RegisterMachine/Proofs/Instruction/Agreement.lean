import RegisterMachine.Proofs.Instruction.World

/-!
# What an instruction depends on

Of an instruction only its tokens matter, and of the world around the processor only the memory and
the lines that wait to be read. What the console has shown before makes no difference, and lines
that wait behind those that an instruction reads make none as long as it gets what it reads.
-/

namespace RegisterMachine

/-! ## Tokens -/

/-- What an instruction says, however it is written: its mnemonic and its arguments. -/
structure Tokens where
  mnemonic : String
  arguments : List String
  deriving DecidableEq, Repr

def Decoded.tokens (decoded : Decoded) : Tokens :=
  { mnemonic := decoded.mnemonic, arguments := decoded.arguments }

theorem Registry.execute_of_tokens_eq {decoded other : Decoded} (h : decoded.tokens = other.tokens)
    (registry : Registry) (layout : Layout) (cpu : Cpu) (world : World) :
    registry.execute layout cpu decoded world = registry.execute layout cpu other world := by
  have hm : decoded.mnemonic = other.mnemonic := congrArg Tokens.mnemonic h
  have ha : decoded.arguments = other.arguments := congrArg Tokens.arguments h
  simp only [execute, hm, ha]

/-! ## Worlds that agree -/

/-- Two worlds have the same memory and the same lines to be read. Since two records of what was
shown, the same has been shown in both. -/
structure World.Agree (shown shown' : Array Shown) (w w' : World) : Prop where
  memory_eq : w.memory = w'.memory
  pending_eq : w.console.pending = w'.console.pending
  added : ∃ more, w.console.shown = shown ++ more ∧ w'.console.shown = shown' ++ more

section
variable {shown shown' : Array Shown} {w w' : World} (h : World.Agree shown shown' w w')
include h

theorem World.Agree.push (item : Shown) :
    ∃ more, w.console.shown.push item = shown ++ more ∧
      w'.console.shown.push item = shown' ++ more := by
  obtain ⟨more, hw, hw'⟩ := h.added
  refine ⟨more.push item, ?_, ?_⟩
  · rw [hw, Array.append_push]
  · rw [hw', Array.append_push]

/-- The same lines of one sort have been added to both. -/
theorem World.Agree.added_lines (f : Shown → Option String) :
    ∃ lines, w.console.shown.toList.filterMap f = shown.toList.filterMap f ++ lines ∧
      w'.console.shown.toList.filterMap f = shown'.toList.filterMap f ++ lines := by
  obtain ⟨more, hw, hw'⟩ := h.added
  refine ⟨more.toList.filterMap f, ?_, ?_⟩
  · rw [hw, Array.toList_append, List.filterMap_append]
  · rw [hw', Array.toList_append, List.filterMap_append]

theorem World.Agree.readWord :
    w.readWord.1 = w'.readWord.1 ∧ World.Agree shown shown' w.readWord.2 w'.readWord.2 := by
  refine ⟨?_, h.memory_eq, congrArg List.tail h.pending_eq, h.push (.prompt inputPrompt)⟩
  simp only [World.readWord, Console.readLine, h.pending_eq]

/-- An effect does the same in worlds that agree, and they agree afterwards. -/
theorem Effect.perform_agree (effect : Effect) (cpu : Cpu) :
    (effect.perform cpu w).1 = (effect.perform cpu w').1 ∧
      World.Agree shown shown' (effect.perform cpu w).2 (effect.perform cpu w').2 := by
  cases effect with
  | set r v => exact ⟨rfl, h⟩
  | load r address =>
      refine ⟨?_, h⟩
      simp only [perform, h.memory_eq]
  | store address v =>
      simp only [perform, h.memory_eq]
      cases w'.memory.write address v with
      | error reason => exact ⟨rfl, h⟩
      | ok memory => exact ⟨rfl, rfl, h.pending_eq, h.added⟩
  | compare left right => exact ⟨rfl, h⟩
  | jump target => exact ⟨rfl, h⟩
  | input r =>
      obtain ⟨hread, hafter⟩ := h.readWord
      refine ⟨?_, hafter⟩
      simp only [perform, hread]
  | output v => exact ⟨rfl, h.memory_eq, h.pending_eq, h.push (.output (toString v))⟩

theorem Mnemonic.handler_agree (m : Mnemonic) (layout : Layout) (cpu : Cpu)
    (arguments : List String) :
    (m.handler layout cpu arguments w).1 = (m.handler layout cpu arguments w').1 ∧
      World.Agree shown shown' (m.handler layout cpu arguments w).2
        (m.handler layout cpu arguments w').2 := by
  simp only [handler_eq, h.memory_eq]
  cases m.effect layout cpu w'.memory.size arguments with
  | error failure => exact ⟨rfl, h⟩
  | ok effect => exact effect.perform_agree h cpu

/-- Instructions with the same tokens do the same in worlds that agree. -/
theorem Registry.execute_agree {decoded other : Decoded} (ht : decoded.tokens = other.tokens)
    {layout : Layout} {cpu : Cpu} {result : Except (Failure Fault) Cpu} {after : World}
    (hx : standard.execute layout cpu decoded w = (result, after)) :
    ∃ after', standard.execute layout cpu other w' = (result, after') ∧
      World.Agree shown shown' after after' := by
  rw [execute_of_tokens_eq ht] at hx
  by_cases hm : ∃ m : Mnemonic, other.mnemonic = m.name
  · obtain ⟨m, hm⟩ := hm
    obtain ⟨hr, hw⟩ := m.handler_agree h layout cpu other.arguments
    rw [execute_of_mnemonic hm] at hx ⊢
    cases hx
    rw [hr]
    exact ⟨_, rfl, hw⟩
  · have hn (m : Mnemonic) : other.mnemonic ≠ m.name := fun he => hm ⟨m, he⟩
    rw [execute_of_not_mnemonic hn] at hx ⊢
    cases hx
    exact ⟨_, rfl, h⟩

end

/-! ## More lines to read -/

def World.feed (world : World) (lines : List String) : World :=
  { world with console := world.console.feed lines }

theorem Console.readLine_feed {console : Console} {line : String}
    (h : console.pending.head? = some line) (lines : List String) (prompt : String) :
    (console.feed lines).readLine prompt =
      (some line, (console.readLine prompt).2.feed lines) := by
  obtain ⟨rest, hr⟩ := List.head?_eq_some_iff.1 h
  simp [readLine, feed, hr]

section
variable {cpu next : Cpu} {world after : World} (lines : List String)

/-- An effect that has been carried out gets the same if there is more to read. -/
theorem Effect.perform_feed {effect : Effect} (h : effect.perform cpu world = (.ok next, after)) :
    effect.perform cpu (world.feed lines) = (.ok next, after.feed lines) := by
  cases effect with
  | set r v =>
      obtain ⟨hw, rfl⟩ := done_of_perform h
      simp only [perform, hw, orCrash_ok]
  | load r address =>
      obtain ⟨v, hv, hw, rfl⟩ := done_of_perform h
      simp only [perform, World.feed, hv, bind, Except.bind, hw, orCrash_ok]
  | store address v =>
      obtain ⟨memory, hm, rfl, rfl⟩ := done_of_perform h
      simp only [perform, World.feed, hm]
  | compare left right =>
      cases h
      rfl
  | jump target =>
      cases h
      rfl
  | input r =>
      obtain ⟨line, v, hl, hv, hw, rfl⟩ := done_of_perform h
      simp only [perform, World.readWord, World.feed, Console.readLine_feed hl, wordOr, hv, bind,
        Except.bind, hw, orCrash_ok]
  | output v =>
      cases h
      rfl

theorem Registry.execute_feed {layout : Layout} {decoded : Decoded}
    (h : standard.execute layout cpu decoded world = (.ok next, after)) :
    standard.execute layout cpu decoded (world.feed lines) = (.ok next, after.feed lines) := by
  obtain ⟨m, effect, carried, hm, he, hp, rfl⟩ := execute_eq_ok h
  have hsize : (world.feed lines).memory.size = world.memory.size := rfl
  rw [execute_of_mnemonic hm]
  simp only [Mnemonic.handler_eq, hsize, he, Effect.perform_feed lines hp, Except.map]

end

end RegisterMachine
