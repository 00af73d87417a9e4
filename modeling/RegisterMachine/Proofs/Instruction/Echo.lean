import RegisterMachine.Proofs.Instruction.World
import RegisterMachine.Proofs.Storage
import RegisterMachine.Proofs.Word.Numeral

/-!
# Numbers over the console

Reading accepts the texts of the numeral grammar and gives the words that they denote, and what the
one console instruction writes the other reads back.
-/

namespace RegisterMachine

/-- An instruction with a register as its only argument. -/
def Decoded.Names (decoded : Decoded) (m : Mnemonic) (r : Register) : Prop :=
  decoded.mnemonic = m.name ∧
    ∃ token, decoded.arguments = [token] ∧ Register.ofToken token = .ok r

namespace Registry

section
variable {layout : Layout} {cpu : Cpu} {decoded : Decoded} {world : World} {r : Register}
  (hc : cpu.HoldsWords)
include hc

/-- Output writes the text of a register. -/
theorem execute_output (h : decoded.Names .output r) :
    standard.execute layout cpu decoded world =
      (.ok cpu.advance.countCycle,
        { world with console := world.console.writeLine (toString (cpu.value r)) }) := by
  obtain ⟨hm, token, ha, ht⟩ := h
  have he : Mnemonic.output.effect layout cpu world.memory.size decoded.arguments =
      .ok (.output (cpu.value r)) := by
    simp only [Mnemonic.effect, ha, registerValue, ht, bind, Except.bind, hc.read_eq r, orCrash_ok,
      checkWritable_value hc]
    rfl
  rw [execute_of_mnemonic hm, Mnemonic.handler_eq, he]
  rfl

/-- Input puts the word that the next line denotes into a register. -/
theorem execute_input (h : decoded.Names .input r) {line : String} {rest : List String} {v : Int}
    (hp : world.console.pending = line :: rest) (hv : Word.ofText line.toList = .ok (some v)) :
    standard.execute layout cpu decoded world =
      (.ok (cpu.put r v).advance.countCycle,
        { world with console := (world.console.readLine inputPrompt).2 }) := by
  obtain ⟨hm, token, ha, ht⟩ := h
  have he : Mnemonic.input.effect layout cpu world.memory.size decoded.arguments =
      .ok (.input r) := by
    simp only [Mnemonic.effect, ha, ht, bind, Except.bind]
    rfl
  have hr : world.readWord =
      (.ok v, { world with console := (world.console.readLine inputPrompt).2 }) := by
    simp only [World.readWord, Console.readLine, hp, List.head?_cons, wordOr, hv]
  rw [execute_of_mnemonic hm, Mnemonic.handler_eq, he]
  simp only [Effect.perform, hr, bind, Except.bind, hc.write_eq r v]
  rfl

end

end Registry

/-- A text is read by the grammar of numerals. One that is not blanks, a sign or none, digits and
blanks is no word. One that is denotes its number if it has no more digits than are allowed and no
separator beside them, and is a word if its number is one; otherwise reading it is an error. So the
text of a word is read as the word whatever padding it is given, and a line that was written by
output and is taken up by input puts the value of the one register into the other. -/
theorem numerals_read_and_echoed :
    (∀ text, (¬∃ numeral : Text.Numeral, numeral.Spells text) → Word.ofText text = .ok none) ∧
    (∀ text (numeral : Text.Numeral), numeral.Spells text →
      numeral.digits.length ≤ Text.maxDigits →
      (∀ c ∈ numeral.before ++ numeral.after, Text.isSeparator c = false) →
      Word.ofText text = .ok
        (if -2 ^ 31 ≤ numeral.number ∧ numeral.number ≤ 2 ^ 31 - 1 then some numeral.number
          else none)) ∧
    (∀ text (numeral : Text.Numeral), numeral.Spells text →
      (Text.maxDigits < numeral.digits.length ∨
        ∃ c ∈ numeral.before ++ numeral.after, Text.isSeparator c = true) →
      ∃ e, Word.ofText text = .error e) ∧
    (∀ (v : Int) (before after : List Char), -2 ^ 31 ≤ v → v ≤ 2 ^ 31 - 1 →
      Text.IsPadding before → Text.IsPadding after →
      Word.ofText (before ++ ((toString v).toList ++ after)) = .ok (some v)) ∧
    ∀ layout (cpu : Cpu) world (output : Decoded) r, cpu.HoldsWords → output.Names .output r →
      ∃ v, cpu.read r = .ok v ∧
        Registry.standard.execute layout cpu output world =
          (.ok cpu.advance.countCycle,
            { world with console := world.console.writeLine (toString v) }) ∧
        ∀ layout (reader : Cpu) (world : World) (input : Decoded) q before after rest,
          reader.HoldsWords → input.Names .input q → Text.IsPadding before →
          Text.IsPadding after →
          world.console.pending =
            String.ofList (before ++ ((toString v).toList ++ after)) :: rest →
          ∃ next reached,
            Registry.standard.execute layout reader input world = (.ok next, reached) ∧
              next.read q = .ok v ∧ reached.console.pending = rest := by
  have range {v : Int} : Word.inRange v = true ↔ -2 ^ 31 ≤ v ∧ v ≤ 2 ^ 31 - 1 := Word.inRange_iff
  refine ⟨fun text => Word.ofText_of_not_spelled, fun text numeral h hl hs => ?_,
    fun text numeral h he => Word.ofText_eq_error_iff_spells.2 ⟨numeral, h, he⟩,
    fun v before after hlow hhigh hb ha => Word.ofText_padded (range.2 ⟨hlow, hhigh⟩) hb ha,
    fun layout cpu world output r hc ho => ?_⟩
  · simpa only [range] using Word.ofText_of_spells h hl hs
  · refine ⟨cpu.value r, hc.read_eq r, Registry.execute_output hc ho, ?_⟩
    intro layout reader world input q before after rest hr hi hb ha hp
    have hv := Word.ofText_padded (hc.inRange_value r) hb ha
    rw [← String.toList_ofList (l := before ++ _)] at hv
    refine ⟨_, _, Registry.execute_input hr hi hp hv, ?_, ?_⟩
    · calc ((reader.put q (cpu.value r)).advance.countCycle).read q
          = (reader.put q (cpu.value r)).read q := Cpu.read_retired _ false q
        _ = .ok (Word.wrap (cpu.value r)) := Cpu.read_write_self (hr.write_eq q _)
        _ = .ok (cpu.value r) := by rw [Word.wrap_of_inRange (hc.inRange_value r)]
    · simp [Console.readLine, hp]

/-- A numeral with a blank, a sign and leading zeros, a text of another form, numerals that are too
large, beside a separator and too long; and a register that is written by output and read by input
with blanks around it. -/
theorem numerals_read_and_echoed_padded :
    let source : Register := ⟨1, by decide⟩
    let destination : Register := ⟨2, by decide⟩
    let layout : Layout := { length := 2 }
    let cpu := Cpu.initial.put source (-7)
    let world : World := { memory := .standard, console := { pending := ["\t-7 "] } }
    Word.ofText "1_0".toList = .ok none ∧
      Word.ofText "\u00a0-007\n".toList = .ok (some (-7)) ∧
      Word.ofText "2147483648".toList = .ok none ∧
      (∃ e, Word.ofText "\x1c1".toList = .error e) ∧
      (∃ e, Word.ofText (List.replicate 4301 '0') = .error e) ∧
      Word.ofText "  -2147483648".toList = .ok (some (-2147483648)) ∧
      Registry.standard.execute layout cpu (.ofText "OUT R1") world =
        (.ok cpu.advance.countCycle,
          { world with console := world.console.writeLine "-7" }) ∧
      ∃ next reached,
        Registry.standard.execute layout .initial (.ofText "IN R2") world =
          (.ok next, reached) ∧ next.read destination = .ok (-7) := by
  intro source destination layout cpu world
  obtain ⟨hnone, hword, herror, hpadded, hecho⟩ := numerals_read_and_echoed
  have hcpu : cpu.HoldsWords := Cpu.holdsWords_initial.put source (-7)
  have hout : (Decoded.ofText "OUT R1").Names .output source :=
    ⟨by decide, "R1", by decide, by decide⟩
  have hin : (Decoded.ofText "IN R2").Names .input destination :=
    ⟨by decide, "R2", by decide, by decide⟩
  obtain ⟨v, hv, hwritten, hread⟩ := hecho layout cpu world _ source hcpu hout
  obtain rfl : v = -7 := Except.ok.inj (hv.symm.trans (by decide))
  obtain ⟨next, reached, hexecuted, hnext, -⟩ :=
    hread layout .initial world _ destination ['\t'] [' '] [] Cpu.holdsWords_initial hin
      (List.forall_mem_singleton.2 (by decide)) (List.forall_mem_singleton.2 (by decide)) rfl
  have hseparator : ∃ c ∈ ['\x1c'], Text.isSeparator c = true :=
    ⟨_, List.mem_singleton_self _, by decide⟩
  refine ⟨hnone _ ?_, ?_, ?_, herror _ ⟨['\x1c'], false, ['1'], []⟩ ?_ (.inr hseparator),
    herror _ ⟨[], false, List.replicate 4301 '0', []⟩ ?_ (.inl ?_), ?_, hwritten, next, reached,
    hexecuted, hnext⟩
  · rintro ⟨numeral, h⟩
    have hn : Text.Numeral.ofText? "1_0".toList = none := by decide
    cases hn.symm.trans (Text.Numeral.ofText?_of_spells h)
  · refine hword _ ⟨['\u00a0'], true, "007".toList, ['\n']⟩ ?_ (by decide)
      (by simp [Text.isSeparator])
    exact ⟨List.all_eq_true.1 (by decide), List.all_eq_true.1 (by decide), by decide,
      List.all_eq_true.1 (by decide), ['-'], .minus, by decide⟩
  · refine hword _ ⟨[], false, "2147483648".toList, []⟩ ?_ (by decide) nofun
    exact ⟨nofun, List.all_eq_true.1 (by decide), by decide, nofun, [], .none, by decide⟩
  · exact ⟨List.all_eq_true.1 (by decide), List.all_eq_true.1 (by decide), by decide, nofun, [],
      .none, by decide⟩
  · refine ⟨nofun, fun c hc => ?_, fun hn => ?_, nofun, [], .none, (List.append_nil _).symm⟩
    · rw [List.eq_of_mem_replicate hc]
      decide
    · cases (List.replicate_eq_nil_iff '0').1 hn
  · rw [List.length_replicate]
    decide
  · exact hpadded (-2147483648) [' ', ' '] [] (by decide) (by decide)
      (by simp [Text.IsPadding, Text.isBlank, Text.isSeparator]) nofun

end RegisterMachine
