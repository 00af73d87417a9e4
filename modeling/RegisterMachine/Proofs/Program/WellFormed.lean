import RegisterMachine.Instruction.Decoded
import RegisterMachine.Program.Source
import RegisterMachine.Proofs.Text.Blank

/-!
# Loaded programs

What is known of a program because it was read from a source: its labels lie within it, in the order
in which they were declared, its line numbers ascend, and each of its instructions has one of the
twenty mnemonics.
-/

namespace RegisterMachine

def Instruction.Dispatchable (instruction : Instruction) : Prop :=
  ∃ m : Mnemonic, (Decoded.ofText instruction.text).mnemonic = m.name

structure Program.WellFormed (program : Program) : Prop where
  label_bounds : ∀ entry ∈ program.labels.entries, 0 ≤ entry.2 ∧ entry.2 ≤ program.length
  labels_ascend : program.labels.entries.Pairwise fun a b => a.2 ≤ b.2
  line_pos : ∀ instruction ∈ program.instructions.toList, 1 ≤ instruction.line
  lines_ascend : program.instructions.toList.Pairwise fun a b => a.line < b.line
  dispatchable : ∀ instruction ∈ program.instructions.toList, instruction.Dispatchable

/-! ## Source lines -/

theorem SourceLine.ofText_eq_instruction {line text : String}
    (h : SourceLine.ofText line = .instruction text) :
    text = String.ofList (Text.trim line.toList) ∧
      ∃ m : Mnemonic, m.name = String.ofList (Text.firstWord (Text.trim line.toList)) := by
  unfold SourceLine.ofText at h
  dsimp only at h
  split at h
  · cases h
  · split at h
    next hm =>
      cases h
      obtain ⟨m, hm⟩ := Option.isSome_iff_exists.1 hm
      exact ⟨rfl, m, Mnemonic.name_of_ofName? hm⟩
    next =>
      split at h <;> cases h

/-- The mnemonic that makes a line an instruction is the one that its text is decoded to. -/
theorem SourceLine.mnemonic_of_instruction {line text : String}
    (h : SourceLine.ofText line = .instruction text) :
    (Decoded.ofText text).mnemonic = String.ofList (Text.firstWord (Text.trim line.toList)) := by
  obtain ⟨rfl, -⟩ := SourceLine.ofText_eq_instruction h
  simp only [Decoded.ofText, String.toList_ofList, Text.trim_trim]

theorem SourceLine.dispatchable_of_instruction {line text : String}
    (h : SourceLine.ofText line = .instruction text) (number : Int) :
    ({ text, line := number } : Instruction).Dispatchable := by
  obtain ⟨-, m, hm⟩ := SourceLine.ofText_eq_instruction h
  exact ⟨m, (SourceLine.mnemonic_of_instruction h).trans hm.symm⟩

theorem Labels.mem_of_find? {labels : Labels} {name : String} {target : Int}
    (h : labels.find? name = some target) : (name, target) ∈ labels.entries := by
  obtain ⟨front, back, he, -⟩ := List.lookup_eq_some_iff.1 h
  rw [he]
  exact List.mem_append_right _ List.mem_cons_self

namespace Program

/-! ## Reading a source -/

/-- A well formed program of lines in front of the one with a number. -/
structure Before (program : Program) (number : Nat) : Prop where
  wellFormed : program.WellFormed
  line_lt : ∀ instruction ∈ program.instructions.toList, instruction.line < number

theorem before_empty (number : Nat) : Before {} number where
  wellFormed :=
    { label_bounds := nofun
      labels_ascend := .nil
      line_pos := nofun
      lines_ascend := .nil
      dispatchable := nofun }
  line_lt := nofun

theorem Before.succ {program : Program} {number : Nat} (h : program.Before number) :
    program.Before (number + 1) where
  wellFormed := h.wellFormed
  line_lt instruction hi := by
    have := h.line_lt instruction hi
    omega

theorem Before.push {program : Program} {number : Nat} (h : program.Before number)
    (hn : 1 ≤ number) {text : String}
    (hd : ({ text, line := number } : Instruction).Dispatchable) :
    Before { program with instructions := program.instructions.push { text, line := number } }
      (number + 1) := by
  have hw := h.wellFormed
  refine ⟨⟨?_, hw.labels_ascend, ?_, ?_, ?_⟩, ?_⟩
  · intro entry he
    have hb := hw.label_bounds entry he
    have hl : program.length ≤ (program.instructions.push { text, line := number }).size := by
      rw [Array.size_push]
      exact Nat.le_succ _
    exact ⟨hb.1, Int.le_trans hb.2 (Int.ofNat_le.2 hl)⟩
  · intro instruction hi
    rw [Array.toList_push, List.mem_append, List.mem_singleton] at hi
    rcases hi with hi | rfl
    · exact hw.line_pos instruction hi
    · exact Int.ofNat_le.2 hn
  · rw [Array.toList_push, List.pairwise_append]
    refine ⟨hw.lines_ascend, List.pairwise_singleton _ _, ?_⟩
    intro a ha b hb
    rw [List.mem_singleton.1 hb]
    exact h.line_lt a ha
  · intro instruction hi
    rw [Array.toList_push, List.mem_append, List.mem_singleton] at hi
    rcases hi with hi | rfl
    · exact hw.dispatchable instruction hi
    · exact hd
  · intro instruction hi
    rw [Array.toList_push, List.mem_append, List.mem_singleton] at hi
    rcases hi with hi | rfl
    · exact h.succ.line_lt instruction hi
    · exact Int.ofNat_lt.2 (Nat.lt_succ_self number)

/-- A label that is new stands for the end of the program so far, which no label is past. -/
theorem Before.insert {program : Program} {number : Nat} (h : program.Before number)
    {name : String} (hc : program.labels.contains name = false) :
    Before { program with labels := program.labels.insert name program.length } number := by
  have hw := h.wellFormed
  have he := Labels.entries_insert_of_not_contains hc program.length
  refine ⟨⟨?_, ?_, hw.line_pos, hw.lines_ascend, hw.dispatchable⟩, h.line_lt⟩
  · intro entry hm
    rw [he, List.mem_append, List.mem_singleton] at hm
    rcases hm with hm | rfl
    · exact hw.label_bounds entry hm
    · exact ⟨Int.natCast_nonneg _, Int.le_refl _⟩
  · show List.Pairwise _ (program.labels.insert name program.length).entries
    rw [he, List.pairwise_append]
    refine ⟨hw.labels_ascend, List.pairwise_singleton _ _, ?_⟩
    intro a ha b hb
    rw [List.mem_singleton.1 hb]
    exact (hw.label_bounds a ha).2

theorem before_of_addLine {program next : Program} {number : Nat} {line : String}
    (h : program.Before number) (hn : 1 ≤ number) (ha : program.addLine number line = .ok next) :
    next.Before (number + 1) := by
  unfold addLine at ha
  split at ha
  next => cases ha; exact h.succ
  next text ht =>
    cases ha
    exact h.push hn (SourceLine.dispatchable_of_instruction ht number)
  next name _ =>
    split at ha
    · cases ha
    next hc =>
      cases ha
      exact (h.insert (by simpa using hc)).succ
  next => cases ha

theorem before_of_addLines {program next : Program} {number : Nat} {lines : List String}
    (h : program.Before number) (hn : 1 ≤ number)
    (ha : program.addLines (lines.zipIdx number) = .ok next) :
    next.Before (number + lines.length) := by
  -- The lines read so far are in the program, so both it and the number of the next line vary.
  induction lines generalizing program number with
  | nil =>
      cases ha
      exact h
  | cons line rest ih =>
      rw [List.zipIdx_cons, addLines_cons] at ha
      cases hl : program.addLine number line with
      | error e =>
          rw [hl] at ha
          cases ha
      | ok middle =>
          rw [hl] at ha
          have hr := ih (before_of_addLine h hn hl) (Nat.le_succ_of_le hn) ha
          rw [List.length_cons, show number + (rest.length + 1) = number + 1 + rest.length by omega]
          exact hr

theorem wellFormed_of_ofLines {lines : List String} {program : Program}
    (h : ofLines lines = .ok program) : program.WellFormed :=
  (before_of_addLines (before_empty 1) (Nat.le_refl 1) h).wellFormed

theorem wellFormed_of_ofText {text : String} {program : Program} (h : ofText text = .ok program) :
    program.WellFormed :=
  wellFormed_of_ofLines h

/-! ## Using a loaded program -/

theorem fetch?_of_fetch {program : Program} {address : Int} {instruction : Instruction}
    (h : program.fetch address = .ok instruction) : program.fetch? address = some instruction := by
  unfold fetch at h
  split at h
  next found hf =>
    cases h
    exact hf
  next => cases h

theorem mem_of_fetch? {program : Program} {address : Int} {instruction : Instruction}
    (h : program.fetch? address = some instruction) :
    instruction ∈ program.instructions.toList := by
  simp only [fetch?] at h
  generalize (if 0 ≤ address then address else address + program.length) = position at h
  split at h
  · exact Array.mem_toList_iff.2 (Array.mem_of_getElem? h)
  · cases h

theorem lt_length_of_fetch? {program : Program} {address : Int} {instruction : Instruction}
    (h0 : 0 ≤ address) (h : program.fetch? address = some instruction) :
    address < program.length := by
  obtain ⟨i, rfl⟩ := Int.eq_ofNat_of_zero_le h0
  rw [fetch?_natCast] at h
  obtain ⟨hi, -⟩ := Array.getElem?_eq_some_iff.1 h
  exact Int.ofNat_lt.2 hi

theorem exists_fetch? {program : Program} {address : Int} (h0 : 0 ≤ address)
    (hl : address < program.length) :
    ∃ instruction, program.fetch? address = some instruction := by
  obtain ⟨i, rfl⟩ := Int.eq_ofNat_of_zero_le h0
  have hi : i < program.instructions.size := Int.ofNat_lt.1 hl
  refine ⟨program.instructions[i], ?_⟩
  rw [fetch?_natCast]
  exact Array.getElem?_eq_getElem hi

namespace WellFormed

variable {program : Program} (h : program.WellFormed)
include h

theorem target_bounds {name : String} {target : Int}
    (ht : program.labels.find? name = some target) :
    0 ≤ target ∧ target ≤ program.length :=
  h.label_bounds (name, target) (Labels.mem_of_find? ht)

end WellFormed

end Program

end RegisterMachine
