import RegisterMachine.Proofs.Instruction.Tokens
import RegisterMachine.Proofs.Program.Placement

/-!
# What a source amounts to

The program of a source, described line by line and by positions, without reading the lines in
order. A line is of one of four kinds. It offends if it is of no kind that can be understood, or if
it declares a label that a line in front of it declares. A source without such a line is accepted,
and its program is made up of its instruction lines and its label lines; otherwise the first line
that offends decides the error.
-/

namespace RegisterMachine

/-! ## Kinds of lines -/

/-- Nothing is left of a line, or it is a comment. -/
def IsIgnorable (trimmed : List Char) : Prop :=
  trimmed = [] ∨ ['/', '/'] <+: trimmed

/-- The first word of a text is that of a mnemonic: a blank follows it, or nothing. -/
def StartsWith (m : Mnemonic) (trimmed : List Char) : Prop :=
  ∃ rest, trimmed = m.name.toList ++ rest ∧ rest.head?.all Text.isBlank

inductive IsKind (line : String) : SourceLine → Prop
  | ignorable (hi : IsIgnorable (Text.trim line.toList)) : IsKind line .ignorable
  | instruction (hi : ¬IsIgnorable (Text.trim line.toList)) {m : Mnemonic}
      (hm : StartsWith m (Text.trim line.toList)) :
      IsKind line (.instruction (String.ofList (Text.trim line.toList)))
  | label (hi : ¬IsIgnorable (Text.trim line.toList))
      (hm : ∀ m, ¬StartsWith m (Text.trim line.toList)) {name : List Char}
      (hc : Text.trim line.toList = name ++ [':']) :
      IsKind line (.label (String.ofList (Text.trim name)))
  | unknown (hi : ¬IsIgnorable (Text.trim line.toList))
      (hm : ∀ m, ¬StartsWith m (Text.trim line.toList))
      (hc : ∀ name, Text.trim line.toList ≠ name ++ [':']) : IsKind line .unknown

theorem isIgnorable_iff {trimmed : List Char} :
    IsIgnorable trimmed ↔ (trimmed.isEmpty || ['/', '/'].isPrefixOf trimmed) = true := by
  rw [Bool.or_eq_true, List.isEmpty_iff, List.isPrefixOf_iff_prefix]
  rfl

theorem startsWith_iff {m : Mnemonic} {trimmed : List Char} :
    StartsWith m trimmed ↔ m.name = String.ofList (Text.firstWord trimmed) := by
  constructor
  · intro h
    obtain ⟨rest, rfl, hr⟩ := h
    have hw : ∀ c ∈ m.name.toList, Text.isBlank c = false := fun c hc => (m.name_isToken.2 c hc).1
    rw [Text.firstWord_append_of_word hw hr, String.ofList_toList]
  · intro h
    refine ⟨trimmed.dropWhile (!Text.isBlank ·), ?_, ?_⟩
    · rw [h, String.toList_ofList]
      exact List.takeWhile_append_dropWhile.symm
    · rw [Option.all_eq_true]
      intro c hc
      have hb := List.head?_dropWhile_not (!Text.isBlank ·) trimmed
      rw [hc] at hb
      simpa using hb

/-- A word is looked up among the mnemonics exactly if the text starts with one. -/
theorem exists_startsWith_iff {trimmed : List Char} :
    (∃ m, StartsWith m trimmed) ↔
      (Mnemonic.ofName? (String.ofList (Text.firstWord trimmed))).isSome = true := by
  rw [Option.isSome_iff_exists]
  refine exists_congr fun m => ?_
  rw [startsWith_iff]
  constructor
  · intro h
    rw [← h, Mnemonic.ofName?_name]
  · exact Mnemonic.name_of_ofName?

theorem isKind_ofText (line : String) : IsKind line (SourceLine.ofText line) := by
  unfold SourceLine.ofText
  dsimp only
  split
  next hi => exact .ignorable (isIgnorable_iff.2 hi)
  next hi =>
    have hi' : ¬IsIgnorable (Text.trim line.toList) := fun h => hi (isIgnorable_iff.1 h)
    split
    next hm =>
      obtain ⟨m, hm⟩ := exists_startsWith_iff.2 hm
      exact .instruction hi' hm
    next hm =>
      have hm' (m : Mnemonic) : ¬StartsWith m (Text.trim line.toList) := fun h =>
        hm (exists_startsWith_iff.1 ⟨m, h⟩)
      split
      next hc =>
        obtain ⟨name, hc⟩ := List.getLast?_eq_some_iff.1 hc
        rw [hc, List.dropLast_concat]
        exact .label hi' hm' hc
      next hc =>
        refine .unknown hi' hm' ?_
        intro name h
        exact hc (List.getLast?_eq_some_iff.2 ⟨name, h⟩)

/-- A line is of one kind only. -/
theorem IsKind.unique {line : String} {kind other : SourceLine} (h : IsKind line kind)
    (ho : IsKind line other) : kind = other := by
  cases h with
  | ignorable hi =>
      cases ho with
      | ignorable => rfl
      | instruction hn | label hn | unknown hn => exact (hn hi).elim
  | instruction hn hm =>
      cases ho with
      | ignorable hi => exact (hn hi).elim
      | instruction => rfl
      | label _ hl | unknown _ hl => exact (hl _ hm).elim
  | label hn hl hc =>
      cases ho with
      | ignorable hi => exact (hn hi).elim
      | instruction _ hm => exact (hl _ hm).elim
      | label _ _ hc' =>
          rw [hc] at hc'
          rw [(List.append_inj_left' hc' rfl)]
      | unknown _ _ hu => exact (hu _ hc).elim
  | unknown hn hl hu =>
      cases ho with
      | ignorable hi => exact (hn hi).elim
      | instruction _ hm => exact (hl _ hm).elim
      | label _ _ hc => exact (hu _ hc).elim
      | unknown => rfl

theorem isKind_iff {line : String} {kind : SourceLine} :
    IsKind line kind ↔ SourceLine.ofText line = kind := by
  constructor
  · intro h
    exact (isKind_ofText line).unique h
  · rintro rfl
    exact isKind_ofText line

/-! ## The program of a source -/

/-- The name of the label that a line declares. -/
def declaredName? (line : String) : Option String :=
  match SourceLine.ofText line with
  | .label name => some name
  | _ => none

def instruction? (numbered : String × Nat) : Option Instruction :=
  match SourceLine.ofText numbered.1 with
  | .instruction text => some { text, line := numbered.2 }
  | _ => none

/-- The number of instruction lines among some lines. -/
def instructionCount (lines : List String) : Nat :=
  (lines.filter isInstructionLine).length

/-- The label that a line of a source declares, with the number of instruction lines in front of
it. The line is given with its index. -/
def declaration? (lines : List String) (indexed : String × Nat) : Option (String × Int) :=
  (declaredName? indexed.1).map fun name => (name, instructionCount (lines.take indexed.2))

/-- The program that the lines of a source describe, each by its position. -/
def Program.described (lines : List String) : Program :=
  { instructions := ((lines.zipIdx 1).filterMap instruction?).toArray
    labels := { entries := lines.zipIdx.filterMap (declaration? lines) } }

/-- A line offends behind those in front of it, which makes for an error. -/
inductive Offends (front : List String) (line : String) : SourceError → Prop
  | unknown (h : IsKind line .unknown) :
      Offends front line (.unknownSyntax (front.length + 1) line)
  | repeated {name : String} (h : IsKind line (.label name)) {earlier : String}
      (hm : earlier ∈ front) (he : IsKind earlier (.label name)) :
      Offends front line (.duplicateLabel name (front.length + 1) line)

def Sound (lines : List String) : Prop :=
  ∀ front line back e, lines = front ++ line :: back → ¬Offends front line e

theorem sound_nil : Sound [] := by
  intro front line back e h
  cases front <;> cases h

/-- The last line offends, or a line in front of it does. -/
theorem sound_concat_iff {front : List String} {line : String} :
    Sound (front ++ [line]) ↔ Sound front ∧ ∀ e, ¬Offends front line e := by
  constructor
  · intro h
    refine ⟨?_, fun e => h front line [] e rfl⟩
    intro before middle after e hf
    refine h before middle (after ++ [line]) e ?_
    rw [hf, List.append_assoc, List.cons_append]
  · intro h before middle after e hf
    rcases List.eq_nil_or_concat after with rfl | ⟨rest, last, rfl⟩
    · obtain ⟨rfl, hl⟩ := List.append_inj' hf rfl
      cases hl
      exact h.2 e
    · rw [List.concat_eq_append, ← List.cons_append, ← List.append_assoc] at hf
      obtain ⟨hb, -⟩ := List.append_inj' hf rfl
      exact h.1 before middle rest e hb

/-! ## One more line -/

namespace Program

section
variable (front : List String) {line : String}

/-- A line behind the others changes nothing for them. -/
theorem declarations_concat (line : String) :
    (front ++ [line]).zipIdx.filterMap (declaration? (front ++ [line])) =
      front.zipIdx.filterMap (declaration? front) ++
        ((declaredName? line).map fun name => (name, (instructionCount front : Int))).toList := by
  have hf : front.zipIdx.filterMap (declaration? (front ++ [line])) =
      front.zipIdx.filterMap (declaration? front) := by
    refine List.filterMap_congr fun indexed hi => ?_
    have hl := List.snd_lt_of_mem_zipIdx hi
    rw [declaration?, declaration?, List.take_append_of_le_length (by omega)]
  rw [List.zipIdx_append, List.filterMap_append, hf]
  cases hd : declaredName? line <;> simp [declaration?, hd]

theorem instructions_concat (line : String) :
    ((front ++ [line]).zipIdx 1).filterMap instruction? =
      (front.zipIdx 1).filterMap instruction? ++
        (instruction? (line, front.length + 1)).toList := by
  rw [List.zipIdx_append, List.filterMap_append, Nat.add_comm 1]
  cases hi : instruction? (line, front.length + 1) <;> simp [hi]

theorem described_concat_of_ignorable (h : SourceLine.ofText line = .ignorable) :
    described (front ++ [line]) = described front := by
  simp [described, instructions_concat, declarations_concat, instruction?, declaredName?, h]

theorem described_concat_of_instruction {text : String}
    (h : SourceLine.ofText line = .instruction text) :
    described (front ++ [line]) =
      { described front with
        instructions := (described front).instructions.push
          { text, line := ((front.length + 1 : Nat) : Int) } } := by
  simp [described, instructions_concat, declarations_concat, instruction?, declaredName?, h]

theorem described_concat_of_label {name : String} (h : SourceLine.ofText line = .label name) :
    described (front ++ [line]) =
      { described front with
        labels :=
          { entries := (described front).labels.entries ++
              [(name, (instructionCount front : Int))] } } := by
  simp [described, instructions_concat, declarations_concat, instruction?, declaredName?, h]

theorem names_described (lines : List String) :
    (described lines).labels.entries.map Prod.fst = lines.filterMap declaredName? := by
  have hn : lines.zipIdx.map Prod.fst = lines := List.zipIdx_map_fst 0 lines
  rw [described, List.map_filterMap]
  calc
    lines.zipIdx.filterMap (fun indexed => (declaration? lines indexed).map Prod.fst)
        = lines.zipIdx.filterMap (fun indexed => declaredName? indexed.1) := by
          refine List.filterMap_congr fun indexed _ => ?_
          cases hd : declaredName? indexed.1 <;> simp [declaration?, hd]
    _ = (lines.zipIdx.map Prod.fst).filterMap declaredName? := by rw [List.filterMap_map]; rfl
    _ = lines.filterMap declaredName? := by rw [hn]

theorem contains_described_iff {name : String} :
    (described front).labels.contains name = true ↔
      ∃ earlier ∈ front, IsKind earlier (.label name) := by
  have hd (line : String) : declaredName? line = some name ↔ IsKind line (.label name) := by
    rw [isKind_iff, declaredName?]
    split <;> simp_all
  calc
    (described front).labels.contains name = true
        ↔ ∃ entry ∈ (described front).labels.entries, entry.1 = name := by
          rw [Labels.contains, Labels.find?, List.lookup_isSome_iff]
          simp only [beq_iff_eq, @eq_comm _ name]
    _ ↔ name ∈ front.filterMap declaredName? := by rw [← names_described, List.mem_map]
    _ ↔ ∃ earlier ∈ front, IsKind earlier (.label name) := by simp only [List.mem_filterMap, hd]

/-- A line that does not offend is added to the program as described. -/
theorem addLine_described (hl : (described front).length = instructionCount front)
    (hs : ∀ e, ¬Offends front line e) :
    (described front).addLine (front.length + 1) line = .ok (described (front ++ [line])) := by
  unfold addLine
  split
  next h => rw [described_concat_of_ignorable front h]
  next text h => rw [described_concat_of_instruction front h]
  next name h =>
    have hn : (described front).labels.contains name = false := by
      refine eq_false_of_ne_true fun hc => ?_
      obtain ⟨earlier, hm, he⟩ := (contains_described_iff front).1 hc
      exact hs _ (.repeated (isKind_iff.2 h) hm he)
    rw [hn, if_neg Bool.false_ne_true, described_concat_of_label front h, Labels.insert, hn,
      if_neg Bool.false_ne_true, hl]
  next h => exact (hs _ (.unknown (isKind_iff.2 h))).elim

theorem addLine_of_offends {e : SourceError} (h : Offends front line e) :
    (described front).addLine (front.length + 1) line = .error e := by
  cases h with
  | unknown h => simp only [addLine, isKind_iff.1 h]
  | repeated h hm he =>
      have hc := (contains_described_iff front).2 ⟨_, hm, he⟩
      simp only [addLine, isKind_iff.1 h, hc, if_true]

end

/-! ## All lines -/

theorem ofLines_append_cons (front back : List String) (line : String) :
    ofLines (front ++ line :: back) =
      (ofLines front >>= fun program => program.addLine (front.length + 1) line >>= fun next =>
        next.addLines (back.zipIdx (front.length + 2))) := by
  rw [ofLines, List.zipIdx_append, addLines_append, List.zipIdx_cons, Nat.add_comm 1]
  simp only [addLines_cons]
  rfl

/-- Lines without an offence are read as they are described. -/
theorem ofLines_of_sound {lines : List String} (h : Sound lines) :
    ofLines lines = .ok (described lines) := by
  induction lines using List.reverseRecOn with
  | nil => rfl
  | append_singleton front line ih =>
      obtain ⟨hf, hl⟩ := sound_concat_iff.1 h
      have hr := ih hf
      have hlength : (described front).length = instructionCount front :=
        (places_of_ofLines hr).length_eq
      rw [ofLines_append_cons, hr]
      simp only [bind, Except.bind, addLine_described front hlength hl]
      rfl

/-- The first line that offends decides the error. -/
theorem ofLines_of_offends {front back : List String} {line : String} {e : SourceError}
    (hs : Sound front) (ho : Offends front line e) :
    ofLines (front ++ line :: back) = .error e := by
  rw [ofLines_append_cons, ofLines_of_sound hs]
  simp only [bind, Except.bind, addLine_of_offends front ho]

/-- If a line offends, there is one that is the first to do so. -/
theorem sound_or_offends (lines : List String) :
    Sound lines ∨ ∃ front line back e, lines = front ++ line :: back ∧ Sound front ∧
      Offends front line e := by
  induction lines using List.reverseRecOn with
  | nil => exact .inl sound_nil
  | append_singleton before last ih =>
      rcases ih with hs | ⟨front, line, back, e, rfl, hs, ho⟩
      · by_cases ho : ∃ e, Offends before last e
        · obtain ⟨e, ho⟩ := ho
          exact .inr ⟨before, last, [], e, rfl, hs, ho⟩
        · exact .inl (sound_concat_iff.2 ⟨hs, not_exists.1 ho⟩)
      · refine .inr ⟨front, line, back ++ [last], e, ?_, hs, ho⟩
        rw [List.append_assoc, List.cons_append]

/-- A source is read as its lines describe, which are each of one kind by their trimmed form. It is
accepted exactly if no line offends, and its program is then the one described: the instruction
lines with their numbers, and the declared labels with the numbers of instruction lines in front of
them. It is refused with the error of the first line that offends, and with no other. -/
theorem ofLines_as_described (lines : List String) :
    (∀ line kind, IsKind line kind ↔ SourceLine.ofText line = kind) ∧
    (∀ program, ofLines lines = .ok program ↔ Sound lines ∧ program = described lines) ∧
    ∀ e, ofLines lines = .error e ↔
      ∃ front line back, lines = front ++ line :: back ∧ Sound front ∧ Offends front line e := by
  refine ⟨fun line kind => isKind_iff, fun program => ⟨?_, ?_⟩, fun e => ⟨?_, ?_⟩⟩
  · intro h
    rcases sound_or_offends lines with hs | ⟨front, line, back, e, rfl, hs, ho⟩
    · rw [ofLines_of_sound hs] at h
      cases h
      exact ⟨hs, rfl⟩
    · rw [ofLines_of_offends hs ho] at h
      cases h
  · rintro ⟨hs, rfl⟩
    exact ofLines_of_sound hs
  · intro h
    rcases sound_or_offends lines with hs | ⟨front, line, back, e', rfl, hs, ho⟩
    · rw [ofLines_of_sound hs] at h
      cases h
    · rw [ofLines_of_offends hs ho] at h
      cases h
      exact ⟨front, line, back, rfl, hs, ho⟩
  · rintro ⟨front, line, back, rfl, hs, ho⟩
    exact ofLines_of_offends hs ho

end Program

end RegisterMachine
