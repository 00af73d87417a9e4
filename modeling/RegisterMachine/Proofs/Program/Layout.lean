import RegisterMachine.Proofs.Instruction.Agreement
import RegisterMachine.Proofs.Program.Placement

/-!
# The layout of a source

Blank lines, comments and the blanks inside of lines are layout. What is left of a source without it
are the contents of its lines, and they decide how the source is read: they make up the code of the
program, which is all of it but texts and line numbers, or they decide which of them is in error.
-/

namespace RegisterMachine

/-! ## Contents of lines -/

/-- What a source line says, however it is laid out. -/
inductive Content where
  | instruction (tokens : Tokens)
  | label (name : String)
  /-- Nothing that can be understood. -/
  | unknown
  deriving DecidableEq, Repr

/-- What a line says, if it is neither blank nor a comment. -/
def content? (line : String) : Option Content :=
  match SourceLine.ofText line with
  | .ignorable => none
  | .instruction text => some (.instruction (Decoded.ofText text).tokens)
  | .label name => some (.label name)
  | .unknown => some .unknown

def contents (lines : List String) : List Content :=
  lines.filterMap content?

theorem contents_cons_of_none {line : String} (h : content? line = none) (rest : List String) :
    contents (line :: rest) = contents rest :=
  List.filterMap_cons_none h

theorem contents_cons_of_some {line : String} {content : Content} (h : content? line = some content)
    (rest : List String) : contents (line :: rest) = content :: contents rest :=
  List.filterMap_cons_some h

theorem contents_concat_of_none {line : String} (h : content? line = none) (front : List String) :
    contents (front ++ [line]) = contents front := by
  simp [contents, h]

theorem contents_concat_of_some {line : String} {content : Content}
    (h : content? line = some content) (front : List String) :
    contents (front ++ [line]) = contents front ++ [content] := by
  simp [contents, h]

/-! ## Code -/

structure Code where
  instructions : Array Tokens := #[]
  labels : Labels := {}
  deriving DecidableEq, Repr

inductive ContentError where
  | duplicateLabel (label : String) (index : Nat)
  | unknownSyntax (index : Nat)
  deriving DecidableEq, Repr

namespace Code

def add (code : Code) (index : Nat) : Content → Except ContentError Code
  | .instruction tokens => .ok { code with instructions := code.instructions.push tokens }
  | .label name =>
      if code.labels.contains name then .error (.duplicateLabel name index)
      else .ok { code with labels := code.labels.insert name code.instructions.size }
  | .unknown => .error (.unknownSyntax index)

def addAll (code : Code) (index : Nat) : List Content → Except ContentError Code
  | [] => .ok code
  | content :: rest => code.add index content >>= fun next => next.addAll (index + 1) rest

def ofContents (contents : List Content) : Except ContentError Code :=
  addAll {} 0 contents

end Code

def Instruction.tokens (instruction : Instruction) : Tokens :=
  (Decoded.ofText instruction.text).tokens

namespace Program

def code (program : Program) : Code :=
  { instructions := program.instructions.map (·.tokens), labels := program.labels }

@[simp] theorem code_size (program : Program) :
    program.code.instructions.size = program.length := by
  simp [code, length]

theorem code_push (program : Program) (instruction : Instruction) :
    code { program with instructions := program.instructions.push instruction } =
      { program.code with instructions := program.code.instructions.push instruction.tokens } := by
  simp [code]

theorem code_insert (program : Program) (name : String) :
    code { program with labels := program.labels.insert name program.length } =
      { program.code with
        labels := program.code.labels.insert name program.code.instructions.size } := by
  rw [code_size]
  rfl

section
variable {program other : Program} (h : program.code = other.code)
include h

theorem labels_eq_of_code_eq : program.labels = other.labels :=
  congrArg Code.labels h

theorem length_eq_of_code_eq : program.length = other.length := by
  rw [← code_size, ← code_size, h]

theorem layout_eq_of_code_eq : program.layout = other.layout := by
  simp only [layout, labels_eq_of_code_eq h, length_eq_of_code_eq h]

/-- At the same address, programs with the same code both have an instruction, with the same tokens,
or neither has one. -/
theorem fetch?_of_code_eq (address : Int) :
    (program.fetch? address = none ∧ other.fetch? address = none) ∨
      ∃ instruction instruction', program.fetch? address = some instruction ∧
        other.fetch? address = some instruction' ∧ instruction.tokens = instruction'.tokens := by
  have hi : program.instructions.map (·.tokens) = other.instructions.map (·.tokens) :=
    congrArg Code.instructions h
  have ht : (program.fetch? address).map (·.tokens) = (other.fetch? address).map (·.tokens) := by
    simp only [fetch?, length_eq_of_code_eq h]
    generalize (if 0 ≤ address then address else address + other.length) = position
    split
    · rw [← Array.getElem?_map, ← Array.getElem?_map, hi]
    · rfl
  cases hf : program.fetch? address with
  | none =>
      rw [hf, Option.map_none] at ht
      exact .inl ⟨rfl, Option.map_eq_none_iff.1 ht.symm⟩
  | some instruction =>
      rw [hf, Option.map_some] at ht
      obtain ⟨instruction', hf', htokens⟩ := Option.map_eq_some_iff.1 ht.symm
      exact .inr ⟨instruction, instruction', rfl, hf', htokens.symm⟩

end

end Program

/-! ## Reading a source -/

/-- An error lies at a line of a source. The lines in front of it give it its number, and those of
them that say something give the content that is in error its index. -/
inductive SourceError.LiesAt (lines : List String) : SourceError → ContentError → Prop
  | duplicateLabel {front back : List String} {line : String} (h : lines = front ++ line :: back)
      {label : String} (hc : content? line = some (.label label)) :
      LiesAt lines (.duplicateLabel label (front.length + 1) line)
        (.duplicateLabel label (contents front).length)
  | unknownSyntax {front back : List String} {line : String} (h : lines = front ++ line :: back)
      (hc : content? line = some .unknown) :
      LiesAt lines (.unknownSyntax (front.length + 1) line) (.unknownSyntax (contents front).length)

namespace Program

/-- What has been read from a source is what the contents of its lines amount to. -/
inductive Reads (lines : List String) : Except SourceError Program → Except ContentError Code → Prop
  | accepted {program : Program} {code : Code} (h : program.code = code) :
      Reads lines (.ok program) (.ok code)
  | refused {e : SourceError} {reason : ContentError} (h : e.LiesAt lines reason) :
      Reads lines (.error e) (.error reason)

theorem addLine_of_no_content {line : String} (h : content? line = none) (program : Program)
    (number : Nat) : program.addLine number line = .ok program := by
  cases hl : SourceLine.ofText line with
  | ignorable => simp only [addLine, hl]
  | instruction text => simp [content?, hl] at h
  | label name => simp [content?, hl] at h
  | unknown => simp [content?, hl] at h

/-- A line adds what it says. -/
theorem addLine_reads (program : Program) (front back : List String) {line : String}
    {content : Content} (h : content? line = some content) :
    Reads (front ++ line :: back) (program.addLine (front.length + 1) line)
      (program.code.add (contents front).length content) := by
  cases hl : SourceLine.ofText line with
  | ignorable => simp [content?, hl] at h
  | instruction text =>
      obtain rfl : .instruction (Decoded.ofText text).tokens = content := by
        simpa only [content?, hl, Option.some.injEq] using h
      simp only [addLine, hl, Code.add]
      exact .accepted (program.code_push _)
  | label name =>
      obtain rfl : .label name = content := by simpa only [content?, hl, Option.some.injEq] using h
      simp only [addLine, hl, Code.add]
      by_cases hd : program.labels.contains name = true
      · have hk : program.code.labels.contains name = true := hd
        rw [if_pos hd, if_pos hk]
        exact .refused (.duplicateLabel rfl h)
      · have hk : ¬program.code.labels.contains name = true := hd
        rw [if_neg hd, if_neg hk]
        exact .accepted (program.code_insert name)
  | unknown =>
      obtain rfl : .unknown = content := by simpa only [content?, hl, Option.some.injEq] using h
      simp only [addLine, hl, Code.add]
      exact .refused (.unknownSyntax rfl h)

theorem addLines_reads (program : Program) (front rest : List String) :
    Reads (front ++ rest) (program.addLines (rest.zipIdx (front.length + 1)))
      (program.code.addAll (contents front).length (contents rest)) := by
  -- A line that is read moves over to those in front, which give the next one its number.
  induction rest generalizing program front with
  | nil => exact .accepted rfl
  | cons line rest ih =>
      have hmove (next : Program) := ih next (front ++ [line])
      simp only [List.append_assoc, List.singleton_append, List.length_append,
        List.length_singleton] at hmove
      rw [List.zipIdx_cons, addLines_cons]
      cases hc : content? line with
      | none =>
          rw [addLine_of_no_content hc, contents_cons_of_none hc]
          rw [contents_concat_of_none hc] at hmove
          exact hmove program
      | some content =>
          rw [contents_cons_of_some hc, Code.addAll]
          rw [contents_concat_of_some hc, List.length_append, List.length_singleton] at hmove
          have hline := program.addLine_reads front rest hc
          generalize program.addLine (front.length + 1) line = added at hline ⊢
          generalize program.code.add (contents front).length content = coded at hline ⊢
          cases hline with
          | refused he => exact .refused he
          | @accepted next code hcode =>
              rw [← hcode]
              exact hmove next

theorem ofLines_reads (lines : List String) :
    Reads lines (ofLines lines) (Code.ofContents (contents lines)) := by
  have hc : code {} = {} := by simp [code]
  have h := addLines_reads {} [] lines
  rw [hc] at h
  exact h

/-- Sources whose lines say the same have the same code, or the same content is in error. -/
theorem ofLines_of_contents_eq {lines lines' : List String} (h : contents lines = contents lines') :
    (∃ e e' reason, ofLines lines = .error e ∧ ofLines lines' = .error e' ∧
      e.LiesAt lines reason ∧ e'.LiesAt lines' reason) ∨
    ∃ program program', ofLines lines = .ok program ∧ ofLines lines' = .ok program' ∧
      program.code = program'.code := by
  have hr := ofLines_reads lines
  have hr' := ofLines_reads lines'
  rw [← h] at hr'
  generalize ofLines lines = read at hr ⊢
  generalize ofLines lines' = read' at hr' ⊢
  generalize Code.ofContents (contents lines) = coded at hr hr'
  cases hr with
  | refused he =>
      cases hr' with
      | refused he' => exact .inl ⟨_, _, _, rfl, rfl, he, he'⟩
  | accepted hcode =>
      cases hr' with
      | accepted hcode' => exact .inr ⟨_, _, rfl, rfl, hcode.trans hcode'.symm⟩

end Program

end RegisterMachine
