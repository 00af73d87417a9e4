import RegisterMachine.Machine
import RegisterMachine.Proofs.Text.Lines
import RegisterMachine.Proofs.Text.Utf8

/-!
# Sources of a program

A program can be loaded from a text, from lines or from a file. It is the same program, or the same
error, in each of these ways: a file is its text in UTF-8, whatever newlines it has, and a text is
its lines, whatever newline joins them.
-/

namespace RegisterMachine

/-! ## Blank lines at the end -/

namespace Program

theorem ofLines_append_empty (lines : List String) : ofLines (lines ++ [""]) = ofLines lines := by
  have hb (program : Program) (number : Nat) : program.addLines [("", number)] = .ok program := rfl
  rw [ofLines, List.zipIdx_append, addLines_append]
  simp only [List.zipIdx_singleton, hb]
  exact bind_pure _

/-- A last line with nothing in it does not count. -/
theorem ofLines_dropEmptyLast (lines : List String) :
    ofLines ((Text.dropEmptyLast (lines.map String.toList)).map String.ofList) = ofLines lines := by
  have hl : (lines.map String.toList).map String.ofList = lines := by simp
  unfold Text.dropEmptyLast
  split
  next he =>
    obtain ⟨front, hf⟩ := List.getLast?_eq_some_iff.1 he
    rw [hf] at hl
    rw [hf, List.dropLast_concat, ← hl]
    simp [ofLines_append_empty]
  next => rw [hl]

theorem ofText_intercalate {newline : String} (hn : newline.toList ∈ Text.newlines)
    {lines : List String} (hl : ∀ line ∈ lines, ∀ c ∈ line.toList, Text.isLineBreak c = false) :
    ofText (newline.intercalate lines) = ofLines lines := by
  have hp : ∀ piece ∈ lines.map String.toList, ∀ c ∈ piece, Text.isLineBreak c = false := by
    intro piece hm
    obtain ⟨line, hline, rfl⟩ := List.mem_map.1 hm
    exact hl line hline
  rw [ofText, String.toList_intercalate, Text.lines_intercalate hp hn, ofLines_dropEmptyLast]

end Program

/-! ## Files -/

theorem readLines_of_text {read : FileReader} {path text : String}
    (hp : '\x00' ∉ path.toList) (hr : read path = .ok text.toUTF8.data.toList) :
    readLines read path = .ok ((Text.lines text.toList).map String.ofList) := by
  have hn : ¬path.contains '\x00' = true := by simpa using hp
  rw [readLines, if_neg hn, hr]
  simp only [bind, Except.bind, linesOfBytes, Text.decodeUtf8_toUTF8, Text.lines_unifyNewlines]
  rfl

theorem Machine.loadFile_of_text (m : Machine) {read : FileReader} {path text : String}
    (hp : '\x00' ∉ path.toList) (hr : read path = .ok text.toUTF8.data.toList) :
    m.loadFile read path =
      ((m.loadText text path).1.mapError fun error => .fault (.source error),
        (m.loadText text path).2) := by
  simp only [loadFile, readLines_of_text hp hr]
  rfl

/-- Loading a file that holds a text in UTF-8 comes to the same as loading the text: the machine
afterwards is the same, and so is the error if there is one. The program of lines that have no break
in them is that of the text that they make with one of the newlines between them. -/
theorem Machine.load_of_any_source :
    (∀ (m : Machine) (read : FileReader) (path text : String), '\x00' ∉ path.toList →
      read path = .ok text.toUTF8.data.toList →
      m.loadFile read path =
        ((m.loadText text path).1.mapError fun error => .fault (.source error),
          (m.loadText text path).2)) ∧
    ∀ (lines : List String) (newline : String), newline ∈ ["\n", "\r\n", "\r"] →
      (∀ line ∈ lines, ∀ c ∈ line.toList, Text.isLineBreak c = false) →
      Program.ofText (newline.intercalate lines) = Program.ofLines lines := by
  refine ⟨?_, ?_⟩
  · intro m read path text hp hr
    exact m.loadFile_of_text hp hr
  · intro lines newline hn hl
    refine Program.ofText_intercalate ?_ hl
    exact List.mem_map_of_mem (f := String.toList) hn

/-- A file with four kinds of breaks, which declares a label twice, and a program whose lines are
joined by carriage returns. -/
theorem Machine.load_of_any_source_mixed :
    let m : Machine := { memory := Memory.zeroed 4 (by decide) (by decide), console := {} }
    let lines := ["B end", "", "end:", ""]
    (m.loadFile (fun _ => .ok "end:\r\nOUT R0\r\u2028 end:\n".toUTF8.data.toList) "twice").1 =
        .error (.fault (.source (.duplicateLabel "end" 4 " end:"))) ∧
      Program.ofText ("\r".intercalate lines) =
        .ok { instructions := #[{ text := "B end", line := 1 }]
              labels := { entries := [("end", 1)] } } := by
  intro m lines
  obtain ⟨hfile, htext⟩ := load_of_any_source
  have hp : '\x00' ∉ "twice".toList := by decide
  have hall : (lines.all fun line => line.toList.all fun c => !Text.isLineBreak c) = true := by
    decide +kernel
  have hl : ∀ line ∈ lines, ∀ c ∈ line.toList, Text.isLineBreak c = false := by
    intro line hline c hc
    simpa using List.all_eq_true.1 (List.all_eq_true.1 hall line hline) c hc
  refine ⟨?_, ?_⟩
  · rw [hfile m _ "twice" _ hp rfl]
    rfl
  · rw [htext lines "\r" (by decide) hl]
    rfl

end RegisterMachine
