import RegisterMachine.Proofs.Program.Assembly

/-!
# Spellings

The ways to write an instruction down. Blanks may stand at either end and anywhere behind the
mnemonic, also inside an argument; commas part the arguments, and an argument may be empty unless it
is the only one. A text decodes to a mnemonic and arguments exactly if it is one of their spellings,
and what a text decodes to can always be written on one line and decoded again.
-/

namespace RegisterMachine

/-- A text with blanks put in anywhere. -/
inductive Spaced : List Char → List Char → Prop
  | nil : Spaced [] []
  | blank {c : Char} {text spaced : List Char} (hc : Text.isBlank c = true)
      (h : Spaced text spaced) : Spaced text (c :: spaced)
  | keep (c : Char) {text spaced : List Char} (h : Spaced text spaced) :
      Spaced (c :: text) (c :: spaced)

def IsWord (text : String) : Prop :=
  text.toList ≠ [] ∧ ∀ c ∈ text.toList, Text.isBlank c = false

/-- Whether texts can be the arguments of an instruction. A single one that is empty cannot be told
from none. -/
structure AreArguments (arguments : List String) : Prop where
  plain : ∀ argument ∈ arguments, ∀ c ∈ argument.toList, Text.isBlank c = false ∧ c ≠ ','
  ne_empty : arguments ≠ [""]

/-- A text is a spelling of a mnemonic and arguments. -/
inductive Spells (mnemonic : String) (arguments : List String) (text : String) : Prop
  | bare (lead trail : List Char) (hn : arguments = [])
      (hl : ∀ c ∈ lead, Text.isBlank c = true) (ht : ∀ c ∈ trail, Text.isBlank c = true)
      (h : text.toList = lead ++ mnemonic.toList ++ trail)
  | list (lead spaced trail : List Char) (gap : Char) (hn : arguments ≠ [])
      (hl : ∀ c ∈ lead, Text.isBlank c = true) (hg : Text.isBlank gap = true)
      (hs : Spaced (",".intercalate arguments).toList spaced)
      (ht : ∀ c ∈ trail, Text.isBlank c = true)
      (h : text.toList = lead ++ mnemonic.toList ++ gap :: (spaced ++ trail))

/-! ## Blanks put in -/

theorem Spaced.removeBlanks_eq {text spaced : List Char} (h : Spaced text spaced) :
    Text.removeBlanks spaced = Text.removeBlanks text := by
  induction h with
  | nil => rfl
  | blank hc _ ih => simpa [Text.removeBlanks, hc] using ih
  | keep c _ ih =>
      simp only [Text.removeBlanks, List.filter_cons] at ih ⊢
      rw [ih]

theorem spaced_removeBlanks (text : List Char) : Spaced (Text.removeBlanks text) text := by
  induction text with
  | nil => exact .nil
  | cons c rest ih =>
      cases hc : Text.isBlank c with
      | true => simpa [Text.removeBlanks, hc] using Spaced.blank hc ih
      | false => simpa [Text.removeBlanks, hc] using Spaced.keep c ih

theorem removeBlanks_eq_nil_iff {text : List Char} :
    Text.removeBlanks text = [] ↔ ∀ c ∈ text, Text.isBlank c = true := by
  simp [Text.removeBlanks]

/-! ## Arguments between commas -/

/-- A piece of a text is a part of it, and no comma is left in it. -/
theorem plain_of_mem_splitOn {text piece : List Char} (h : piece ∈ text.splitOn ',') :
    ∀ c ∈ piece, c ∈ text ∧ c ≠ ',' := by
  induction text generalizing piece with
  | nil =>
      rw [List.splitOn_nil, List.mem_singleton] at h
      rw [h]
      nofun
  | cons x rest ih =>
      intro c hc
      have hin {piece : List Char} (h : piece ∈ rest.splitOn ',') (hc : c ∈ piece) :
          c ∈ x :: rest ∧ c ≠ ',' :=
        ⟨List.mem_cons_of_mem x (ih h c hc).1, (ih h c hc).2⟩
      rw [List.splitOn_cons_eq_if_modifyHead] at h
      split at h
      · rcases List.mem_cons.1 h with rfl | h
        · cases hc
        · exact hin h hc
      next hx =>
        obtain ⟨first, others, hs⟩ := List.exists_cons_of_ne_nil (List.splitOn_ne_nil ',' rest)
        rw [hs, List.modifyHead_cons] at h
        rcases List.mem_cons.1 h with rfl | h
        · rcases List.mem_cons.1 hc with rfl | hc
          · exact ⟨List.mem_cons_self, by simpa using hx⟩
          · exact hin (hs ▸ List.mem_cons_self) hc
        · exact hin (hs ▸ List.mem_cons_of_mem first h) hc

theorem toList_intercalate_comma (arguments : List String) :
    (",".intercalate arguments).toList = [','].intercalate (arguments.map String.toList) := by
  rw [String.toList_intercalate]
  rfl

theorem areArguments_splitArgumentChars (text : List Char) :
    AreArguments ((splitArgumentChars text).map String.ofList) := by
  unfold splitArgumentChars
  dsimp only
  split
  · exact ⟨nofun, nofun⟩
  next hn =>
    refine ⟨fun argument ha c hc => ?_, fun he => ?_⟩
    · obtain ⟨piece, hp, rfl⟩ := List.mem_map.1 ha
      rw [String.toList_ofList] at hc
      obtain ⟨hm, hcomma⟩ := plain_of_mem_splitOn hp c hc
      exact ⟨Text.isBlank_eq_false_of_mem_removeBlanks hm, hcomma⟩
    · -- Pieces that amount to one empty piece leave nothing of the text.
      have hs : (Text.removeBlanks text).splitOn ',' = [[]] := by
        simpa using congrArg (List.map String.toList) he
      have hi : [','].intercalate ((Text.removeBlanks text).splitOn ',') = Text.removeBlanks text :=
        List.intercalate_splitOn ','
      rw [hs] at hi
      simp [← hi] at hn

/-- The arguments of a text, written between commas, are the text without its blanks. -/
theorem intercalate_splitArgumentChars (text : List Char) :
    (",".intercalate ((splitArgumentChars text).map String.ofList)).toList =
      Text.removeBlanks text := by
  have hid : String.toList ∘ String.ofList = id := funext fun _ => String.toList_ofList
  rw [toList_intercalate_comma, List.map_map, hid, List.map_id]
  unfold splitArgumentChars
  dsimp only
  split
  next hn => rw [List.isEmpty_iff.1 hn]; rfl
  next => exact List.intercalate_splitOn ','

/-- Joining with commas puts in nothing but commas. -/
theorem mem_intercalate_comma {pieces : List (List Char)} {c : Char}
    (h : c ∈ [','].intercalate pieces) : c = ',' ∨ ∃ piece ∈ pieces, c ∈ piece := by
  induction pieces with
  | nil => cases h
  | cons first rest ih =>
      by_cases hn : rest = []
      · rw [hn, List.intercalate_singleton] at h
        exact .inr ⟨first, List.mem_cons_self, h⟩
      · rw [List.intercalate_cons_of_ne_nil hn, List.append_assoc, List.mem_append,
          List.singleton_append, List.mem_cons] at h
        rcases h with h | h | h
        · exact .inr ⟨first, List.mem_cons_self, h⟩
        · exact .inl h
        · refine (ih h).imp_right ?_
          rintro ⟨piece, hp, hc⟩
          exact ⟨piece, List.mem_cons_of_mem first hp, hc⟩

section
variable {arguments : List String} (h : AreArguments arguments)
include h

theorem AreArguments.removeBlanks_eq :
    Text.removeBlanks (",".intercalate arguments).toList = (",".intercalate arguments).toList := by
  refine Text.removeBlanks_of_word fun c hc => ?_
  rw [toList_intercalate_comma] at hc
  rcases mem_intercalate_comma hc with rfl | ⟨piece, hp, hc⟩
  · rfl
  · obtain ⟨argument, ha, rfl⟩ := List.mem_map.1 hp
    exact (h.plain argument ha c hc).1

/-- What amounts to the arguments between commas is split into them. -/
theorem AreArguments.splitArgumentChars_eq {text : List Char}
    (ht : Text.removeBlanks text = (",".intercalate arguments).toList) :
    (splitArgumentChars text).map String.ofList = arguments := by
  rw [toList_intercalate_comma] at ht
  by_cases hn : arguments = []
  · rw [hn] at ht ⊢
    simp [splitArgumentChars, ht]
  · have hsplit : (Text.removeBlanks text).splitOn ',' = arguments.map String.toList := by
      rw [ht]
      refine List.splitOn_intercalate ',' (fun piece hp hc => ?_) (by simpa using hn)
      obtain ⟨argument, ha, rfl⟩ := List.mem_map.1 hp
      exact (h.plain argument ha ',' hc).2 rfl
    have hid : String.ofList ∘ String.toList = id := funext fun _ => String.ofList_toList
    have hne : (Text.removeBlanks text).isEmpty = false := by
      refine Bool.eq_false_iff.2 fun he => h.ne_empty ?_
      rw [List.isEmpty_iff.1 he, List.splitOn_nil] at hsplit
      simpa [hid] using congrArg (List.map String.ofList) hsplit.symm
    simp only [splitArgumentChars, hne, Bool.false_eq_true, if_false, hsplit, List.map_map, hid,
      List.map_id]

end

/-! ## Texts and their spellings -/

namespace Decoded

/-- A spelling decodes to what it spells. -/
theorem ofText_of_spells {mnemonic : String} {arguments : List String} (hm : IsWord mnemonic)
    (ha : AreArguments arguments) {text : String} (h : Spells mnemonic arguments text) :
    (ofText text).mnemonic = mnemonic ∧ (ofText text).arguments = arguments := by
  rw [← String.ofList_toList (s := mnemonic)]
  cases h with
  | bare lead trail hn hl ht h =>
      have hr : trail.head?.all Text.isBlank := by
        cases trail with
        | nil => rfl
        | cons c rest => exact ht c List.mem_cons_self
      have hb : Text.removeBlanks trail = (",".intercalate arguments).toList := by
        rw [removeBlanks_eq_nil_iff.2 ht, hn]
        rfl
      obtain ⟨hm', ha'⟩ := ofText_word h hl hm.1 hm.2 hr
      exact ⟨hm', ha'.trans (ha.splitArgumentChars_eq hb)⟩
  | list lead spaced trail gap hn hl hg hs ht h =>
      have hb : Text.removeBlanks (gap :: (spaced ++ trail)) =
          (",".intercalate arguments).toList := by
        have hempty : Text.removeBlanks trail = [] := removeBlanks_eq_nil_iff.2 ht
        have hjoin := hs.removeBlanks_eq.trans ha.removeBlanks_eq
        simp only [Text.removeBlanks] at hempty hjoin ⊢
        simp [hg, hempty, hjoin]
      obtain ⟨hm', ha'⟩ := ofText_word h hl hm.1 hm.2 (show (some gap).all Text.isBlank from hg)
      exact ⟨hm', ha'.trans (ha.splitArgumentChars_eq hb)⟩

theorem areArguments_ofText (text : String) : AreArguments (ofText text).arguments :=
  areArguments_splitArgumentChars _

/-- A text without the blanks at its ends is its mnemonic and a rest that starts with a blank, if it
is not empty; and the arguments are taken from the rest. -/
theorem exists_tail (text : String) :
    ∃ tail, Text.trim text.toList = (ofText text).mnemonic.toList ++ tail ∧
      tail.head?.all Text.isBlank ∧
      (ofText text).arguments = (splitArgumentChars tail).map String.ofList := by
  refine ⟨(Text.trim text.toList).dropWhile (!Text.isBlank ·), ?_, ?_, rfl⟩
  · rw [ofText, String.toList_ofList]
    exact List.takeWhile_append_dropWhile.symm
  · have hb := List.head?_dropWhile_not (!Text.isBlank ·) (Text.trim text.toList)
    cases hd : ((Text.trim text.toList).dropWhile (!Text.isBlank ·)).head? with
    | none => rfl
    | some c => simpa [hd] using hb

/-- Every text is a spelling of what it decodes to. -/
theorem spells_ofText (text : String) :
    Spells (ofText text).mnemonic (ofText text).arguments text := by
  obtain ⟨lead, trail, hl, ht, he⟩ := Text.exists_append_trim text.toList
  obtain ⟨tail, htrim, hhead, harguments⟩ := exists_tail text
  have hs : text.toList = lead ++ (ofText text).mnemonic.toList ++ (tail ++ trail) := by
    rw [he, htrim]
    simp only [List.append_assoc]
  have ha : (",".intercalate (ofText text).arguments).toList = Text.removeBlanks tail := by
    rw [harguments]
    exact intercalate_splitArgumentChars tail
  -- What stands behind the mnemonic decides between the two forms.
  by_cases hn : (ofText text).arguments = []
  · rw [hn] at ha
    have hb : ∀ c ∈ tail, Text.isBlank c = true := removeBlanks_eq_nil_iff.1 ha.symm
    exact .bare lead _ hn hl (List.forall_mem_append.2 ⟨hb, ht⟩) hs
  · cases tail with
    | nil => exact (hn harguments).elim
    | cons gap rest =>
        have hg : Text.isBlank gap = true := hhead
        refine .list lead rest trail gap hn hl hg ?_ ht hs
        rw [ha, Text.removeBlanks, List.filter_cons, hg]
        exact spaced_removeBlanks rest

section
variable {text : String} (h : ∃ c ∈ text.toList, Text.isBlank c = false)
include h

theorem trim_ne_nil : Text.trim text.toList ≠ [] := by
  obtain ⟨c, hc, hb⟩ := h
  intro he
  rw [Text.trim_eq_nil_iff.1 he c hc] at hb
  cases hb

theorem isWord_ofText : IsWord (ofText text).mnemonic := by
  rw [IsWord, ofText, String.toList_ofList]
  refine ⟨Text.firstWord_trim_ne_nil (trim_ne_nil h), fun c hc => ?_⟩
  simpa using List.mem_takeWhile_imp hc

end

theorem ofText_of_blank {text : String} (h : ∀ c ∈ text.toList, Text.isBlank c = true) :
    (ofText text).mnemonic = "" ∧ (ofText text).arguments = [] := by
  simp only [ofText, Text.trim_eq_nil_iff.2 h]
  exact ⟨rfl, rfl⟩

/-- Behind a space, the arguments between commas; and if there are none, the space may go. -/
theorem spells_joined (mnemonic : String) (arguments : List String) :
    Spells mnemonic arguments (mnemonic ++ " " ++ ",".intercalate arguments) := by
  by_cases hn : arguments = []
  · refine .bare [] [' '] hn nofun (List.forall_mem_singleton.2 (by decide)) ?_
    simp [hn]
  · have hs : Spaced (",".intercalate arguments).toList (",".intercalate arguments).toList := by
      induction (",".intercalate arguments).toList with
      | nil => exact .nil
      | cons c rest ih => exact .keep c ih
    refine .list [] _ [] ' ' hn nofun (by decide) hs nofun ?_
    simp

theorem spells_canonicalText (decoded : Decoded) :
    Spells decoded.mnemonic decoded.arguments decoded.canonicalText := by
  unfold canonicalText
  split
  next hn => exact .bare [] [] (List.isEmpty_iff.1 hn) nofun nofun (by simp)
  next => exact spells_joined _ _

/-- What a text decodes to is decoded from its other spellings as well. -/
theorem ofText_of_spells_again (text : String) {again : String}
    (h : Spells (ofText text).mnemonic (ofText text).arguments again) :
    (ofText again).mnemonic = (ofText text).mnemonic ∧
      (ofText again).arguments = (ofText text).arguments := by
  by_cases hb : ∃ c ∈ text.toList, Text.isBlank c = false
  · exact ofText_of_spells (isWord_ofText hb) (areArguments_ofText text) h
  · have hblank : ∀ c ∈ text.toList, Text.isBlank c = true := by simpa using hb
    obtain ⟨hm, ha⟩ := ofText_of_blank hblank
    rw [hm, ha] at h ⊢
    refine ofText_of_blank ?_
    cases h with
    | bare _ _ _ hl ht he =>
        rw [he]
        simpa using List.forall_mem_append.2 ⟨hl, ht⟩
    | list _ _ _ _ hn => exact (hn rfl).elim

/-- A line that is neither blank nor a comment is an instruction exactly if it decodes to one of the
twenty mnemonics. -/
theorem isInstruction_iff {line : String} (h : ∃ c ∈ line.toList, Text.isBlank c = false)
    (hc : ¬['/', '/'] <+: Text.trim line.toList) :
    (∃ text, SourceLine.ofText line = .instruction text) ↔
      ∃ m : Mnemonic, m.name = (ofText line).mnemonic := by
  constructor
  · rintro ⟨text, ht⟩
    exact (SourceLine.ofText_eq_instruction ht).2
  · rintro ⟨m, hm⟩
    have hi : ¬IsIgnorable (Text.trim line.toList) := fun hi => hi.elim (trim_ne_nil h) hc
    exact ⟨_, isKind_iff.1 (.instruction hi (startsWith_iff.2 hm))⟩

/-- The mnemonic of a line that is not blank is the first of its words. -/
theorem head?_words_trim {line : String} (h : ∃ c ∈ line.toList, Text.isBlank c = false) :
    (Text.words (Text.trim line.toList)).head? = some (ofText line).mnemonic.toList := by
  obtain ⟨tail, htrim, hhead, -⟩ := exists_tail line
  rw [htrim]
  exact Text.head?_words_append_of_word (isWord_ofText h).2 hhead (isWord_ofText h).1

/-- A text decodes to a mnemonic and arguments exactly if it spells them. -/
theorem ofText_iff_spells {mnemonic : String} {arguments : List String} (hm : IsWord mnemonic)
    (ha : AreArguments arguments) (text : String) :
    (ofText text).mnemonic = mnemonic ∧ (ofText text).arguments = arguments ↔
      Spells mnemonic arguments text := by
  constructor
  · rintro ⟨rfl, rfl⟩
    exact spells_ofText text
  · exact ofText_of_spells hm ha

/-- Decoding is undone by spelling. A text decodes to a word and to arguments exactly if it is one
of their spellings: blanks, the word, if there are arguments a blank and the arguments between
commas with blanks anywhere, and blanks at the end. The arguments of any text have no blanks and no
commas and are not a single empty one; written on one line with the mnemonic, they are decoded
again. If the text is not blank, then its mnemonic is the first of its words, by which a source line
is told to be an instruction. -/
theorem ofText_normalises :
    (∀ mnemonic arguments, IsWord mnemonic → AreArguments arguments → ∀ text,
      ((ofText text).mnemonic = mnemonic ∧ (ofText text).arguments = arguments ↔
        Spells mnemonic arguments text)) ∧
    ∀ text,
      AreArguments (ofText text).arguments ∧
      (∀ again ∈ [(ofText text).mnemonic ++ " " ++ ",".intercalate (ofText text).arguments,
          (ofText text).canonicalText],
        (ofText again).mnemonic = (ofText text).mnemonic ∧
          (ofText again).arguments = (ofText text).arguments) ∧
      ((∃ c ∈ text.toList, Text.isBlank c = false) →
        (Text.words (Text.trim text.toList)).head? = some (ofText text).mnemonic.toList ∧
        (¬['/', '/'] <+: Text.trim text.toList →
          ((∃ instruction, SourceLine.ofText text = .instruction instruction) ↔
            ∃ m : Mnemonic, m.name = (ofText text).mnemonic))) := by
  refine ⟨fun mnemonic arguments hm ha text => ofText_iff_spells hm ha text, fun text =>
    ⟨areArguments_ofText text, fun again hagain => ?_, fun hb =>
      ⟨head?_words_trim hb, isInstruction_iff hb⟩⟩⟩
  have hs : Spells (ofText text).mnemonic (ofText text).arguments again := by
    simp only [List.mem_cons, List.not_mem_nil, or_false] at hagain
    rcases hagain with h | h
    · rw [h]
      exact spells_joined _ _
    · rw [h]
      exact spells_canonicalText _
  exact ofText_of_spells_again text hs

/-- Blanks of several kinds, one of them inside an argument, and arguments that are empty. -/
theorem ofText_normalises_commas :
    let arguments := ["R1", "", "#4", ""]
    let text := "\t ADD\u00a0R 1 ,, # 4,\n"
    IsWord "ADD" ∧ AreArguments arguments ∧ Spells "ADD" arguments text ∧
      (ofText text).mnemonic = "ADD" ∧ (ofText text).arguments = arguments ∧
      (ofText text).canonicalText = "ADD R1,,#4," ∧
      (ofText (ofText text).canonicalText).arguments = arguments ∧
      (Text.words (Text.trim text.toList)).head? = some "ADD".toList := by
  intro arguments text
  have hm : IsWord "ADD" :=
    ⟨by decide, fun c hc => ((Mnemonic.combine .add).name_isToken.2 c hc).1⟩
  have ha : AreArguments arguments := ⟨by simp [arguments, Text.isBlank], by decide⟩
  have hj : (",".intercalate arguments).toList = Text.removeBlanks "R 1 ,, # 4,".toList := by
    decide
  have hs : Spells "ADD" arguments text :=
    .list ['\t', ' '] "R 1 ,, # 4,".toList ['\n'] _ nofun (List.all_eq_true.1 (by decide))
      (show Text.isBlank '\u00a0' = true by decide) (hj ▸ spaced_removeBlanks _)
      (List.all_eq_true.1 (by decide)) (by decide)
  obtain ⟨hspells, htexts⟩ := ofText_normalises
  obtain ⟨hm', ha'⟩ := (hspells _ _ hm ha text).2 hs
  obtain ⟨-, hagain, hwords⟩ := htexts text
  have hcanonical : (ofText text).canonicalText = "ADD R1,,#4," := by
    rw [canonicalText, hm', ha']
    decide
  refine ⟨hm, ha, hs, hm', ha', hcanonical, ?_, ?_⟩
  · exact (hagain _ (by simp)).2.trans ha'
  · rw [(hwords ⟨'A', by decide, by decide⟩).1, hm']

end Decoded

end RegisterMachine
