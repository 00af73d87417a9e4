import RegisterMachine.Proofs.Instruction.Frame
import RegisterMachine.Proofs.Instruction.Tokens
import RegisterMachine.Proofs.Program.WellFormed

/-!
# Branches

Where a branch goes, from a processor in any state. It reads the label table, and if it has a
condition the latest comparison, but no register. A label that a source declares is reached by its
name if the name is a token; other names are not what a branch with their text looks up.
-/

namespace RegisterMachine

/-! ## Executing a branch -/

namespace Registry

variable {layout : Layout} {cpu : Cpu} {decoded : Decoded} {m : Mnemonic}
  (hm : decoded.mnemonic = m.name) {world : World}
include hm

theorem execute_of_effect_error {failure : Failure Fault}
    (he : m.effect layout cpu world.memory.size decoded.arguments = .error failure) :
    standard.execute layout cpu decoded world = (.error failure, world) := by
  simp only [execute_of_mnemonic hm, Mnemonic.handler_eq, he, Except.map]

theorem execute_of_jump {target : Int} (hs : m.setsPc = true)
    (he : m.effect layout cpu world.memory.size decoded.arguments = .ok (.jump target)) :
    standard.execute layout cpu decoded world = (.ok (cpu.jump target).countCycle, world) := by
  simp only [execute_of_mnemonic hm, Mnemonic.handler_eq, he, Effect.perform, Except.map, hs,
    if_true]

end Registry

section
variable {layout : Layout} {cpu : Cpu} {decoded : Decoded} {label : String}
  (ha : decoded.arguments = [label]) (world : World)
include ha

theorem Registry.execute_branch (hm : decoded.mnemonic = Mnemonic.branch.name) {target : Int}
    (hl : layout.labels.find? label = some target) :
    standard.execute layout cpu decoded world = (.ok (cpu.jump target).countCycle, world) := by
  refine execute_of_jump hm rfl ?_
  simp only [ha, Mnemonic.effect, resolveLabel, hl, bind, Except.bind, pure, Except.pure]

theorem Registry.execute_branch_of_unknown (hm : decoded.mnemonic = Mnemonic.branch.name)
    (hl : layout.labels.find? label = none) :
    standard.execute layout cpu decoded world = (.error (.fault (.unknownLabel label)), world) := by
  refine execute_of_effect_error hm ?_
  simp only [ha, Mnemonic.effect, resolveLabel, hl, bind, Except.bind]

variable {relation : Relation} (hm : decoded.mnemonic = (Mnemonic.branchIf relation).name)
include hm

/-- Without a comparison the label is not even looked up. -/
theorem Registry.execute_branchIf_of_no_comparison (hc : cpu.comparison = none) :
    standard.execute layout cpu decoded world =
      (.error (.fault (.noComparison (Mnemonic.branchIf relation).name)), world) := by
  refine execute_of_effect_error hm ?_
  simp only [ha, Mnemonic.effect, hc]

theorem Registry.execute_branchIf_of_unknown {compared : Comparison}
    (hc : cpu.comparison = some compared) (hl : layout.labels.find? label = none) :
    standard.execute layout cpu decoded world = (.error (.fault (.unknownLabel label)), world) := by
  refine execute_of_effect_error hm ?_
  simp only [ha, Mnemonic.effect, resolveLabel, hc, hl, bind, Except.bind]

theorem Registry.execute_branchIf {compared : Comparison} (hc : cpu.comparison = some compared)
    {target : Int} (hl : layout.labels.find? label = some target) :
    standard.execute layout cpu decoded world =
      (.ok (cpu.jump (if relation.holds compared.left compared.right then target
        else cpu.pc + 1)).countCycle, world) := by
  refine execute_of_jump hm rfl ?_
  simp only [ha, Mnemonic.effect, resolveLabel, hc, hl, bind, Except.bind, pure, Except.pure]

end

/-- A branch that is taken goes to the one label that its arguments name. -/
theorem Registry.label_of_execute_branch {layout : Layout} {cpu next : Cpu} {decoded : Decoded}
    {world after : World} (hm : decoded.mnemonic = Mnemonic.branch.name)
    (h : standard.execute layout cpu decoded world = (.ok next, after)) :
    ∃ label target, decoded.arguments = [label] ∧ layout.labels.find? label = some target ∧
      next = (cpu.jump target).countCycle ∧ after = world := by
  by_cases hn : decoded.arguments.length = Mnemonic.branch.arity
  · obtain ⟨label, ha⟩ := List.length_eq_one_iff.1 hn
    cases hl : layout.labels.find? label with
    | none => simp [execute_branch_of_unknown ha world hm hl] at h
    | some target =>
        rw [execute_branch ha world hm hl] at h
        cases h
        exact ⟨label, target, ha, hl, rfl, rfl⟩
  · have he := Mnemonic.effect_of_length_ne hn layout cpu world.memory.size
    simp [execute_of_effect_error hm he] at h

/-! ## Declared labels -/

def Labels.Distinct (labels : Labels) : Prop :=
  labels.entries.Pairwise fun a b => a.1 ≠ b.1

theorem Labels.Distinct.find?_of_mem {labels : Labels} (h : labels.Distinct) {name : String}
    {target : Int} (hm : (name, target) ∈ labels.entries) : labels.find? name = some target := by
  obtain ⟨front, back, he⟩ := List.append_of_mem hm
  rw [Distinct, he, List.pairwise_append] at h
  refine List.lookup_eq_some_iff.2 ⟨front, back, he, fun entry hf => ?_⟩
  have hne := h.2.2 entry hf (name, target) List.mem_cons_self
  simpa using hne.symm

theorem Labels.Distinct.insert {labels : Labels} (h : labels.Distinct) {name : String}
    (hc : labels.contains name = false) (target : Int) : (labels.insert name target).Distinct := by
  have hn : labels.find? name = none := by simpa [contains] using hc
  rw [Distinct, entries_insert_of_not_contains hc, List.pairwise_append]
  refine ⟨h, List.pairwise_singleton _ _, ?_⟩
  intro entry he last hl
  rw [List.mem_singleton.1 hl]
  have hne : (name != entry.1) = true := List.lookup_eq_none_iff.1 hn entry he
  exact Ne.symm (by simpa using hne)

namespace Program

theorem labels_distinct_of_addLine {program next : Program} {number : Nat} {line : String}
    (hd : program.labels.Distinct) (h : program.addLine number line = .ok next) :
    next.labels.Distinct := by
  unfold addLine at h
  split at h
  next => cases h; exact hd
  next => cases h; exact hd
  next name _ =>
    split at h
    · cases h
    next hc =>
      cases h
      exact hd.insert (by simpa using hc) program.length
  next => cases h

theorem labels_distinct_of_addLines {program next : Program} {numbered : List (String × Nat)}
    (hd : program.labels.Distinct) (h : program.addLines numbered = .ok next) :
    next.labels.Distinct := by
  induction numbered generalizing program with
  | nil =>
      cases h
      exact hd
  | cons head rest ih =>
      rw [addLines_cons] at h
      cases hl : program.addLine head.2 head.1 with
      | error e => simp [hl, bind, Except.bind] at h
      | ok middle =>
          rw [hl] at h
          exact ih (labels_distinct_of_addLine hd hl) h

theorem labels_distinct_of_ofLines {lines : List String} {program : Program}
    (h : ofLines lines = .ok program) : program.labels.Distinct := by
  have he : ({} : Program).labels.Distinct := List.Pairwise.nil
  exact labels_distinct_of_addLines he h

/-- A label that a source declares can be branched to by its name if the name is a token, from every
state of the processor, under a condition if it holds of what was compared. No other name is the
argument of a branch with its text: if the branch is taken, it is to a label of another name. -/
theorem declared_label_reached {lines : List String} {program : Program}
    (h : ofLines lines = .ok program) {name : String} {target : Int}
    (hl : (name, target) ∈ program.labels.entries) (cpu : Cpu) (world : World) :
    (IsToken name →
      Registry.standard.execute program.layout cpu (Decoded.ofText ("B " ++ name)) world =
        (.ok (cpu.jump target).countCycle, world) ∧
      ∀ (relation : Relation) (compared : Comparison), cpu.comparison = some compared →
        relation.holds compared.left compared.right = true →
        Registry.standard.execute program.layout cpu
            (Decoded.ofText ((Mnemonic.branchIf relation).name ++ " " ++ name)) world =
          (.ok (cpu.jump target).countCycle, world)) ∧
    (¬ IsToken name → ∀ next after,
      Registry.standard.execute program.layout cpu (Decoded.ofText ("B " ++ name)) world =
        (.ok next, after) →
      ∃ other elsewhere, other ≠ name ∧ (other, elsewhere) ∈ program.labels.entries ∧
        next = (cpu.jump elsewhere).countCycle) := by
  have hf : program.layout.labels.find? name = some target :=
    (labels_distinct_of_ofLines h).find?_of_mem hl
  have hm (m : Mnemonic) : (Decoded.ofText (m.name ++ " " ++ name)).mnemonic = m.name :=
    Decoded.mnemonic_ofText_name m name
  have ha (m : Mnemonic) :
      (Decoded.ofText (m.name ++ " " ++ name)).arguments = [name] ↔ IsToken name := by
    rw [Decoded.arguments_ofText_name, splitArguments_eq_singleton]
  refine ⟨fun ht => ⟨?_, ?_⟩, fun ht next after he => ?_⟩
  · exact Registry.execute_branch ((ha .branch).2 ht) world (hm .branch) hf
  · intro relation compared hc hr
    have he := Registry.execute_branchIf ((ha (.branchIf relation)).2 ht) world
      (hm (.branchIf relation)) hc hf
    rwa [if_pos hr] at he
  · obtain ⟨other, elsewhere, ho, hfind, rfl, -⟩ :=
      Registry.label_of_execute_branch (hm .branch) he
    refine ⟨other, elsewhere, ?_, Labels.mem_of_find? hfind, rfl⟩
    rintro rfl
    exact ht ((ha .branch).1 ho)

theorem declared_label_reached_loop :
    let program : Program :=
      { instructions := #[{ text := "CMP R0, #5", line := 2 }, { text := "BLT loop", line := 3 }]
        labels := { entries := [("loop", 0)] } }
    ofLines [" loop :", "CMP R0, #5", "BLT loop"] = .ok program ∧
      ∀ world, Registry.standard.execute program.layout
          { pc := 1, flag := { enabled := true, left := 1, right := 5 }, cycles := 2 }
          (Decoded.ofText "BLT loop") world =
        (.ok { pc := 0, flag := { enabled := true, left := 1, right := 5 }, cycles := 3 },
          world) := by
  intro program
  have hp : ofLines [" loop :", "CMP R0, #5", "BLT loop"] = .ok program := by decide +kernel
  have hl : ("loop", 0) ∈ program.labels.entries := List.mem_cons_self
  refine ⟨hp, fun world => ?_⟩
  exact ((declared_label_reached hp hl _ world).1 (by decide)).2 .less _ rfl rfl

/-- The text of a branch to a name with a blank inside is that of a branch to the name without the
blank, and this may be the name of another label. -/
theorem label_with_blank_misses :
    let program : Program :=
      { instructions := #[{ text := "B my label", line := 1 }, { text := "OUT R0", line := 3 }]
        labels := { entries := [("mylabel", 1), ("my label", 2)] } }
    ofLines ["B my label", "mylabel:", "OUT R0", "my label:"] = .ok program ∧
      ("my label", 2) ∈ program.labels.entries ∧
      ∀ world, Registry.standard.execute program.layout Cpu.initial
          (Decoded.ofText "B my label") world =
        (.ok (Cpu.initial.jump 1).countCycle, world) := by
  intro program
  have ha : (Decoded.ofText "B my label").arguments = ["mylabel"] := by decide +kernel
  refine ⟨by decide +kernel, by decide, fun world => ?_⟩
  exact Registry.execute_branch ha world (by decide +kernel) rfl

end Program

end RegisterMachine
