import Mathlib.Data.List.Induction
import RegisterMachine.Proofs.Instruction.Frame

/-!
# Registries that grow

A registry in use: mnemonics are registered, the registry is frozen and unfrozen, and instructions
are executed, in any order. Only an accepted registration changes what it holds, and it takes
nothing away, so that every mnemonic keeps its handler and its way with the program counter. Two
tables have to stay in step for that: a mnemonic in the set of those that set the program counter
has a handler, since otherwise a new mnemonic could stand in the set from before.
-/

namespace RegisterMachine.Registry

/-! ## Registrations -/

/-- All that a registration can do. -/
theorem register_cases (registry : Registry) (entry : Entry) :
    (registry.frozen = true ∧ registry.register entry = .error .frozen) ∨
    (registry.frozen = false ∧ registry.has entry.mnemonic = true ∧
      registry.register entry = .error (.taken entry.mnemonic)) ∨
    (registry.frozen = false ∧ registry.has entry.mnemonic = false ∧
      registry.register entry = .ok (registry.add entry)) := by
  unfold register
  cases registry.frozen with
  | true => exact .inl ⟨rfl, rfl⟩
  | false =>
      cases registry.has entry.mnemonic with
      | true => exact .inr (.inl ⟨rfl, rfl, rfl⟩)
      | false => exact .inr (.inr ⟨rfl, rfl, rfl⟩)

theorem has_iff {registry : Registry} {name : String} :
    registry.has name = true ↔ ∃ handler, registry.handlers.lookup name = some handler :=
  Option.isSome_iff_exists

section
variable {registry : Registry} {entry : Entry}

theorem lookup_add_of_has {name : String} {handler : Handler}
    (h : registry.handlers.lookup name = some handler) :
    (registry.add entry).handlers.lookup name = some handler := by
  simp only [add, List.lookup_append, h, Option.some_or]

theorem lookup_add (hn : registry.has entry.mnemonic = false) :
    (registry.add entry).handlers.lookup entry.mnemonic = some entry.handler := by
  have hl : registry.handlers.lookup entry.mnemonic = none := by simpa [has] using hn
  simp only [add, List.lookup_append, hl, Option.none_or, List.lookup_cons_self]

theorem has_add_iff {name : String} :
    (registry.add entry).has name = true ↔ registry.has name = true ∨ entry.mnemonic = name := by
  simp only [has, add, List.lookup_append, Option.isSome_or, Bool.or_eq_true]
  refine or_congr_right ?_
  by_cases he : name = entry.mnemonic
  · simp [he]
  · have hne : (name == entry.mnemonic) = false := beq_eq_false_iff_ne.2 he
    simp [List.lookup_cons, hne, Ne.symm he]

theorem mem_pcSetters_add_iff {name : String} :
    name ∈ (registry.add entry).pcSetters ↔
      name ∈ registry.pcSetters ∨ entry.setsPc = true ∧ name = entry.mnemonic := by
  cases hs : entry.setsPc <;> simp [add, hs]

theorem register_eq_ok {next : Registry} (h : registry.register entry = .ok next) :
    registry.has entry.mnemonic = false ∧ next = registry.add entry := by
  rcases registry.register_cases entry with ⟨-, hr⟩ | ⟨-, -, hr⟩ | ⟨-, hn, hr⟩
  · rw [hr] at h
    cases h
  · rw [hr] at h
    cases h
  · rw [hr] at h
    cases h
    exact ⟨hn, rfl⟩

/-- A mnemonic that is entered is found as it was entered, since it did not stand in the set
before. -/
theorem find?_add (hm : ∀ name ∈ registry.pcSetters, registry.has name = true)
    (hn : registry.has entry.mnemonic = false) :
    (registry.add entry).find? entry.mnemonic = some entry := by
  have hnew : entry.mnemonic ∉ registry.pcSetters := fun h => by
    rw [hm _ h] at hn
    cases hn
  have hs : (registry.add entry).pcSetters.contains entry.mnemonic = entry.setsPc := by
    rw [Bool.eq_iff_iff, List.contains_iff_mem, mem_pcSetters_add_iff]
    simp [hnew]
  simp only [find?, lookup_add hn, hs, Option.map_some]

end

/-! ## Growth -/

/-- A registry has become another one without losing anything. -/
structure Grows (old new : Registry) : Prop where
  handlers : old.handlers <+: new.handlers
  pcSetters : old.pcSetters <+: new.pcSetters
  /-- A mnemonic keeps its handler. -/
  lookup_eq : ∀ {name handler}, old.handlers.lookup name = some handler →
    new.handlers.lookup name = some handler
  /-- A mnemonic with a handler comes to set the program counter no more and no less. -/
  mem_iff : ∀ {name}, old.has name = true → (name ∈ new.pcSetters ↔ name ∈ old.pcSetters)

namespace Grows

theorem of_eq {old new : Registry} (hh : new.handlers = old.handlers)
    (hp : new.pcSetters = old.pcSetters) : Grows old new where
  handlers := hh ▸ List.prefix_refl _
  pcSetters := hp ▸ List.prefix_refl _
  lookup_eq := by rw [hh]; exact id
  mem_iff _ := by rw [hp]

theorem refl (registry : Registry) : Grows registry registry :=
  of_eq rfl rfl

theorem has {old new : Registry} (h : Grows old new) {name : String}
    (hn : old.has name = true) : new.has name = true := by
  obtain ⟨handler, hl⟩ := has_iff.1 hn
  exact has_iff.2 ⟨handler, h.lookup_eq hl⟩

theorem trans {a b c : Registry} (h : Grows a b) (h' : Grows b c) : Grows a c where
  handlers := h.handlers.trans h'.handlers
  pcSetters := h.pcSetters.trans h'.pcSetters
  lookup_eq hl := h'.lookup_eq (h.lookup_eq hl)
  mem_iff hn := (h'.mem_iff (h.has hn)).trans (h.mem_iff hn)

theorem add {registry : Registry} {entry : Entry} (hn : registry.has entry.mnemonic = false) :
    Grows registry (registry.add entry) where
  handlers := List.prefix_append _ _
  pcSetters := by
    unfold Registry.add
    split
    · exact List.prefix_append _ _
    · exact List.prefix_refl _
  lookup_eq := lookup_add_of_has
  mem_iff {name} hh := by
    rw [mem_pcSetters_add_iff]
    refine or_iff_left ?_
    rintro ⟨-, rfl⟩
    rw [hn] at hh
    cases hh

/-- A mnemonic that is found stays as it was found. -/
theorem find? {old new : Registry} (h : Grows old new) {name : String} {entry : Entry}
    (hf : old.find? name = some entry) : new.find? name = some entry := by
  obtain ⟨handler, hl, rfl⟩ := Option.map_eq_some_iff.1 hf
  have hm : new.pcSetters.contains name = old.pcSetters.contains name := by
    rw [Bool.eq_iff_iff, List.contains_iff_mem, List.contains_iff_mem]
    exact h.mem_iff (has_iff.2 ⟨handler, hl⟩)
  simp only [Registry.find?, h.lookup_eq hl, hm, Option.map_some]

end Grows

/-- An instruction whose mnemonic is found executes by its entry. -/
theorem execute_of_find? {registry : Registry} {decoded : Decoded} {entry : Entry}
    (h : registry.find? decoded.mnemonic = some entry) (layout : Layout) (cpu : Cpu)
    (world : World) :
    registry.execute layout cpu decoded world =
      ((entry.handler layout cpu decoded.arguments world).1.map fun next =>
          (if entry.setsPc then next else next.advance).countCycle,
        (entry.handler layout cpu decoded.arguments world).2) := by
  simp only [execute, h]

/-! ## Histories -/

inductive Operation where
  | register (entry : Entry)
  | freeze
  | unfreeze
  | execute (layout : Layout) (decoded : Decoded)

/-- A registry with the processor and the world that its instructions are executed on. -/
structure Bench where
  registry : Registry
  cpu : Cpu
  world : World

def Bench.apply (bench : Bench) : Operation → Bench
  | .register entry =>
      match bench.registry.register entry with
      | .ok registry => { bench with registry }
      | .error _ => bench
  | .freeze => { bench with registry := bench.registry.freeze }
  | .unfreeze => { bench with registry := bench.registry.unfreeze }
  | .execute layout decoded =>
      match bench.registry.execute layout bench.cpu decoded bench.world with
      | (.ok cpu, world) => { bench with cpu, world }
      | (.error _, world) => { bench with world }

def Bench.after (bench : Bench) (history : List Operation) : Bench :=
  history.foldl apply bench

def Operation.freezes? : Operation → Option Bool
  | .freeze => some true
  | .unfreeze => some false
  | .register _ | .execute _ _ => none

/-- Whether operations leave a registry frozen that is frozen before them. -/
def leavesFrozen (history : List Operation) : Bool :=
  ((history.filterMap Operation.freezes?).getLast?).getD true

/-- Whether a mnemonic is one of the twenty or has been registered while that was allowed. -/
def Known (history : List Operation) (name : String) : Prop :=
  (∃ m : Mnemonic, m.name = name) ∨
    ∃ front entry back, history = front ++ .register entry :: back ∧ entry.mnemonic = name ∧
      leavesFrozen front = false

theorem leavesFrozen_append (history : List Operation) (operation : Operation) :
    leavesFrozen (history ++ [operation]) = operation.freezes?.getD (leavesFrozen history) := by
  cases hf : operation.freezes? <;> simp [leavesFrozen, List.filterMap_append, hf]

theorem known_append_iff {history : List Operation} {operation : Operation} {name : String} :
    Known (history ++ [operation]) name ↔ Known history name ∨
      ∃ entry, operation = .register entry ∧ entry.mnemonic = name ∧
        leavesFrozen history = false := by
  constructor
  · rintro (hm | ⟨front, entry, back, he, hn, hf⟩)
    · exact .inl (.inl hm)
    · -- The registration is the last operation, or it stands in front of that.
      rcases List.eq_nil_or_concat back with rfl | ⟨back, last, rfl⟩
      · obtain ⟨rfl, ho⟩ := List.append_inj' he rfl
        exact .inr ⟨entry, List.head_eq_of_cons_eq ho, hn, hf⟩
      · have hs : history ++ [operation] = (front ++ .register entry :: back) ++ [last] := by
          simpa using he
        exact .inl (.inr ⟨front, entry, back, (List.append_inj' hs rfl).1, hn, hf⟩)
  · rintro ((hm | ⟨front, entry, back, rfl, hn, hf⟩) | ⟨entry, rfl, hn, hf⟩)
    · exact .inl hm
    · exact .inr ⟨front, entry, back ++ [operation], by simp, hn, hf⟩
    · exact .inr ⟨history, entry, [], rfl, hn, hf⟩

/-- A registry is what a history has made of the registry of the twenty instructions. -/
structure Describes (history : List Operation) (registry : Registry) : Prop where
  frozen_eq : registry.frozen = leavesFrozen history
  has_iff : ∀ name, registry.has name = true ↔ Known history name
  has_of_mem : ∀ name ∈ registry.pcSetters, registry.has name = true

theorem describes_standard : Describes [] standard where
  frozen_eq := rfl
  has_iff name := by
    constructor
    · intro h
      obtain ⟨handler, hl⟩ := Registry.has_iff.1 h
      have hf : standard.find? name = some _ := Option.map_eq_some_iff.2 ⟨handler, hl, rfl⟩
      obtain ⟨m, hm, -⟩ := find?_standard_eq_some hf
      exact .inl ⟨m, hm.symm⟩
    · rintro (⟨m, rfl⟩ | ⟨front, entry, back, he, -⟩)
      · obtain ⟨handler, hl, -⟩ := Option.map_eq_some_iff.1 (find?_standard m)
        exact Registry.has_iff.2 ⟨handler, hl⟩
      · simp at he
  has_of_mem := by decide

/-- All that an operation can do to the registry. -/
theorem Bench.registry_apply (bench : Bench) (operation : Operation) :
    (∃ entry, operation = .register entry ∧ bench.registry.frozen = false ∧
      bench.registry.has entry.mnemonic = false ∧
      (bench.apply operation).registry = bench.registry.add entry) ∨
    ((∀ entry, operation = .register entry →
        bench.registry.frozen = true ∨ bench.registry.has entry.mnemonic = true) ∧
      (bench.apply operation).registry =
        { bench.registry with frozen := operation.freezes?.getD bench.registry.frozen }) := by
  cases operation with
  | register entry =>
      rcases bench.registry.register_cases entry with ⟨hf, hr⟩ | ⟨-, hn, hr⟩ | ⟨hf, hn, hr⟩
      · exact .inr ⟨fun _ he => .inl hf, by simp only [apply, hr]; rfl⟩
      · refine .inr ⟨fun _ he => .inr ?_, by simp only [apply, hr]; rfl⟩
        cases he
        exact hn
      · exact .inl ⟨entry, rfl, hf, hn, by simp only [apply, hr]⟩
  | freeze => exact .inr ⟨nofun, rfl⟩
  | unfreeze => exact .inr ⟨nofun, rfl⟩
  | execute layout decoded =>
      refine .inr ⟨nofun, ?_⟩
      simp only [apply]
      split <;> rfl

theorem Bench.grows_apply (bench : Bench) (operation : Operation) :
    Grows bench.registry (bench.apply operation).registry := by
  rcases bench.registry_apply operation with ⟨entry, -, -, hn, ha⟩ | ⟨-, ha⟩
  · rw [ha]
    exact .add hn
  · rw [ha]
    exact .of_eq rfl rfl

theorem Describes.apply {history : List Operation} {bench : Bench}
    (h : Describes history bench.registry) (operation : Operation) :
    Describes (history ++ [operation]) (bench.apply operation).registry := by
  rcases bench.registry_apply operation with ⟨entry, rfl, hf, hn, ha⟩ | ⟨hr, ha⟩
  · have hopen : leavesFrozen history = false := h.frozen_eq ▸ hf
    rw [ha]
    refine ⟨?_, fun name => ?_, fun name hm => ?_⟩
    · rw [leavesFrozen_append]
      exact h.frozen_eq
    · rw [has_add_iff, known_append_iff, h.has_iff]
      refine or_congr_right ⟨fun he => ⟨entry, rfl, he, hopen⟩, ?_⟩
      rintro ⟨_, ⟨⟩, he, -⟩
      exact he
    · rw [has_add_iff]
      rcases mem_pcSetters_add_iff.1 hm with hm | ⟨-, he⟩
      · exact .inl (h.has_of_mem name hm)
      · exact .inr he.symm
  · rw [ha]
    refine ⟨?_, fun name => ?_, h.has_of_mem⟩
    · rw [leavesFrozen_append, ← h.frozen_eq]
    · rw [known_append_iff]
      refine (h.has_iff name).trans (or_iff_left_of_imp ?_).symm
      -- What is refused while the registry is not frozen is there already.
      rintro ⟨entry, rfl, rfl, hopen⟩
      rcases hr entry rfl with hf | hn
      · rw [h.frozen_eq, hopen] at hf
        cases hf
      · exact (h.has_iff _).1 hn

namespace Bench

theorem after_append (bench : Bench) (front back : List Operation) :
    bench.after (front ++ back) = (bench.after front).after back :=
  List.foldl_append

theorem grows_after (bench : Bench) (history : List Operation) :
    Grows bench.registry (bench.after history).registry := by
  induction history generalizing bench with
  | nil => exact .refl _
  | cons operation rest ih => exact (bench.grows_apply operation).trans (ih _)

theorem describes_after (bench : Bench) (hs : bench.registry = standard)
    (history : List Operation) : Describes history (bench.after history).registry := by
  induction history using List.reverseRecOn with
  | nil =>
      rw [show (bench.after []).registry = standard from hs]
      exact describes_standard
  | append_singleton front operation ih =>
      rw [after_append]
      exact ih.apply operation

end Bench

/-! ## The registry after any history -/

/-- What a registration comes to in a registry that a history has led to. -/
structure Registers (history : List Operation) (registry : Registry) (entry : Entry) : Prop where
  ok_iff : (∃ next, registry.register entry = .ok next) ↔
    leavesFrozen history = false ∧ ¬Known history entry.mnemonic
  frozen_iff : registry.register entry = .error .frozen ↔ leavesFrozen history = true
  taken_iff : registry.register entry = .error (.taken entry.mnemonic) ↔
    leavesFrozen history = false ∧ Known history entry.mnemonic
  ok_or_refused : (∃ next, registry.register entry = .ok next) ∨
    registry.register entry = .error .frozen ∨
    registry.register entry = .error (.taken entry.mnemonic)

theorem Describes.registers {history : List Operation} {registry : Registry}
    (h : Describes history registry) (entry : Entry) : Registers history registry entry := by
  have hk := h.has_iff entry.mnemonic
  rcases registry.register_cases entry with ⟨hf, hr⟩ | ⟨hf, hn, hr⟩ | ⟨hf, hn, hr⟩
  · rw [h.frozen_eq] at hf
    constructor <;> simp [hr, hf]
  · rw [h.frozen_eq] at hf
    constructor <;> simp [hr, hf, hk.1 hn]
  · rw [h.frozen_eq] at hf
    have hnew : ¬Known history entry.mnemonic := fun hknown => by
      rw [hk.2 hknown] at hn
      cases hn
    constructor <;> simp [hr, hf, hnew]

/-- An instruction executes by an entry: whatever the handler does is done, and if it completes,
then the cycle is counted and the program counter advances unless the handler has set it. -/
structure ExecutesBy (registry : Registry) (entry : Entry) (decoded : Decoded) (layout : Layout)
    (cpu : Cpu) (world : World) : Prop where
  failed : ∀ {failure reached},
    entry.handler layout cpu decoded.arguments world = (.error failure, reached) →
    registry.execute layout cpu decoded world = (.error failure, reached)
  completed : ∀ {next reached},
    entry.handler layout cpu decoded.arguments world = (.ok next, reached) →
    ∃ final, registry.execute layout cpu decoded world = (.ok final, reached) ∧
      final = { next with pc := final.pc, cycles := next.cycles + 1 } ∧
      (final.pc = next.pc ∨ final.pc = next.pc + 1) ∧
      (final.pc = next.pc + 1 ↔ entry.setsPc = false)

theorem executesBy_of_find? {registry : Registry} {decoded : Decoded} {entry : Entry}
    (h : registry.find? decoded.mnemonic = some entry) (layout : Layout) (cpu : Cpu)
    (world : World) : ExecutesBy registry entry decoded layout cpu world := by
  have he := execute_of_find? h layout cpu world
  refine ⟨fun {failure reached} hh => ?_, fun {next reached} hh => ?_⟩
  · rw [he, hh]
    rfl
  · rw [he, hh]
    refine ⟨_, rfl, ?_⟩
    cases entry.setsPc with
    | true => exact ⟨rfl, .inl rfl, iff_of_false (show next.pc ≠ next.pc + 1 by omega) nofun⟩
    | false => exact ⟨rfl, .inr rfl, iff_of_true rfl rfl⟩

/-- In use, the registry of the twenty instructions grows, and it does so only while it is not
frozen. After any history a registration is accepted exactly if the history has left the registry
not frozen and does not know the mnemonic. Otherwise it is refused, for being frozen in the first
place, and the registry stays as it was. Whatever follows, no mnemonic loses its handler or its way
with the program counter; so the twenty instructions execute as they always did, and one that is
added executes by its entry for ever. -/
theorem registry_of_history (start : Cpu) (around : World) (history : List Operation) :
    let bench : Bench :=
      ({ registry := standard, cpu := start, world := around } : Bench).after history
    (∀ entry, Registers history bench.registry entry ∧
      ∀ refusal, bench.registry.register entry = .error refusal →
        (bench.apply (.register entry)).registry = bench.registry) ∧
    (leavesFrozen history = true → ∀ operation,
      (bench.apply operation).registry.handlers = bench.registry.handlers ∧
        (bench.apply operation).registry.pcSetters = bench.registry.pcSetters) ∧
    (∀ later, Grows bench.registry (bench.after later).registry) ∧
    (∀ (m : Mnemonic) (decoded : Decoded), decoded.mnemonic = m.name → ∀ layout cpu world,
      bench.registry.execute layout cpu decoded world =
        standard.execute layout cpu decoded world) ∧
    ∀ entry next, bench.registry.register entry = .ok next →
      ∀ later (decoded : Decoded), decoded.mnemonic = entry.mnemonic → ∀ layout cpu world,
        ExecutesBy (bench.after (.register entry :: later)).registry entry decoded layout cpu
          world := by
  intro bench
  have hd : Describes history bench.registry := Bench.describes_after _ rfl history
  refine ⟨fun entry => ⟨hd.registers entry, fun refusal hr => ?_⟩, fun hfrozen operation => ?_,
    bench.grows_after, fun m decoded hm layout cpu world => ?_, ?_⟩
  · simp only [Bench.apply, hr]
  · rcases bench.registry_apply operation with ⟨entry, -, hf, -, -⟩ | ⟨-, ha⟩
    · rw [hd.frozen_eq, hfrozen] at hf
      cases hf
    · rw [ha]
      exact ⟨rfl, rfl⟩
  · have hg : Grows standard bench.registry :=
      Bench.grows_after { registry := standard, cpu := start, world := around } history
    have hs : standard.find? decoded.mnemonic = some (builtIn m) := hm ▸ find?_standard m
    rw [execute_of_find? hs, execute_of_find? (hg.find? hs)]
  · intro entry next hr later decoded hm layout cpu world
    have hadded : (bench.apply (.register entry)).registry = next := by
      simp only [Bench.apply, hr]
    obtain ⟨hn, rfl⟩ := register_eq_ok hr
    have hf : (bench.registry.add entry).find? decoded.mnemonic = some entry :=
      hm ▸ find?_add hd.has_of_mem hn
    have hg := (bench.apply (.register entry)).grows_after later
    rw [hadded] at hg
    exact executesBy_of_find? (hg.find? hf) layout cpu world

/-- A mnemonic is registered after the registry is unfrozen, and then once more with a wish to set
the program counter. That is refused, so the mnemonic goes on to advance. -/
theorem registry_of_history_asked_twice :
    let nop : Entry := { mnemonic := "NOP", handler := fun _ cpu _ world => (.ok cpu, world) }
    let world : World := { memory := .standard, console := {} }
    let bench : Bench :=
      ({ registry := standard, cpu := .initial, world } : Bench).after [.unfreeze]
    let later := bench.after [.register nop, .register { nop with setsPc := true }, .freeze]
    bench.registry.register (builtIn .halt) = .error (.taken "HALT") ∧
      later.registry.register nop = .error .frozen ∧
      later.registry.execute { length := 1 } .initial (Decoded.ofText "NOP") world =
        (.ok { pc := 1, cycles := 1 }, world) := by
  intro nop world bench later
  obtain ⟨hregisters, -, -, -, hadded⟩ := registry_of_history .initial world [.unfreeze]
  have hm : (Decoded.ofText "NOP").mnemonic = nop.mnemonic := by decide +kernel
  have hx := hadded nop _ rfl [.register { nop with setsPc := true }, .freeze] _ hm
    { length := 1 } .initial world
  obtain ⟨final, he, hf, -, hpc⟩ := hx.completed rfl
  refine ⟨(hregisters (builtIn .halt)).1.taken_iff.2 ⟨rfl, .inl ⟨.halt, rfl⟩⟩, rfl, ?_⟩
  rw [he, hf, hpc.2 rfl]
  rfl

end RegisterMachine.Registry
