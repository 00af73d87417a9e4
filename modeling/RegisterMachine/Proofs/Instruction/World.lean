import RegisterMachine.Proofs.Instruction.Frame

/-!
# What instructions do to memory and console

An instruction that completes has done one thing to the processor and to the world around it, and
its mnemonic and its arguments tell which: a store writes one cell, a load reads one, the two
console instructions read and write one line, and no other instruction touches the world. No
instruction changes more than one register.
-/

namespace RegisterMachine

/-! ## Carrying out -/

/-- What an effect that could be carried out has done to the processor and to the world. -/
def Effect.Done (cpu : Cpu) (world : World) (next : Cpu) (after : World) : Effect → Prop
  | .set r v => cpu.write r v = .ok next ∧ after = world
  | .load r address =>
      ∃ v, world.memory.read address = .ok v ∧ cpu.write r v = .ok next ∧ after = world
  | .store address v =>
      ∃ memory, world.memory.write address v = .ok memory ∧ next = cpu ∧
        after = { world with memory }
  | .compare left right => next = cpu.compare left right ∧ after = world
  | .jump target => next = cpu.jump target ∧ after = world
  | .input r =>
      ∃ line v, world.console.pending.head? = some line ∧
        Word.ofText line.toList = .ok (some v) ∧ cpu.write r v = .ok next ∧
        after = { world with console := (world.console.readLine inputPrompt).2 }
  | .output v =>
      next = cpu ∧ after = { world with console := world.console.writeLine (toString v) }

theorem ofText_of_wordOr {fault : Fault} {text : List Char} {v : Int}
    (h : wordOr fault text = .ok v) : Word.ofText text = .ok (some v) := by
  unfold wordOr at h
  split at h
  next => cases h
  next => cases h
  next w hw =>
    cases h
    exact hw

theorem World.line_of_readWord {world : World} {v : Int} (h : world.readWord.1 = .ok v) :
    ∃ line, world.console.pending.head? = some line ∧ Word.ofText line.toList = .ok (some v) := by
  unfold readWord Console.readLine at h
  cases hp : world.console.pending.head? with
  | none => simp [hp] at h
  | some line =>
      simp only [hp] at h
      exact ⟨line, rfl, ofText_of_wordOr h⟩

theorem Effect.done_of_perform {effect : Effect} {cpu next : Cpu} {world after : World}
    (h : effect.perform cpu world = (.ok next, after)) : effect.Done cpu world next after := by
  have hr : (effect.perform cpu world).1 = .ok next := congrArg Prod.fst h
  have hw : (effect.perform cpu world).2 = after := congrArg Prod.snd h
  cases effect with
  | set r v => exact ⟨eq_ok_of_orCrash hr, hw.symm⟩
  | load r address =>
      obtain ⟨v, hv, hn⟩ := exists_of_bind_eq_ok (eq_ok_of_orCrash hr)
      exact ⟨v, hv, hn, hw.symm⟩
  | store address v =>
      cases hm : world.memory.write address v with
      | error reason => simp [perform, hm] at hr
      | ok memory =>
          simp only [perform, hm, Except.ok.injEq] at hr hw
          exact ⟨memory, hm, hr.symm, hw.symm⟩
  | compare left right => exact ⟨(Except.ok.inj hr).symm, hw.symm⟩
  | jump target => exact ⟨(Except.ok.inj hr).symm, hw.symm⟩
  | input r =>
      obtain ⟨v, hv, hn⟩ := exists_of_bind_eq_ok hr
      obtain ⟨line, hl, ht⟩ := World.line_of_readWord hv
      exact ⟨line, v, hl, ht, eq_ok_of_orCrash hn, hw.symm⟩
  | output v => exact ⟨(Except.ok.inj hr).symm, hw.symm⟩

/-! ## Arguments -/

/-- The arguments of a store name a cell and the register whose value goes there. -/
def Cpu.Stores (cpu : Cpu) (arguments : List String) (address v : Int) : Prop :=
  ∃ source place, arguments = [source, place] ∧ registerValue source cpu = .ok v ∧
    addressValue place cpu = .ok address

def Cpu.Loads (cpu : Cpu) (arguments : List String) (r : Register) (address : Int) : Prop :=
  ∃ destination place, arguments = [destination, place] ∧
    Register.ofToken destination = .ok r ∧ addressValue place cpu = .ok address

def Mnemonic.touchesWorld : Mnemonic → Bool
  | .load | .store | .input | .output => true
  | .combine _ | .move | .moveNot | .compare | .branch | .branchIf _ | .halt => false

def Mnemonic.Resolves (m : Mnemonic) (cpu : Cpu) (arguments : List String) : Effect → Prop
  | .load r address => m = .load ∧ cpu.Loads arguments r address
  | .store address v => m = .store ∧ cpu.Stores arguments address v
  | .input r => m = .input ∧ ∃ token, arguments = [token] ∧ Register.ofToken token = .ok r
  | .output v => m = .output ∧ ∃ token, arguments = [token] ∧ registerValue token cpu = .ok v
  | .set .. | .compare .. | .jump _ => m.touchesWorld = false

theorem addressValue_of_resolveAddress {token : String} {cpu : Cpu} {memorySize address : Int}
    (h : resolveAddress token cpu memorySize = .ok address) :
    addressValue token cpu = .ok address := by
  obtain ⟨a, ha, hr⟩ := exists_of_bind_eq_ok h
  split at hr
  next => cases hr
  next =>
    cases hr
    exact ha

theorem Mnemonic.resolves_of_effect {m : Mnemonic} {layout : Layout} {cpu : Cpu}
    {memorySize : Int} {arguments : List String} {effect : Effect}
    (h : m.effect layout cpu memorySize arguments = .ok effect) :
    m.Resolves cpu arguments effect := by
  have hy : Yields (m.Resolves cpu arguments) (fun _ => True)
      (m.effect layout cpu memorySize arguments) := by
    unfold Mnemonic.effect
    split
    case h_1 destination address =>
      exact (Yields.self _).bind fun r hr => (Yields.self _).bind fun a ha =>
        ⟨rfl, destination, address, rfl, hr, addressValue_of_resolveAddress ha⟩
    case h_2 source address =>
      refine (Yields.self _).bind fun r hr => (Yields.self _).bind fun a ha =>
        (Yields.self _).bind fun v hv => ?_
      refine ⟨rfl, source, address, rfl, ?_, addressValue_of_resolveAddress ha⟩
      rw [registerValue, hr]
      exact hv
    case h_3 =>
      exact (Yields.any _).bind fun _ _ => (Yields.any _).bind fun _ _ =>
        (Yields.any _).bind fun _ _ => (Yields.any _).bind fun _ _ => rfl
    case h_6 =>
      exact (Yields.any _).bind fun _ _ => (Yields.any _).bind fun _ _ =>
        (Yields.any _).bind fun _ _ => rfl
    case h_4 | h_5 => exact (Yields.any _).bind fun _ _ => (Yields.any _).bind fun _ _ => rfl
    case h_7 => exact (Yields.any _).bind fun _ _ => rfl
    case h_8 =>
      split
      next => exact trivial
      next => exact (Yields.any _).bind fun _ _ => rfl
    case h_9 destination =>
      exact (Yields.self _).bind fun r hr => ⟨rfl, destination, rfl, hr⟩
    case h_10 source =>
      exact (Yields.self _).bind fun v hv => (Yields.self _).bind fun w hw =>
        ⟨rfl, source, rfl, by rw [eq_of_checkWritable hw, hv]⟩
    case h_11 => exact rfl
    case h_12 => exact trivial
  exact hy.of_ok h

/-! ## Completed instructions -/

theorem Mnemonic.name_ne_of_ne {m other : Mnemonic} {name : String} (hm : name = m.name)
    (h : m ≠ other) : name ≠ other.name := by
  rw [hm]
  exact fun e => h (name_injective e)

theorem Mnemonic.ne_of_touchesWorld {m other : Mnemonic} (h : m.touchesWorld = false)
    (ho : other.touchesWorld = true) : m ≠ other := by
  intro e
  rw [← e, h] at ho
  cases ho

/-- The registers are those after the effect: the counters that move on are none of them. -/
theorem Cpu.read_retired (cpu : Cpu) (setsPc : Bool) (r : Register) :
    ((if setsPc then cpu else cpu.advance).countCycle).read r = cpu.read r := by
  cases setsPc <;> rfl

section
variable {layout : Layout} {cpu next : Cpu} {decoded : Decoded} {world after : World}
  (h : Registry.standard.execute layout cpu decoded world = (.ok next, after))
include h

/-- All that an instruction that completes has done. -/
theorem Registry.done_of_execute :
    ∃ (m : Mnemonic) (effect : Effect) (carried : Cpu), decoded.mnemonic = m.name ∧
      m.Resolves cpu decoded.arguments effect ∧ effect.Done cpu world carried after ∧
      ∀ r, next.read r = carried.read r := by
  obtain ⟨m, effect, carried, hm, he, hp, rfl⟩ := execute_eq_ok h
  exact ⟨m, effect, carried, hm, Mnemonic.resolves_of_effect he, Effect.done_of_perform hp,
    carried.read_retired m.setsPc⟩

/-- A store writes the cell and the value that its arguments name, and no other instruction changes
memory. -/
theorem Registry.memory_of_execute :
    (decoded.mnemonic = Mnemonic.store.name ∧
      ∃ address v, cpu.Stores decoded.arguments address v ∧
        world.memory.write address v = .ok after.memory) ∨
    (decoded.mnemonic ≠ Mnemonic.store.name ∧ after.memory = world.memory) := by
  obtain ⟨m, effect, carried, hm, hr, hd, -⟩ := done_of_execute h
  have hn {other : Mnemonic} (hs : m ≠ other) : decoded.mnemonic ≠ other.name :=
    Mnemonic.name_ne_of_ne hm hs
  cases effect with
  | store address v =>
      obtain ⟨rfl, hs⟩ := hr
      obtain ⟨memory, hw, -, rfl⟩ := hd
      exact .inl ⟨hm, address, v, hs, hw⟩
  | load r address =>
      obtain ⟨rfl, -⟩ := hr
      obtain ⟨v, -, -, rfl⟩ := hd
      exact .inr ⟨hn (by decide), rfl⟩
  | input r =>
      obtain ⟨rfl, -⟩ := hr
      obtain ⟨line, v, -, -, -, rfl⟩ := hd
      exact .inr ⟨hn (by decide), rfl⟩
  | output v =>
      obtain ⟨rfl, -⟩ := hr
      obtain ⟨-, rfl⟩ := hd
      exact .inr ⟨hn (by decide), rfl⟩
  | set r v =>
      obtain ⟨-, rfl⟩ := hd
      exact .inr ⟨hn (Mnemonic.ne_of_touchesWorld hr rfl), rfl⟩
  | compare left right =>
      obtain ⟨-, rfl⟩ := hd
      exact .inr ⟨hn (Mnemonic.ne_of_touchesWorld hr rfl), rfl⟩
  | jump target =>
      obtain ⟨-, rfl⟩ := hd
      exact .inr ⟨hn (Mnemonic.ne_of_touchesWorld hr rfl), rfl⟩

/-- A load puts the cell that its arguments name into the register that they name. -/
theorem Registry.loaded_of_execute (hl : decoded.mnemonic = Mnemonic.load.name) :
    ∃ r address v, cpu.Loads decoded.arguments r address ∧ world.memory.read address = .ok v ∧
      next.read r = .ok (Word.wrap v) := by
  obtain ⟨m, effect, carried, hm, hr, hd, hreg⟩ := done_of_execute h
  obtain rfl : m = .load := Mnemonic.name_injective (hm.symm.trans hl)
  cases effect with
  | load r address =>
      obtain ⟨v, hv, hw, -⟩ := hd
      exact ⟨r, address, v, hr.2, hv, (hreg r).trans (Cpu.read_write_self hw)⟩
  | store address v => cases hr.1
  | input r => cases hr.1
  | output v => cases hr.1
  | set r v => cases hr
  | compare left right => cases hr
  | jump target => cases hr

/-- What a completed instruction has done to the console: the two console instructions read a line
and write one, and no other instruction does anything. -/
theorem Registry.console_of_execute :
    (decoded.mnemonic = Mnemonic.input.name ∧
      ∃ token r line v, decoded.arguments = [token] ∧ Register.ofToken token = .ok r ∧
        world.console.pending.head? = some line ∧ Word.ofText line.toList = .ok (some v) ∧
        next.read r = .ok v ∧ after.console = (world.console.readLine inputPrompt).2) ∨
    (decoded.mnemonic = Mnemonic.output.name ∧
      ∃ token v, decoded.arguments = [token] ∧ registerValue token cpu = .ok v ∧
        after.console = world.console.writeLine (toString v)) ∨
    (decoded.mnemonic ≠ Mnemonic.input.name ∧ decoded.mnemonic ≠ Mnemonic.output.name ∧
      after.console = world.console) := by
  obtain ⟨m, effect, carried, hm, hr, hd, hreg⟩ := done_of_execute h
  have hn {other : Mnemonic} (hs : m ≠ other) : decoded.mnemonic ≠ other.name :=
    Mnemonic.name_ne_of_ne hm hs
  cases effect with
  | input r =>
      obtain ⟨rfl, token, ht, ho⟩ := hr
      obtain ⟨line, v, hl, hv, hw, rfl⟩ := hd
      have hread : next.read r = .ok v := by
        rw [hreg r, Cpu.read_write_self hw, Word.wrap_of_inRange (Word.inRange_of_ofText hv)]
      exact .inl ⟨hm, token, r, line, v, ht, ho, hl, hv, hread, rfl⟩
  | output v =>
      obtain ⟨rfl, token, ht, ho⟩ := hr
      obtain ⟨-, rfl⟩ := hd
      exact .inr (.inl ⟨hm, token, v, ht, ho, rfl⟩)
  | load r address =>
      obtain ⟨rfl, -⟩ := hr
      obtain ⟨v, -, -, rfl⟩ := hd
      exact .inr (.inr ⟨hn (by decide), hn (by decide), rfl⟩)
  | store address v =>
      obtain ⟨rfl, -⟩ := hr
      obtain ⟨memory, -, -, rfl⟩ := hd
      exact .inr (.inr ⟨hn (by decide), hn (by decide), rfl⟩)
  | set r v =>
      obtain ⟨-, rfl⟩ := hd
      exact .inr (.inr ⟨hn (Mnemonic.ne_of_touchesWorld hr rfl),
        hn (Mnemonic.ne_of_touchesWorld hr rfl), rfl⟩)
  | compare left right =>
      obtain ⟨-, rfl⟩ := hd
      exact .inr (.inr ⟨hn (Mnemonic.ne_of_touchesWorld hr rfl),
        hn (Mnemonic.ne_of_touchesWorld hr rfl), rfl⟩)
  | jump target =>
      obtain ⟨-, rfl⟩ := hd
      exact .inr (.inr ⟨hn (Mnemonic.ne_of_touchesWorld hr rfl),
        hn (Mnemonic.ne_of_touchesWorld hr rfl), rfl⟩)

/-- A completed instruction has changed at most one register. -/
theorem Registry.registers_of_execute : ∃ r : Register, ∀ q, q ≠ r → next.read q = cpu.read q := by
  obtain ⟨m, effect, carried, -, -, hd, hreg⟩ := done_of_execute h
  have written {r : Register} {v : Int} (hw : cpu.write r v = .ok carried) :
      ∃ r : Register, ∀ q, q ≠ r → next.read q = cpu.read q :=
    ⟨r, fun q hq => (hreg q).trans (Cpu.read_write_of_ne hw hq)⟩
  have kept (hk : ∀ q, carried.read q = cpu.read q) :
      ∃ r : Register, ∀ q, q ≠ r → next.read q = cpu.read q :=
    ⟨⟨0, by decide⟩, fun q _ => (hreg q).trans (hk q)⟩
  cases effect with
  | set r v => exact written hd.1
  | load r address =>
      obtain ⟨v, -, hw, -⟩ := hd
      exact written hw
  | input r =>
      obtain ⟨line, v, -, -, hw, -⟩ := hd
      exact written hw
  | store address v =>
      obtain ⟨memory, -, rfl, -⟩ := hd
      exact kept fun _ => rfl
  | compare left right =>
      obtain ⟨rfl, -⟩ := hd
      exact kept fun _ => rfl
  | jump target =>
      obtain ⟨rfl, -⟩ := hd
      exact kept fun _ => rfl
  | output v =>
      obtain ⟨rfl, -⟩ := hd
      exact kept fun _ => rfl

end

end RegisterMachine
