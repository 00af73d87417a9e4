import RegisterMachine.Cpu
import RegisterMachine.Memory

/-!
# Storage that holds words

A complete register file and a memory hold machine words, and in that case reading a register
cannot fail, nor can writing one, nor any access to a cell in bounds. Writes keep what they do not
name, and what they put is a word again.
-/

namespace RegisterMachine

/-! ## Registers -/

structure Cpu.HoldsWords (cpu : Cpu) : Prop where
  length_eq : cpu.registers.length = registerCount
  inRange : ∀ v ∈ cpu.registers, Word.inRange v = true

namespace Cpu

/-- The value of a register; zero if the register file is too short. -/
def value (cpu : Cpu) (r : Register) : Int :=
  cpu.registers.getD r.val 0

def put (cpu : Cpu) (r : Register) (v : Int) : Cpu :=
  { cpu with registers := cpu.registers.set r.val (Word.wrap v) }

theorem HoldsWords.lt {cpu : Cpu} (h : cpu.HoldsWords) (r : Register) :
    r.val < cpu.registers.length := by
  rw [h.length_eq]
  exact r.isLt

theorem HoldsWords.inRange_value {cpu : Cpu} (h : cpu.HoldsWords) (r : Register) :
    Word.inRange (cpu.value r) = true := by
  have hr := h.lt r
  have hv : cpu.value r = cpu.registers[r.val] := by simp [value, hr]
  rw [hv]
  exact h.inRange _ (List.getElem_mem hr)

theorem HoldsWords.read_eq {cpu : Cpu} (h : cpu.HoldsWords) (r : Register) :
    cpu.read r = .ok (cpu.value r) := by
  have hr := h.lt r
  simp [read, value, hr]

theorem HoldsWords.write_eq {cpu : Cpu} (h : cpu.HoldsWords) (r : Register) (v : Int) :
    cpu.write r v = .ok (cpu.put r v) := by
  rw [write, if_pos (h.lt r)]
  rfl

theorem HoldsWords.put {cpu : Cpu} (h : cpu.HoldsWords) (r : Register) (v : Int) :
    (cpu.put r v).HoldsWords := by
  constructor
  · rw [Cpu.put, List.length_set]
    exact h.length_eq
  · intro w hw
    rcases List.mem_or_eq_of_mem_set hw with hw | rfl
    · exact h.inRange w hw
    · exact Word.inRange_wrap v

theorem value_put_self {cpu : Cpu} (h : cpu.HoldsWords) (r : Register) (v : Int) :
    (cpu.put r v).value r = Word.wrap v := by
  have hr := h.lt r
  simp [put, value, hr]

theorem value_put_of_ne (cpu : Cpu) {r q : Register} (h : q ≠ r) (v : Int) :
    (cpu.put r v).value q = cpu.value q := by
  have : r.val ≠ q.val := fun e => h (Fin.ext e.symm)
  simp [put, value, List.getD_eq_getElem?_getD, this]

theorem holdsWords_initial : initial.HoldsWords where
  length_eq := rfl
  inRange := by decide

/-- What the check behind each instruction accepts. -/
theorem isValid_iff {cpu : Cpu} {length : Int} :
    cpu.isValid (some length) = true ↔
      cpu.HoldsWords ∧ 0 ≤ cpu.pc ∧ cpu.pc ≤ length ∧ 0 ≤ cpu.cycles := by
  have hw : registersValid (cpu.registers.map some) = true ↔ cpu.HoldsWords := by
    simp only [registersValid, List.length_map, List.all_map, Bool.and_eq_true, beq_iff_eq,
      List.all_eq_true]
    exact ⟨fun h => ⟨h.1, h.2⟩, fun h => ⟨h.length_eq, h.inRange⟩⟩
  simp only [isValid, Bool.and_eq_true, hw, countersValid, Option.all_some, decide_eq_true_eq,
    and_assoc]

end Cpu

/-! ## Cells -/

def Memory.HoldsWords (m : Memory) : Prop :=
  ∀ v ∈ m.cells, Word.inRange v = true

namespace Memory

theorem holdsWords_zeroed (size : Nat) (nonempty : 0 < size) (indexed : size ≤ Index.greatest) :
    (zeroed size nonempty indexed).HoldsWords := by
  intro v hv
  have h0 : v = 0 := (Array.mem_replicate.1 hv).2
  rw [h0]
  decide

theorem read_zeroed {size : Nat} (nonempty : 0 < size) (indexed : size ≤ Index.greatest)
    {address : Int} (h0 : 0 ≤ address) (hl : address < size) :
    (zeroed size nonempty indexed).read address = .ok 0 := by
  have hb : (zeroed size nonempty indexed).inBounds address = true := by
    rw [inBounds_iff, Memory.size, zeroed, Array.size_replicate]
    exact ⟨h0, hl⟩
  have hlt : address.toNat < size := by omega
  rw [read, if_pos hb]
  simp [zeroed, hlt]

theorem read_of_inBounds {m : Memory} {address : Int} (h : m.inBounds address = true) :
    ∃ v, m.cells[address.toNat]? = some v ∧ m.read address = .ok v := by
  have hb := inBounds_iff.1 h
  have hlt : address.toNat < m.cells.size := by
    have := hb.2
    simp only [size] at this
    omega
  exact ⟨m.cells[address.toNat], Array.getElem?_eq_getElem hlt, by simp [read, h, hlt]⟩

theorem write_of_inBounds {m : Memory} {address : Int} (h : m.inBounds address = true) (v : Int) :
    ∃ next, m.write address v = .ok next ∧
      next.cells = m.cells.setIfInBounds address.toNat (Word.wrap v) := by
  unfold write
  rw [if_pos h]
  exact ⟨_, rfl, rfl⟩

theorem cells_write {m next : Memory} {address v : Int} (h : m.write address v = .ok next) :
    next.cells = m.cells.setIfInBounds address.toNat (Word.wrap v) := by
  unfold write at h
  split at h
  · cases h
    rfl
  · cases h

theorem inBounds_of_read {m : Memory} {address v : Int} (h : m.read address = .ok v) :
    m.inBounds address = true := by
  unfold read at h
  split at h
  · assumption
  · cases h

theorem inBounds_of_write {m next : Memory} {address v : Int} (h : m.write address v = .ok next) :
    m.inBounds address = true := by
  unfold write at h
  split at h
  · assumption
  · cases h

/-- A write is seen at its own address and nowhere else. -/
theorem read_write {m next : Memory} {address v : Int} (h : m.write address v = .ok next)
    (other : Int) :
    next.read other = if other = address then .ok (Word.wrap v) else m.read other := by
  split
  next he =>
    rw [he]
    exact read_write_self h
  next hn =>
    have hb : next.inBounds other = m.inBounds other := by simp only [inBounds, size_write h]
    unfold read
    rw [hb]
    split
    next hi =>
      have ha : 0 ≤ address := (inBounds_iff.1 (inBounds_of_write h)).1
      have h0 : 0 ≤ other := (inBounds_iff.1 hi).1
      have hne : address.toNat ≠ other.toNat := by omega
      simp [cells_write h, Array.getD_eq_getD_getElem?, hne]
    next => rfl

theorem HoldsWords.write {m next : Memory} (hm : m.HoldsWords) {address v : Int}
    (h : m.write address v = .ok next) : next.HoldsWords := by
  intro w hw
  rw [cells_write h] at hw
  rcases Array.mem_or_eq_of_mem_setIfInBounds hw with hw | rfl
  · exact hm w hw
  · exact Word.inRange_wrap v

end Memory

end RegisterMachine
