import RegisterMachine.Crash
import RegisterMachine.Index
import RegisterMachine.Word

/-!
# Memory

A fixed number of cells, at least one and no more than indices can number, each holding a machine
word. Writing wraps.
-/

namespace RegisterMachine

structure Memory where
  cells : Array Int
  nonempty : 0 < cells.size
  indexed : cells.size ≤ Index.greatest

namespace Memory

/-- The number of cells that an address of eight bits reaches. -/
def standardSize : Nat := 0x100

def zeroed (size : Nat) (nonempty : 0 < size) (indexed : size ≤ Index.greatest) : Memory :=
  { cells := Array.replicate size 0
    nonempty := by simpa using nonempty
    indexed := by simpa using indexed }

def standard : Memory :=
  zeroed standardSize (by decide) (by decide)

/-- Memory of a size, where the host has room for a number of cells. -/
def ofSize (room : Nat) (size : Int) : Except Crash Memory :=
  if nonempty : 0 < size then
    if indexed : size ≤ Index.greatest then
      if size ≤ room then .ok (zeroed size.toNat (by omega) (by omega)) else .error .outOfMemory
    else .error .sizeOverflow
  else .error (Crash.noMemory size).stated

def size (m : Memory) : Nat :=
  m.cells.size

def inBounds (m : Memory) (address : Int) : Bool :=
  0 ≤ address && address < m.size

def read (m : Memory) (address : Int) : Except Crash Int :=
  if m.inBounds address then .ok (m.cells.getD address.toNat 0)
  else .error (Crash.noCell address).stated

/-- Puts an integer into a cell, wrapped to a machine word. -/
def write (m : Memory) (address v : Int) : Except Crash Memory :=
  if m.inBounds address then
    .ok
      { cells := m.cells.setIfInBounds address.toNat (Word.wrap v)
        nonempty := by simpa using m.nonempty
        indexed := by simpa using m.indexed }
  else .error (Crash.noCell address).stated

/-- All cells with their addresses, ascending. -/
def entries (m : Memory) : List (Nat × Int) :=
  m.cells.toList.zipIdx.map Prod.swap

/-- An entry in front of those found so far, if its cell is not zero. -/
def consNonzero (entry : Nat × Int) (found : List (Nat × Int)) : List (Nat × Int) :=
  if entry.2 = 0 then found else entry :: found

/-- The cells that are not zero, ascending. They are gathered from the last cell to the first. -/
def nonzero (m : Memory) : List (Nat × Int) :=
  m.size.foldRev (fun address _ => consNonzero (address, m.cells.getD address 0)) []

theorem foldRev_consNonzero
    (m : Memory) {count : Nat} (h : count ≤ m.size) (found : List (Nat × Int)) :
    count.foldRev (fun address _ => consNonzero (address, m.cells.getD address 0)) found =
      (m.entries.take count).filter (·.2 ≠ 0) ++ found := by
  induction count generalizing found with
  | zero => simp
  | succ count ih =>
      have hs : count < m.cells.size := h
      have he : m.entries[count]? = some (count, m.cells.getD count 0) := by
        simp [entries, hs]
      rw [Nat.foldRev_succ, ih (Nat.le_of_lt h), List.take_add_one, he]
      generalize m.cells.getD count 0 = v
      by_cases hv : v = 0 <;> simp [consNonzero, hv]

theorem nonzero_eq_filter (m : Memory) : m.nonzero = m.entries.filter (·.2 ≠ 0) := by
  have hl : m.entries.length = m.size := by simp [entries, size]
  rw [nonzero, foldRev_consNonzero m (Nat.le_refl _), ← hl, List.take_length, List.append_nil]

theorem ofSize_of_fits
    {room : Nat} {size : Int} (nonempty : 0 < size) (indexed : size ≤ Index.greatest)
    (hr : size ≤ room) :
    ofSize room size = .ok (zeroed size.toNat (by omega) (by omega)) := by
  rw [ofSize, dif_pos nonempty, dif_pos indexed, if_pos hr]

/-- Memory comes all zero and with as many cells as were asked for. -/
theorem ofSize_eq_ok
    {room : Nat} {size : Int} {m : Memory} (h : ofSize room size = .ok m) :
    ∃ (count : Nat) (nonempty : 0 < count) (indexed : count ≤ Index.greatest),
      size = count ∧ count ≤ room ∧ m = zeroed count nonempty indexed := by
  unfold ofSize at h
  split at h
  · split at h
    · split at h
      · cases h
        exact ⟨size.toNat, by omega, by omega, by omega, by omega, rfl⟩
      · cases h
    · cases h
  · cases h

theorem inBounds_iff {m : Memory} {address : Int} :
    m.inBounds address = true ↔ 0 ≤ address ∧ address < m.size := by
  simp [inBounds]

@[simp] theorem size_write
    {m next : Memory} {address v : Int} (h : m.write address v = .ok next) :
    next.size = m.size := by
  unfold write at h
  split at h
  · cases h
    simp [size]
  · cases h

theorem read_write_self
    {m next : Memory} {address v : Int} (h : m.write address v = .ok next) :
    next.read address = .ok (Word.wrap v) := by
  have hs := size_write h
  unfold write at h
  split at h
  · rename_i hb
    have hb' := inBounds_iff.1 hb
    have hlt : address.toNat < m.cells.size := by
      have := hb'.2
      simp only [size] at this
      omega
    cases h
    have hn : inBounds ⟨m.cells.setIfInBounds address.toNat (Word.wrap v),
        by simpa using m.nonempty, by simpa using m.indexed⟩ address = true := by
      rw [inBounds_iff, hs]
      exact hb'
    simp [read, hn, hlt]
  · cases h

end Memory

end RegisterMachine
