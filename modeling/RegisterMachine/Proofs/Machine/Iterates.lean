import RegisterMachine.Proofs.Machine.Consistency
import RegisterMachine.Proofs.Outcome

/-!
# Iterates of a machine

The machines that successive steps lead through, for as long as the program is not finished and no
step fails. A run is described by them: it ends where they end, or at its budget.
-/

namespace RegisterMachine.Machine

/-- The machine after a number of instructions that succeed, if there are as many. -/
def nth? (m : Machine) : Nat → Option Machine
  | 0 => some m
  | k + 1 =>
      if m.isFinished then none
      else
        match m.step with
        | (.ok _, next) => next.nth? k
        | (.error _, _) => none

section
variable {m : Machine}

theorem nth?_zero (m : Machine) : m.nth? 0 = some m := rfl

theorem nth?_succ_of_isFinished (h : m.isFinished = true) (k : Nat) : m.nth? (k + 1) = none := by
  simp only [nth?, h, if_true]

section
variable (h : m.isFinished = false)
include h

theorem nth?_succ_of_step_ok {entry : Option TraceEntry} {next : Machine}
    (hs : m.step = (.ok entry, next)) (k : Nat) : m.nth? (k + 1) = next.nth? k := by
  simp [nth?, h, hs]

theorem nth?_succ_of_step_error {failure : Failure Report} {next : Machine}
    (hs : m.step = (.error failure, next)) (k : Nat) : m.nth? (k + 1) = none := by
  simp [nth?, h, hs]

end

theorem Consistent.nth? {size : Int} (h : m.Consistent size) {k : Nat} {s : Machine}
    (hk : m.nth? k = some s) : s.Consistent size := by
  induction k generalizing m with
  | zero =>
      cases hk
      exact h
  | succ k ih =>
      cases hf : m.isFinished with
      | true =>
          rw [nth?_succ_of_isFinished hf] at hk
          cases hk
      | false =>
          have hn := h.step.1
          cases hs : m.step with
          | mk result next =>
              rw [hs] at hn
              cases result with
              | ok entry =>
                  rw [nth?_succ_of_step_ok hf hs] at hk
                  exact ih hn hk
              | error failure =>
                  rw [nth?_succ_of_step_error hf hs] at hk
                  cases hk

end

/-- The steps behind some number of steps are those that the machine takes there. -/
theorem nth?_add {m s : Machine} {k : Nat} (h : m.nth? k = some s) (j : Nat) :
    m.nth? (k + j) = s.nth? j := by
  induction k generalizing m with
  | zero =>
      cases h
      rw [Nat.zero_add]
  | succ k ih =>
      cases hf : m.isFinished with
      | true => simp [nth?_succ_of_isFinished hf] at h
      | false =>
          cases hs : m.step with
          | mk result next =>
              cases result with
              | error failure => simp [nth?_succ_of_step_error hf hs] at h
              | ok entry =>
                  rw [nth?_succ_of_step_ok hf hs] at h
                  rw [Nat.succ_add, nth?_succ_of_step_ok hf hs, ih h]

/-- An iteration can be taken up after any number of its steps. -/
theorem iterate_add {m s : Machine} {k : Nat} (h : m.nth? k = some s) (budget : Nat) :
    m.iterate (k + budget) = s.iterate budget := by
  induction k generalizing m with
  | zero =>
      cases h
      rw [Nat.zero_add]
  | succ k ih =>
      cases hf : m.isFinished with
      | true => simp [nth?_succ_of_isFinished hf] at h
      | false =>
          cases hs : m.step with
          | mk result next =>
              cases result with
              | error failure => simp [nth?_succ_of_step_error hf hs] at h
              | ok entry =>
                  rw [nth?_succ_of_step_ok hf hs] at h
                  rw [Nat.succ_add, iterate_succ_of_step_ok hf hs, ih h]

/-- An iteration that uses up its budget has done as many steps, and could go on. -/
theorem nth?_of_exhausted {m s : Machine} {budget : Nat} (h : m.iterate budget = (.exhausted, s)) :
    m.nth? budget = some s ∧ s.isFinished = false := by
  induction budget generalizing m with
  | zero =>
      cases hf : m.isFinished with
      | true => simp [iterate_of_isFinished hf] at h
      | false =>
          rw [iterate_zero hf] at h
          cases h
          exact ⟨rfl, hf⟩
  | succ budget ih =>
      cases hf : m.isFinished with
      | true => simp [iterate_of_isFinished hf] at h
      | false =>
          cases hs : m.step with
          | mk result next =>
              cases result with
              | error failure => simp [iterate_succ_of_step_error hf hs] at h
              | ok entry =>
                  rw [iterate_succ_of_step_ok hf hs] at h
                  rw [nth?_succ_of_step_ok hf hs]
                  exact ih h

/-- Whether a machine has more to execute after a number of steps. -/
def GoesOn (m : Machine) (budget : Nat) : Prop :=
  ∃ s, m.nth? budget = some s ∧ s.isFinished = false

/-- An iteration uses up its budget exactly if it could go on. -/
theorem iterate_exhausted_iff (m : Machine) (budget : Nat) :
    (m.iterate budget).1 = .exhausted ↔ m.GoesOn budget := by
  constructor
  · intro h
    exact ⟨(m.iterate budget).2, nth?_of_exhausted (Prod.ext h rfl)⟩
  · intro h
    obtain ⟨s, hs, hf⟩ := h
    have hi := iterate_add hs 0
    rw [Nat.add_zero, iterate_zero hf] at hi
    rw [hi]

/-! ## What an iteration visits -/

/-- Whether one of the machines with which an iteration begins its steps has a property. -/
def Visits (m : Machine) (budget : Nat) (P : Machine → Prop) : Prop :=
  ∃ k s, k < budget ∧ m.nth? k = some s ∧ P s

section
variable {m : Machine} {P : Machine → Prop}

theorem not_visits_zero : ¬m.Visits 0 P := by
  intro h
  obtain ⟨k, s, hk, -⟩ := h
  exact Nat.not_lt_zero k hk

theorem visits_succ_iff (budget : Nat) :
    m.Visits (budget + 1) P ↔ P m ∨ ∃ k s, k < budget ∧ m.nth? (k + 1) = some s ∧ P s := by
  constructor
  · intro h
    obtain ⟨k, s, hk, hs, hp⟩ := h
    cases k with
    | zero =>
        cases hs
        exact .inl hp
    | succ k => exact .inr ⟨k, s, Nat.lt_of_succ_lt_succ hk, hs, hp⟩
  · intro h
    rcases h with hp | ⟨k, s, hk, hs, hp⟩
    · exact ⟨0, m, Nat.succ_pos budget, rfl, hp⟩
    · exact ⟨k + 1, s, Nat.succ_lt_succ hk, hs, hp⟩

theorem visits_succ_of_end (h : ∀ k, m.nth? (k + 1) = none) (budget : Nat) :
    m.Visits (budget + 1) P ↔ P m := by
  rw [visits_succ_iff]
  refine or_iff_left ?_
  intro hv
  obtain ⟨k, s, -, hs, -⟩ := hv
  rw [h k] at hs
  cases hs

theorem visits_succ_of_step_ok (hf : m.isFinished = false) {entry : Option TraceEntry}
    {next : Machine} (hs : m.step = (.ok entry, next)) (budget : Nat) :
    m.Visits (budget + 1) P ↔ P m ∨ next.Visits budget P := by
  rw [visits_succ_iff]
  simp only [nth?_succ_of_step_ok hf hs]
  rfl

end

/-- Whether the next instruction of a machine crashes. -/
def CrashesNext (m : Machine) : Prop :=
  m.isFinished = false ∧ Crashes m.step.1

/-- An iteration crashes exactly where one of the machines that it visits does. -/
theorem iterate_crashes_iff (m : Machine) (budget : Nat) :
    (∃ reason, (m.iterate budget).1 = .failed (.crash reason)) ↔ m.Visits budget CrashesNext := by
  -- The machine takes a step each time that the budget shrinks by one.
  induction budget generalizing m with
  | zero =>
      refine iff_of_false ?_ not_visits_zero
      intro h
      obtain ⟨reason, h⟩ := h
      unfold iterate at h
      split at h <;> cases h
  | succ budget ih =>
      cases hf : m.isFinished with
      | true =>
          rw [iterate_of_isFinished hf, visits_succ_of_end (nth?_succ_of_isFinished hf)]
          refine iff_of_false ?_ ?_
          · intro h
            obtain ⟨reason, h⟩ := h
            cases h
          · intro h
            obtain ⟨hn, -⟩ := h
            rw [hf] at hn
            cases hn
      | false =>
          cases hs : m.step with
          | mk result next =>
              cases result with
              | ok entry =>
                  rw [iterate_succ_of_step_ok hf hs, ih, visits_succ_of_step_ok hf hs]
                  refine (or_iff_right ?_).symm
                  intro h
                  obtain ⟨-, hc⟩ := h
                  rw [hs] at hc
                  exact not_crashes_ok entry hc
              | error failure =>
                  rw [iterate_succ_of_step_error hf hs,
                    visits_succ_of_end (nth?_succ_of_step_error hf hs)]
                  constructor
                  · intro h
                    obtain ⟨reason, h⟩ := h
                    cases h
                    exact ⟨hf, reason, by rw [hs]⟩
                  · intro h
                    obtain ⟨-, reason, hc⟩ := h
                    rw [hs] at hc
                    cases hc
                    exact ⟨reason, rfl⟩

end RegisterMachine.Machine
