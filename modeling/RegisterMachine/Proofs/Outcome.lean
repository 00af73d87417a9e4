import RegisterMachine.Fault

/-!
# Outcomes

A condition on the value of a computation and one on its failure, carried through a chain of
computations; and the failures that an instruction can have, as opposed to those that would mean a
defect of the machine.
-/

namespace RegisterMachine

/-- The value of a computation, or its failure if it has none, meets a condition. -/
def Yields (value : α → Prop) (failure : ε → Prop) : Except ε α → Prop
  | .ok a => value a
  | .error e => failure e

namespace Yields

variable {P : α → Prop} {Q : β → Prop} {E : ε → Prop}

theorem bind {x : Except ε α} {f : α → Except ε β} (hx : Yields P E x)
    (hf : ∀ a, P a → Yields Q E (f a)) : Yields Q E (x >>= f) := by
  cases x with
  | error e => exact hx
  | ok a => exact hf a hx

theorem map {x : Except ε α} {f : α → β} (hx : Yields P E x) (hf : ∀ a, P a → Q (f a)) :
    Yields Q E (x.map f) := by
  cases x with
  | error e => exact hx
  | ok a => exact hf a hx

/-- The value of a computation is the value it has. -/
theorem self (x : Except ε α) : Yields (x = .ok ·) (fun _ => True) x := by
  cases x with
  | error e => trivial
  | ok a => rfl

theorem any (x : Except ε α) : Yields (fun _ => True) (fun _ => True) x := by
  cases x <;> trivial

theorem of_ok {x : Except ε α} {a : α} (hx : Yields P E x) (h : x = .ok a) : P a := by
  rw [h] at hx
  exact hx

theorem of_error {x : Except ε α} {e : ε} (hx : Yields P E x) (h : x = .error e) : E e := by
  rw [h] at hx
  exact hx

end Yields

theorem exists_of_bind_eq_ok {x : Except ε α} {f : α → Except ε β} {b : β}
    (h : x >>= f = .ok b) : ∃ a, x = .ok a ∧ f a = .ok b := by
  cases x with
  | error e => cases h
  | ok a => exact ⟨a, rfl, h⟩

theorem map_eq_error_iff {x : Except ε α} {f : α → β} {e : ε} :
    x.map f = .error e ↔ x = .error e := by
  cases x <;> simp [Except.map]

theorem eq_ok_of_orCrash {x : Except Crash α} {a : α}
    (h : orCrash x = (.ok a : Except (Failure φ) α)) : x = .ok a := by
  cases x with
  | error reason => cases h
  | ok b =>
      cases h
      rfl

/-- A check of each item in order fails where the first item fails that does. -/
theorem forM_eq_error_iff {f : α → Except ε PUnit} {items : List α} {e : ε} :
    forM items f = .error e ↔ ∃ front item back, items = front ++ item :: back ∧
      (∀ passed ∈ front, f passed = .ok ⟨⟩) ∧ f item = .error e := by
  induction items with
  | nil =>
      refine iff_of_false nofun ?_
      rintro ⟨front, item, back, h, -⟩
      cases front <;> cases h
  | cons first rest ih =>
      cases hf : f first with
      | error reason =>
          simp only [List.forM_cons, hf, bind, Except.bind, Except.error.injEq]
          constructor
          · rintro rfl
            exact ⟨[], first, rest, rfl, nofun, hf⟩
          · rintro ⟨front, item, back, h, hp, he⟩
            cases front with
            | nil =>
                cases h
                exact Except.error.inj (hf.symm.trans he)
            | cons passed front =>
                cases h
                have hok := hp _ List.mem_cons_self
                rw [hf] at hok
                cases hok
      | ok _ =>
          simp only [List.forM_cons, hf, bind, Except.bind, ih]
          constructor
          · rintro ⟨front, item, back, rfl, hp, he⟩
            exact ⟨first :: front, item, back, rfl, List.forall_mem_cons.2 ⟨hf, hp⟩, he⟩
          · rintro ⟨front, item, back, h, hp, he⟩
            cases front with
            | nil =>
                cases h
                rw [hf] at he
                cases he
            | cons passed front =>
                cases h
                exact ⟨front, item, back, rfl, (List.forall_mem_cons.1 hp).2, he⟩

/-! ## Crashes -/

def Crashes (x : Except (Failure φ) α) : Prop :=
  ∃ reason, x = .error (.crash reason)

theorem not_crashes_ok (a : α) : ¬Crashes (.ok a : Except (Failure φ) α) := by
  intro h
  obtain ⟨reason, h⟩ := h
  cases h

theorem not_crashes_fault (report : φ) : ¬Crashes (.error (.fault report) : Except _ α) := by
  intro h
  obtain ⟨reason, h⟩ := h
  cases h

theorem crashes_map_iff (x : Except (Failure φ) α) (f : α → β) :
    Crashes (x.map f) ↔ Crashes x := by
  cases x with
  | ok a => exact iff_of_false (not_crashes_ok (f a)) (not_crashes_ok a)
  | error failure =>
      constructor
      · intro h
        obtain ⟨reason, h⟩ := h
        cases h
        exact ⟨reason, rfl⟩
      · intro h
        obtain ⟨reason, h⟩ := h
        cases h
        exact ⟨reason, rfl⟩

/-- A chain crashes in its first part, or else in what follows. -/
theorem crashes_bind_iff (x : Except (Failure φ) α) (f : α → Except (Failure φ) β) :
    Crashes (x >>= f) ↔ Crashes x ∨ ∃ a, x = .ok a ∧ Crashes (f a) := by
  cases x with
  | ok a =>
      constructor
      · intro h
        exact .inr ⟨a, rfl, h⟩
      · intro h
        rcases h with h | ⟨b, hb, h⟩
        · exact (not_crashes_ok a h).elim
        · cases hb
          exact h
  | error failure =>
      constructor
      · intro h
        obtain ⟨reason, h⟩ := h
        cases h
        exact .inl ⟨reason, rfl⟩
      · intro h
        rcases h with ⟨reason, h⟩ | ⟨b, hb, -⟩
        · cases h
          exact ⟨reason, rfl⟩
        · cases hb

/-! ## Failures of an instruction -/

/-- The faults that an instruction of a loaded program can have. The others are those of a run, of a
request without a program, and of a machine that has gone wrong. -/
def Fault.OfInstruction : Fault → Prop
  | .arity .. | .registerForm _ | .registerNumber _ | .addressForm _ | .addressRange .. |
    .literalForm _ | .operandForm _ | .unknownLabel _ | .noComparison _ | .badInput => True
  | .unknownInstruction _ | .invalidState .. | .cycleLimit _ | .notLoaded => False

def Failure.OfInstruction : Failure Fault → Prop
  | .fault report => report.OfInstruction
  | .crash reason => ∃ error, reason = .numeral error

def Failure.Reported : Failure Fault → Prop
  | .fault report => report.OfInstruction
  | .crash _ => False

theorem Failure.Reported.ofInstruction {failure : Failure Fault} (h : failure.Reported) :
    failure.OfInstruction := by
  cases failure with
  | fault report => exact h
  | crash reason => exact h.elim

theorem Failure.Reported.not_crashes {failure : Failure Fault} (h : failure.Reported) :
    ¬Crashes (.error failure : Except (Failure Fault) α) := by
  intro hc
  obtain ⟨reason, he⟩ := hc
  cases he
  exact h

end RegisterMachine
