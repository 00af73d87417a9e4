import Mathlib.Data.List.Basic
import RegisterMachine.Proofs.Instruction.Command
import RegisterMachine.Proofs.Text.Numeral

/-!
# Roles of arguments

What each argument of an instruction stands for, and the order in which the arguments are looked at:
reading the arguments of an instruction is checking each token for its role, from left to right, and
the first one that fails decides.
-/

namespace RegisterMachine

inductive Role where
  | register
  | place
  | source
  | label
  deriving DecidableEq, Repr

theorem Mnemonic.name_injective {m k : Mnemonic} (h : m.name = k.name) : m = k := by
  have ho := congrArg ofName? h
  simpa using ho

/-- The roles of the arguments of a mnemonic, in order. -/
def Mnemonic.roles : Mnemonic → List Role
  | .load | .store => [.register, .place]
  | .combine _ => [.register, .register, .source]
  | .move | .moveNot | .compare => [.register, .source]
  | .branch | .branchIf _ => [.label]
  | .input | .output => [.register]
  | .halt => []

/-- Reads a token in a role. Any token is a label as far as reading goes. -/
def Role.check (role : Role) (token : String) : Except (Failure Fault) Unit :=
  match role with
  | .register => (Register.ofToken token).map fun _ => ()
  | .place => (Place.ofToken token).map fun _ => ()
  | .source => (Source.ofToken token).map fun _ => ()
  | .label => .ok ()

def checkAll : List (Role × String) → Except (Failure Fault) Unit
  | [] => .ok ()
  | (role, token) :: rest => do
      role.check token
      checkAll rest

theorem Command.ofTokens_of_length_ne {m : Mnemonic} {arguments : List String}
    (h : arguments.length ≠ m.arity) :
    Command.ofTokens m arguments = .error (.fault (.arity m.name m.arity arguments.length)) := by
  unfold ofTokens
  split <;> first | rfl | exact (h rfl).elim

/-- Reading the arguments of an instruction is checking them in order. -/
theorem Command.ofTokens_check {m : Mnemonic} {arguments : List String}
    (h : arguments.length = m.arity) :
    (Command.ofTokens m arguments).map (fun _ => ()) = checkAll (m.roles.zip arguments) := by
  cases m with
  | load | store =>
      obtain ⟨a, b, rfl⟩ := List.length_eq_two.1 h
      simp only [ofTokens, Mnemonic.roles, List.zip_cons_cons, List.zip_nil_right, checkAll,
        Role.check]
      cases Register.ofToken a <;> cases Place.ofToken b <;> rfl
  | combine op =>
      obtain ⟨a, b, c, rfl⟩ := List.length_eq_three.1 h
      simp only [ofTokens, Mnemonic.roles, List.zip_cons_cons, List.zip_nil_right, checkAll,
        Role.check]
      cases Register.ofToken a <;> cases Register.ofToken b <;> cases Source.ofToken c <;> rfl
  | move | moveNot | compare =>
      obtain ⟨a, b, rfl⟩ := List.length_eq_two.1 h
      simp only [ofTokens, Mnemonic.roles, List.zip_cons_cons, List.zip_nil_right, checkAll,
        Role.check]
      cases Register.ofToken a <;> cases Source.ofToken b <;> rfl
  | branch | branchIf relation =>
      obtain ⟨a, rfl⟩ := List.length_eq_one_iff.1 h
      rfl
  | input | output =>
      obtain ⟨a, rfl⟩ := List.length_eq_one_iff.1 h
      simp only [ofTokens, Mnemonic.roles, List.zip_cons_cons, List.zip_nil_right, checkAll,
        Role.check]
      cases Register.ofToken a <;> rfl
  | halt =>
      obtain rfl := List.length_eq_zero_iff.1 h
      rfl

/-! ## Tokens that crash -/

/-- Whether a token names a register by a number with too many digits. -/
def Register.Overlong (token : String) : Prop :=
  ∃ digits, registerDigits? token.toList = some digits ∧ Text.maxDigits < digits.length

/-- Whether a token has the form that its role asks for, but with a numeral in it that denotes no
number. -/
def Role.Unreadable (role : Role) (token : String) : Prop :=
  match role with
  | .register => Register.Overlong token
  | .place =>
      Register.Overlong token ∨ namesRegister token = false ∧ Text.Unreadable token.toList
  | .source =>
      Register.Overlong token ∨ ∃ number, token.toList = '#' :: number ∧ Text.Unreadable number
  | .label => False

theorem crashes_registerOfToken_iff (token : String) :
    Crashes (Register.ofToken token) ↔ Register.Overlong token := by
  unfold Register.ofToken Register.Overlong
  cases hd : registerDigits? token.toList with
  | none =>
      refine iff_of_false (not_crashes_fault _) ?_
      intro h
      obtain ⟨digits, h, -⟩ := h
      cases h
  | some digits =>
      dsimp only
      by_cases hl : Text.maxDigits < digits.length
      · rw [if_pos hl]
        exact iff_of_true ⟨_, rfl⟩ ⟨digits, rfl, hl⟩
      · rw [if_neg hl]
        refine iff_of_false ?_ ?_
        · split
          · exact not_crashes_ok _
          · exact not_crashes_fault _
        · intro h
          obtain ⟨digits, h, hlong⟩ := h
          cases h
          exact hl hlong

theorem crashes_wordOr_iff (fault : Fault) (text : List Char) :
    Crashes (wordOr fault text) ↔ Text.Unreadable text := by
  rw [← Word.ofText_eq_error_iff]
  unfold wordOr
  cases Word.ofText text with
  | error e => exact iff_of_true ⟨_, rfl⟩ ⟨e, rfl⟩
  | ok v? =>
      refine iff_of_false ?_ ?_
      · cases v? with
        | none => exact not_crashes_fault _
        | some v => exact not_crashes_ok v
      · intro h
        obtain ⟨e, h⟩ := h
        cases h

theorem namesRegister_of_overlong {token : String} (h : Register.Overlong token) :
    namesRegister token = true := by
  obtain ⟨digits, hd, -⟩ := h
  unfold registerDigits? at hd
  split at hd
  next suffix ht => simp [namesRegister, ht]
  next => cases hd

theorem crashes_placeOfToken_iff (token : String) :
    Crashes (Place.ofToken token) ↔ Role.place.Unreadable token := by
  unfold Place.ofToken Role.Unreadable
  by_cases hn : namesRegister token = true
  · rw [if_pos hn]
    refine (crashes_map_iff (Register.ofToken token) Place.indirect).trans ?_
    rw [crashes_registerOfToken_iff]
    refine ⟨.inl, ?_⟩
    intro h
    rcases h with h | ⟨hf, -⟩
    · exact h
    · rw [hn] at hf
      cases hf
  · rw [if_neg hn]
    refine (crashes_map_iff (wordOr (.addressForm token) token.toList) Place.direct).trans ?_
    rw [crashes_wordOr_iff]
    refine ⟨fun h => .inr ⟨eq_false_of_ne_true hn, h⟩, ?_⟩
    intro h
    rcases h with h | ⟨-, h⟩
    · exact (hn (namesRegister_of_overlong h)).elim
    · exact h

theorem crashes_sourceOfToken_iff (token : String) :
    Crashes (Source.ofToken token) ↔ Role.source.Unreadable token := by
  unfold Source.ofToken Role.Unreadable
  split
  next number ht =>
    refine (crashes_map_iff (wordOr (.literalForm token) number) Source.literal).trans ?_
    rw [crashes_wordOr_iff]
    refine ⟨fun h => .inr ⟨number, ht, h⟩, ?_⟩
    intro h
    rcases h with h | ⟨number', ht', h⟩
    · have hn := namesRegister_of_overlong h
      simp [namesRegister, ht] at hn
    · rw [ht] at ht'
      cases ht'
      exact h
  next hne =>
    have hu : (∃ number, token.toList = '#' :: number ∧ Text.Unreadable number) → False := by
      intro h
      obtain ⟨number, ht, -⟩ := h
      exact hne number ht
    by_cases hn : namesRegister token = true
    · rw [if_pos hn]
      refine (crashes_map_iff (Register.ofToken token) Source.register).trans ?_
      rw [crashes_registerOfToken_iff]
      exact ⟨.inl, fun h => h.resolve_right hu⟩
    · rw [if_neg hn]
      refine iff_of_false (not_crashes_fault _) ?_
      intro h
      rcases h with h | h
      · exact hn (namesRegister_of_overlong h)
      · exact hu h

theorem crashes_check_iff (role : Role) (token : String) :
    Crashes (role.check token) ↔ role.Unreadable token := by
  cases role with
  | register => exact (crashes_map_iff _ _).trans (crashes_registerOfToken_iff token)
  | place => exact (crashes_map_iff _ _).trans (crashes_placeOfToken_iff token)
  | source => exact (crashes_map_iff _ _).trans (crashes_sourceOfToken_iff token)
  | label => exact iff_of_false (not_crashes_ok ()) id

/-- Whether the leftmost of some tokens that cannot be read in their roles is unreadable. -/
def LeftmostUnreadable (tokens : List (Role × String)) : Prop :=
  ∃ front role token back, tokens = front ++ (role, token) :: back ∧
    (∀ item ∈ front, item.1.check item.2 = .ok ()) ∧ role.Unreadable token

theorem checkAll_eq_forM (tokens : List (Role × String)) :
    checkAll tokens = forM tokens fun item => item.1.check item.2 := by
  induction tokens with
  | nil => rfl
  | cons item rest ih => rw [checkAll, ih, List.forM_cons]

theorem crashes_checkAll_iff (tokens : List (Role × String)) :
    Crashes (checkAll tokens) ↔ LeftmostUnreadable tokens := by
  unfold Crashes
  simp only [checkAll_eq_forM, forM_eq_error_iff]
  constructor
  · rintro ⟨reason, front, item, back, ht, hf, hc⟩
    exact ⟨front, item.1, item.2, back, ht, hf, (crashes_check_iff item.1 item.2).1 ⟨reason, hc⟩⟩
  · rintro ⟨front, role, token, back, ht, hf, hu⟩
    obtain ⟨reason, hc⟩ := (crashes_check_iff role token).2 hu
    exact ⟨reason, front, (role, token), back, ht, hf, hc⟩

/-- An instruction crashes while its arguments are read exactly if their number is right and the
leftmost bad one is unreadable. -/
theorem crashes_ofTokens_iff (m : Mnemonic) (arguments : List String) :
    Crashes (Command.ofTokens m arguments) ↔
      arguments.length = m.arity ∧ LeftmostUnreadable (m.roles.zip arguments) := by
  by_cases hl : arguments.length = m.arity
  · rw [← crashes_map_iff _ fun _ => (), Command.ofTokens_check hl, crashes_checkAll_iff,
      and_iff_right hl]
  · rw [Command.ofTokens_of_length_ne hl]
    exact iff_of_false (not_crashes_fault _) fun h => hl h.1

end RegisterMachine
