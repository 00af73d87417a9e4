import RegisterMachine.Proofs.Instruction.Execution
import RegisterMachine.Proofs.Word.Numeral

/-!
# Commands as they are written

The argument tokens of a command. Reading them gives the command back if its numbers are machine
words, so the words that tokens can hold are all of them.
-/

namespace RegisterMachine

def Source.token : Source → String
  | .register r => registerName r.val
  | .literal v => "#" ++ toString v

def Place.token : Place → String
  | .indirect r => registerName r.val
  | .direct address => toString address

def Command.tokens : Command → List String
  | .load r place | .store r place => [registerName r.val, place.token]
  | .combine _ d r source => [registerName d.val, registerName r.val, source.token]
  | .move r source | .moveNot r source | .compare r source => [registerName r.val, source.token]
  | .branch label | .branchIf _ label => [label]
  | .input r | .output r => [registerName r.val]
  | .halt => []

theorem Register.ofToken_registerName (r : Register) :
    Register.ofToken (registerName r.val) = .ok r := by
  revert r
  decide

theorem namesRegister_registerName (r : Register) :
    namesRegister (registerName r.val) = true := by
  revert r
  decide

theorem Source.ofToken_token {source : Source} (h : source.HoldsWord) :
    Source.ofToken source.token = .ok source := by
  cases source with
  | register r =>
      have hn : namesRegister (registerName r.val) = true := namesRegister_registerName r
      unfold Source.ofToken
      split
      next number ht =>
        rw [namesRegister, show (registerName r.val).toList = _ from ht] at hn
        cases hn
      next =>
        simp only [Source.token, hn, Register.ofToken_registerName]
        rfl
  | literal v =>
      have ht : (Source.literal v).token.toList = '#' :: (toString v).toList := by
        simp [Source.token]
      simp only [Source.ofToken, ht, wordOr, Word.ofText_toString h]
      rfl

theorem namesRegister_toString (v : Int) : namesRegister (toString v) = false := by
  have hd : ∀ c ∈ Nat.toDigits 10 v.natAbs, c ≠ 'R' := by
    intro c hc hR
    have := Nat.isDigit_of_mem_toDigits (by decide) (by decide) hc
    rw [hR] at this
    cases this
  unfold namesRegister
  by_cases hv : v < 0
  · rw [Text.toList_toString_of_neg hv]
    rfl
  · obtain ⟨n, rfl⟩ := Int.eq_ofNat_of_zero_le (Int.not_lt.1 hv)
    rw [Text.toList_toString_natCast]
    rw [Int.natAbs_natCast] at hd
    refine decide_eq_false fun h => ?_
    exact hd 'R' (List.mem_of_mem_head? h) rfl

theorem Place.ofToken_token {place : Place} (h : place.HoldsWord) :
    Place.ofToken place.token = .ok place := by
  cases place with
  | indirect r =>
      simp only [Place.ofToken, Place.token, namesRegister_registerName,
        Register.ofToken_registerName]
      rfl
  | direct address =>
      simp only [Place.ofToken, Place.token, namesRegister_toString, wordOr,
        Word.ofText_toString h]
      rfl

theorem Command.ofTokens_tokens {command : Command} (h : command.HoldsWords) :
    Command.ofTokens command.mnemonic command.tokens = .ok command := by
  cases command with
  | load r place | store r place =>
      simp only [ofTokens, mnemonic, tokens, Register.ofToken_registerName, Place.ofToken_token h]
      rfl
  | combine op d r source =>
      simp only [ofTokens, mnemonic, tokens, Register.ofToken_registerName, Source.ofToken_token h]
      rfl
  | move r source | moveNot r source | compare r source =>
      simp only [ofTokens, mnemonic, tokens, Register.ofToken_registerName, Source.ofToken_token h]
      rfl
  | branch label | branchIf relation label => rfl
  | input r | output r =>
      simp only [ofTokens, mnemonic, tokens, Register.ofToken_registerName]
      rfl
  | halt => rfl

end RegisterMachine
