import Awman.Blanks
import Awman.RawArgs

/-!
# Numbers written in digits

A number is read back from its decimal digits, which hold neither signs nor white space.
-/

namespace Awman.RawArgs

theorem isDigit_range {character : Char} (hdigit : character.isDigit = true) :
    48 ≤ character.toNat ∧ character.toNat ≤ 57 := by
  have hval : character.toNat = character.val.toNat := rfl
  simp only [Char.isDigit, Bool.and_eq_true, decide_eq_true_eq, ge_iff_le,
    UInt32.le_iff_toNat_le] at hdigit
  simp at hdigit
  omega

theorem digits_range (number : Nat) : ∀ character ∈ Nat.toDigits 10 number,
    48 ≤ character.toNat ∧ character.toNat ≤ 57 := by
  intro character hmem
  exact isDigit_range (Nat.isDigit_of_mem_toDigits (by omega) (by omega) hmem)

/-- The digits of a number do not begin with a sign. -/
theorem head_digits_ne {number : Nat} {sign : Char} (hsign : sign.toNat < 48) :
    (Nat.toDigits 10 number).head? ≠ some sign := by
  intro hhead
  have hrange := digits_range number sign (List.mem_of_mem_head? hhead)
  omega

/-- A number is read back from its digits. -/
theorem parseUnsigned_digits {bound number : Nat} (hbound : number < bound) :
    parseUnsigned bound (Nat.toDigits 10 number) = some number := by
  have hall : (Nat.toDigits 10 number).all Char.isDigit = true := by
    rw [List.all_eq_true]
    intro character hmem
    exact Nat.isDigit_of_mem_toDigits (by omega) (by omega) hmem
  have hnonempty : (Nat.toDigits 10 number).isEmpty = false := by
    rw [List.isEmpty_eq_false_iff]
    exact Nat.toDigits_ne_nil
  unfold parseUnsigned
  rw [if_neg (head_digits_ne (by decide))]
  dsimp only
  rw [Nat.ofDigitChars_ten_toDigits, hall, hnonempty, if_neg (by simp [hbound])]

end Awman.RawArgs
