import Crosswalk.Proofs.Text.Trim
import Crosswalk.Text.Digit

/-!
# Numbers in decimal

A number that is written in decimal is read back, as far as it has 64 bits, and its text holds
nothing but ASCII digits.
-/

namespace Crosswalk.Text

theorem toList_toString (n : Nat) : (toString n).toList = Nat.toDigits 10 n := Nat.toList_repr

theorem isAsciiDigit_of_mem_toString {n : Nat} {c : Char} (h : c ∈ (toString n).toList) :
    isAsciiDigit c = true := by
  rw [toList_toString] at h
  have hdigit := Nat.isDigit_of_mem_toDigits (by omega) (by omega) h
  simpa [isAsciiDigit, Char.isDigit, UInt32.le_iff_toNat_le, Char.le_def] using hdigit

theorem decimalValue_toString (n : Nat) : decimalValue (toString n).toList = n := by
  rw [toList_toString]
  have h := Nat.ofDigitChars_ten_toDigits (n := n)
  rw [Nat.ofDigitChars_eq_foldl] at h
  exact h

theorem toString_injective {m n : Nat} (h : toString m = toString n) : m = n := by
  rw [← decimalValue_toString m, ← decimalValue_toString n, h]

theorem toString_ne_nil (n : Nat) : (toString n).toList ≠ [] := by
  rw [toList_toString]
  exact Nat.toDigits_ne_nil

theorem parseCount?_of_no_plus {s : String} (h : '+' ∉ s.toList) :
    parseCount? s =
      if s.toList.isEmpty || !s.toList.all isAsciiDigit then none
      else if decimalValue s.toList < UInt64.size then some (decimalValue s.toList) else none := by
  unfold parseCount?
  dsimp only
  split
  · rename_i rest hcs
    rw [hcs] at h
    exact absurd List.mem_cons_self h
  · rfl

theorem parseCount?_toString {n : Nat} (h : n < UInt64.size) : parseCount? (toString n) = some n := by
  have hdigits : ∀ c ∈ (toString n).toList, isAsciiDigit c = true :=
    fun c hc => isAsciiDigit_of_mem_toString hc
  have hplus : '+' ∉ (toString n).toList := fun hc => absurd (hdigits _ hc) (by decide)
  have hall : (toString n).toList.all isAsciiDigit = true := List.all_eq_true.2 hdigits
  have hempty : (toString n).toList.isEmpty = false :=
    List.isEmpty_eq_false_iff.2 (toString_ne_nil n)
  rw [parseCount?_of_no_plus hplus, hall, hempty, decimalValue_toString]
  simp [h]

end Crosswalk.Text
