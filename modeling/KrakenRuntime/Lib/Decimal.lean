import KrakenRuntime.Lib.CText
import Mathlib.Algebra.Ring.Int.Defs

/- Integers as printf writes them with %d and %lld, and Python with str. What is written can
   be read back with atoi, as far as it is not run together with more digits. -/
namespace Decimal
open CText

def shownNat (n : ℕ) : List Char := Nat.toDigits 10 n

def shown (i : ℤ) : List Char := if i < 0 then '-' :: shownNat i.natAbs else shownNat i.natAbs

theorem shownNat_ne_nil (n : ℕ) : shownNat n ≠ [] := Nat.toDigits_ne_nil

theorem shownNat_isdigit {n : ℕ} {c : Char} (member : c ∈ shownNat n) : isdigit c = true := by
  have digit := Nat.isDigit_of_mem_toDigits (by decide) (by decide) member
  rw [Char.isDigit_iff_toNat] at digit
  rw [isdigit, Bool.and_eq_true, decide_eq_true_eq, decide_eq_true_eq]
  exact digit

theorem decimal_shownNat (n : ℕ) : decimal (shownNat n) = n := Nat.ofDigitChars_ten_toDigits

theorem shown_mem {i : ℤ} {c : Char} (member : c ∈ shown i) : c = '-' ∨ isdigit c = true := by
  rw [shown] at member
  split at member
  · rcases List.mem_cons.mp member with rfl | digit
    · exact .inl rfl
    · exact .inr (shownNat_isdigit digit)
  · exact .inr (shownNat_isdigit member)

theorem atoi_shown (i : ℤ) {rest : List Char} (stops : Stops isdigit rest) :
    atoi (shown i ++ rest) = i := by
  have digits : ∀ c ∈ shownNat i.natAbs, isdigit c = true := fun c => shownNat_isdigit
  rw [shown]
  split
  · rw [List.cons_append, atoi, List.dropWhile_cons_of_neg (by decide)]
    simp only
    rw [takeWhile_run digits stops, decimal_shownNat]
    omega
  · rw [atoi_digits (shownNat_ne_nil _) digits stops, decimal_shownNat]
    omega

theorem shown_length {i : ℤ} (lower : -2 ^ 63 ≤ i) (upper : i < 2 ^ 63) : (shown i).length ≤ 20 := by
  have short : (shownNat i.natAbs).length ≤ 19 :=
    (Nat.length_toDigits_le_iff (by decide) (by decide)).mpr (by omega)
  rw [shown]
  split
  · rw [List.length_cons]
    omega
  · omega

end Decimal
