import Mathlib.Data.Int.Basic
import Mathlib.Tactic.Ring

/- Signed 64-bit and 32-bit counters: an integer is stored modulo 2^64, in the range that
   starts at -2^63, and modulo 2^32 in the range that starts at -2^31. -/
namespace Int64Word

def int64 (x : ℤ) : ℤ := (x + 2 ^ 63) % 2 ^ 64 - 2 ^ 63

theorem int64_upper (x : ℤ) : int64 x < 2 ^ 63 := by
  unfold int64
  omega

theorem int64_of_range {x : ℤ} (lower : -2 ^ 63 ≤ x) (upper : x < 2 ^ 63) : int64 x = x := by
  unfold int64
  omega

theorem int64_of_nonneg {x : ℤ} (nonneg : 0 ≤ x) (upper : x < 2 ^ 63) : int64 x = x :=
  int64_of_range (by omega) upper

theorem int64_le {x : ℤ} (lower : -2 ^ 63 ≤ x) : int64 x ≤ x := by
  unfold int64
  omega

theorem int64_add (x y : ℤ) : int64 (int64 x + y) = int64 (x + y) := by
  unfold int64
  omega

theorem int64_int64 (x : ℤ) : int64 (int64 x) = int64 x := by
  unfold int64
  omega

end Int64Word

namespace Int32Word

def int32 (x : ℤ) : ℤ := (x + 2 ^ 31) % 2 ^ 32 - 2 ^ 31

theorem int32_eq_iff {x : ℤ} (lower : -2 ^ 31 ≤ x) : int32 x = x ↔ x < 2 ^ 31 := by
  unfold int32
  omega

theorem int32_add (x y : ℤ) : int32 (int32 x + y) = int32 (x + y) := by
  unfold int32
  omega

end Int32Word
