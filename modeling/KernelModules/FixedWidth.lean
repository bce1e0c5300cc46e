import Mathlib.Algebra.Order.Ring.Int

/-!
# Conversions to fixed widths

The values of the conversions to `s32` and `u32`, and when they change nothing.
-/

namespace KernelModules

/-- Conversion to `s32`. -/
def s32 (x : ℤ) : ℤ :=
  x.bmod (2 ^ 32)

/-- Conversion to `u32`. -/
def u32 (x : ℤ) : ℕ :=
  (x % 2 ^ 32).toNat

theorem s32_of_lt {x : ℤ} (h : -2 ^ 31 ≤ x) (h' : x < 2 ^ 31) : s32 x = x :=
  Int.bmod_eq_of_le_mul_two (by omega) (by omega)

theorem u32_of_lt {x : ℤ} (h : x < 2 ^ 32) (h' : 0 ≤ x) : u32 x = x.toNat := by
  rw [u32, Int.emod_eq_of_lt h' h]

theorem u32_natCast {x : ℕ} (h : x < 2 ^ 32) : u32 x = x := by
  rw [u32_of_lt (by omega) (by omega), Int.toNat_natCast]

end KernelModules
