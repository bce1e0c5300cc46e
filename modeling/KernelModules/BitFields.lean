import Mathlib.Data.Nat.Bitwise

/-!
# Fields of a word

A field is a run of bits of a word. `BitField.prep` makes the word that has a value in the field and
nothing elsewhere, `BitField.get` reads the field. Words are put together with `|||`, and each field
is read by itself (`get_or`, `get_prep_self`, `get_prep_of_apart`).
-/

namespace KernelModules

/-- The field of `width` bits from the bit `shift` on. -/
structure BitField where
  shift : ℕ
  width : ℕ

namespace BitField

/-- A value that is too large is cut. -/
def prep (f : BitField) (v : ℕ) : ℕ :=
  (v % 2 ^ f.width) <<< f.shift

/-- The value of the field in a word. -/
def get (f : BitField) (w : ℕ) : ℕ :=
  (w >>> f.shift) % 2 ^ f.width

/-- No bit is in both fields. -/
def Apart (f g : BitField) : Prop :=
  f.shift + f.width ≤ g.shift ∨ g.shift + g.width ≤ f.shift

instance (f g : BitField) : Decidable (f.Apart g) :=
  inferInstanceAs (Decidable (_ ∨ _))

variable {f g : BitField} {v w w' : ℕ}

theorem testBit_get (i : ℕ) :
    (f.get w).testBit i = (decide (i < f.width) && w.testBit (f.shift + i)) := by
  rw [get, Nat.testBit_mod_two_pow, Nat.testBit_shiftRight]

theorem testBit_prep (i : ℕ) : (f.prep v).testBit i =
    (decide (f.shift ≤ i) && (decide (i - f.shift < f.width) && v.testBit (i - f.shift))) := by
  rw [prep, Nat.testBit_shiftLeft, Nat.testBit_mod_two_pow]

theorem get_or : f.get (w ||| w') = f.get w ||| f.get w' := by
  refine Nat.eq_of_testBit_eq fun i => ?_
  rw [testBit_get, Nat.testBit_or, Nat.testBit_or, testBit_get, testBit_get, Bool.and_or_distrib_left]

theorem get_prep_self (h : v < 2 ^ f.width) : f.get (f.prep v) = v := by
  rw [get, prep, Nat.shiftLeft_shiftRight, Nat.mod_mod, Nat.mod_eq_of_lt h]

theorem get_prep_of_apart (h : f.Apart g) : f.get (g.prep v) = 0 := by
  refine Nat.eq_of_testBit_eq fun i => ?_
  rw [testBit_get, testBit_prep, Nat.zero_testBit]
  by_cases hi : i < f.width
  · rcases h with h | h
    · have : ¬ g.shift ≤ f.shift + i := by omega
      simp [this]
    · have : ¬ f.shift + i - g.shift < g.width := by omega
      simp [this]
  · simp [hi]

end BitField

end KernelModules
