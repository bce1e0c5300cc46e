import Mathlib.Data.Set.Lattice
import Mathlib.Logic.Function.Basic
import Mathlib.Order.CompletePartialOrder
import Mathlib.Order.Interval.Set.Basic

/-!
# Bitmaps of 64-bit words

A bitmap is an array of words; its bit `i` is the bit `i % 64` of the word `i / 64`. Setting and
clearing the bits of a mask in one word adds them to the bits that are set (`bitsSet_or`) or takes
them away (`bitsSet_andNot`).
-/

namespace KernelModules.BitWords

/-- The array of words. -/
abbrev Words : Type := ℕ → BitVec 64

/-- The bits that are set. -/
def bitsSet (map : Words) : Set ℕ :=
  {i | (map (i / 64)).getLsbD (i % 64) = true}

/-- The bits of a mask on the word `p`. -/
def maskBits (p : ℕ) (mask : BitVec 64) : Set ℕ :=
  {i | i / 64 = p ∧ mask.getLsbD (i % 64) = true}

variable {map : Words} {p : ℕ} {mask : BitVec 64}

theorem bitsSet_or (map : Words) (p : ℕ) (mask : BitVec 64) :
    bitsSet (Function.update map p (map p ||| mask)) = bitsSet map ∪ maskBits p mask := by
  ext i
  by_cases hi : i / 64 = p
  · subst hi
    simp [bitsSet, maskBits]
  · simp [bitsSet, maskBits, hi]

theorem bitsSet_andNot (map : Words) (p : ℕ) (mask : BitVec 64) :
    bitsSet (Function.update map p (map p &&& ~~~mask)) = bitsSet map \ maskBits p mask := by
  ext i
  have hi64 : i % 64 < 64 := Nat.mod_lt _ (by decide)
  by_cases hi : i / 64 = p
  · subst hi
    simp [bitsSet, maskBits, hi64]
  · simp [bitsSet, maskBits, hi]

/-- No bit of the mask is set if the word has none of them. -/
theorem disjoint_of_and_eq_zero (h : map p &&& mask = 0#64) :
    Disjoint (maskBits p mask) (bitsSet map) := by
  rw [Set.disjoint_left]
  rintro i ⟨rfl, hm⟩ hs
  have hbit := congrArg (·.getLsbD (i % 64)) h
  simp only [BitVec.getLsbD_and, BitVec.getLsbD_zero] at hbit
  rw [hm, Bool.and_true] at hbit
  exact absurd (hbit.symm.trans hs) (by decide)

/-- All bits of the mask are set exactly if the word has them. -/
theorem and_eq_mask_iff : map p &&& mask = mask ↔ maskBits p mask ⊆ bitsSet map := by
  constructor
  · rintro h i ⟨rfl, hm⟩
    have hbit := congrArg (·.getLsbD (i % 64)) h
    simp only [BitVec.getLsbD_and] at hbit
    rw [hm, Bool.and_true] at hbit
    exact hbit
  · intro h
    apply BitVec.eq_of_getLsbD_eq
    intro j hj
    rw [BitVec.getLsbD_and]
    cases hm : mask.getLsbD j with
    | false => rw [Bool.and_false]
    | true =>
      have hbit : p * 64 + j ∈ bitsSet map := by
        refine h ⟨by omega, ?_⟩
        rwa [show (p * 64 + j) % 64 = j by omega]
      simp only [bitsSet, Set.mem_ofPred_eq] at hbit
      rw [show (p * 64 + j) / 64 = p by omega, show (p * 64 + j) % 64 = j by omega] at hbit
      rw [hbit, Bool.and_true]

/-- The bits of the mask that has the bits of the word `p` from `a` to `b` are these bits. -/
theorem maskBits_eq_Ico {a b : ℕ} (ha : p * 64 ≤ a) (hb : b ≤ p * 64 + 64)
    (h : ∀ j < 64, mask.getLsbD j = decide (a ≤ p * 64 + j ∧ p * 64 + j < b)) :
    maskBits p mask = Set.Ico a b := by
  ext i
  have hi64 : i % 64 < 64 := Nat.mod_lt _ (by decide)
  simp only [maskBits, Set.mem_ofPred_eq, Set.mem_Ico, h _ hi64, decide_eq_true_eq]
  constructor
  · rintro ⟨rfl, h⟩
    omega
  · intro h
    refine ⟨by omega, ?_⟩
    rw [show p * 64 + i % 64 = i by omega]
    exact h

/-! ## Masks of the first and the last word -/

/-- `BITMAP_FIRST_WORD_MASK` -/
def firstWordMask (start : ℕ) : BitVec 64 :=
  BitVec.allOnes 64 <<< (start % 64)

/-- `BITMAP_LAST_WORD_MASK` -/
def lastWordMask (nbits : ℕ) : BitVec 64 :=
  BitVec.allOnes 64 >>> ((64 - nbits % 64) % 64)

theorem getLsbD_firstWordMask (start : ℕ) {j : ℕ} (hj : j < 64) :
    (firstWordMask start).getLsbD j = decide (start % 64 ≤ j) := by
  rw [firstWordMask, BitVec.getLsbD_shiftLeft, BitVec.getLsbD_allOnes]
  by_cases h : start % 64 ≤ j
  · simp [hj, h, show ¬ j < start % 64 by omega, show j - start % 64 < 64 by omega]
  · simp [h, show j < start % 64 by omega]

theorem getLsbD_lastWordMask {nbits : ℕ} (hn : nbits % 64 ≠ 0) {j : ℕ} (hj : j < 64) :
    (lastWordMask nbits).getLsbD j = decide (j < nbits % 64) := by
  rw [lastWordMask, BitVec.getLsbD_ushiftRight, BitVec.getLsbD_allOnes]
  exact decide_eq_decide.2 (by omega)

end KernelModules.BitWords
