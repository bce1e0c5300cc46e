import Mathlib.Algebra.Order.Ring.Int
import Mathlib.Data.Finset.Basic
import Mathlib.Data.Multiset.Count
import Mathlib.Logic.Function.Basic

/-!
# Counts of what is shared

Things are shared by holders, which are told by what they hold only. The count of a thing is the
number of its holders, and a thing is in use as long as it has one. A free thing can be taken
(`Counted.take`), a holder can share its thing with a new one (`Counted.share`) or drop it
(`Counted.drop`, `Counted.dropLast`).
-/

namespace KernelModules.SharedCounts

variable {κ : Type*} [DecidableEq κ]

/-- The count of a thing is the number of its holders, and the things in use are those with one. -/
structure Counted (count : κ → ℤ) (used : Finset κ) (holders : Multiset κ) : Prop where
  count_eq : ∀ k, count k = holders.count k
  mem_used : ∀ k, k ∈ used ↔ k ∈ holders

namespace Counted

variable {count count' : κ → ℤ} {used used' : Finset κ} {holders : Multiset κ} {k : κ}

theorem empty (count : κ → ℤ) (h : ∀ k, count k = 0) : Counted count ∅ 0 where
  count_eq k := by simp [h]
  mem_used k := by simp

/-- The counts of what is not in use are zero. -/
theorem count_of_notMem (h : Counted count used holders) (hk : k ∉ used) : count k = 0 := by
  rw [h.count_eq, Multiset.count_eq_zero_of_notMem fun hm => hk ((h.mem_used k).2 hm), Nat.cast_zero]

theorem congr (h : Counted count used holders) (hc : ∀ j, count' j = count j) (hu : used' = used) :
    Counted count' used' holders := by
  obtain rfl : count' = count := funext hc
  rwa [hu]

/-- A thing that is not in use is taken. -/
theorem take (h : Counted count used holders) (hk : k ∉ used) (hself : count' k = 1)
    (hne : ∀ j, j ≠ k → count' j = count j) (hu : used' = insert k used) :
    Counted count' used' (k ::ₘ holders) where
  count_eq j := by
    by_cases hj : j = k
    · subst hj
      have hzero : holders.count j = 0 :=
        Multiset.count_eq_zero_of_notMem fun hm => hk ((h.mem_used j).2 hm)
      rw [hself, Multiset.count_cons_self, hzero]
      rfl
    · rw [hne j hj, Multiset.count_cons_of_ne hj, h.count_eq]
  mem_used j := by rw [hu, Finset.mem_insert, Multiset.mem_cons, h.mem_used]

/-- A thing in use gets one more holder. -/
theorem share (h : Counted count used holders) (hk : k ∈ holders) (hself : count' k = count k + 1)
    (hne : ∀ j, j ≠ k → count' j = count j) (hu : used' = used) :
    Counted count' used' (k ::ₘ holders) where
  count_eq j := by
    by_cases hj : j = k
    · subst hj
      rw [hself, Multiset.count_cons_self, h.count_eq, Nat.cast_add_one]
    · rw [hne j hj, Multiset.count_cons_of_ne hj, h.count_eq]
  mem_used j := by
    rw [hu, Multiset.mem_cons, h.mem_used]
    exact ⟨Or.inr, fun hj => hj.elim (fun hj => hj ▸ hk) id⟩

/-- Whether a holder is the last one shows in the count without it. -/
theorem mem_iff (h : Counted count used (k ::ₘ holders)) : k ∈ holders ↔ count k - 1 ≠ 0 := by
  have hcount := h.count_eq k
  rw [Multiset.count_cons_self, Nat.cast_add_one] at hcount
  rw [hcount, add_sub_cancel_right, Int.natCast_ne_zero, Multiset.count_ne_zero]

/-- A thing loses a holder, and has others. -/
theorem drop (h : Counted count used (k ::ₘ holders)) (hk : k ∈ holders)
    (hself : count' k = count k - 1) (hne : ∀ j, j ≠ k → count' j = count j) (hu : used' = used) :
    Counted count' used' holders where
  count_eq j := by
    by_cases hj : j = k
    · subst hj
      rw [hself, h.count_eq, Multiset.count_cons_self, Nat.cast_add_one, add_sub_cancel_right]
    · rw [hne j hj, h.count_eq, Multiset.count_cons_of_ne hj]
  mem_used j := by
    rw [hu, h.mem_used, Multiset.mem_cons]
    exact ⟨fun hj => hj.elim (fun hj => hj ▸ hk) id, Or.inr⟩

/-- A thing loses its last holder. -/
theorem dropLast (h : Counted count used (k ::ₘ holders)) (hk : k ∉ holders)
    (hself : count' k = count k - 1) (hne : ∀ j, j ≠ k → count' j = count j)
    (hu : used' = used.erase k) : Counted count' used' holders where
  count_eq j := by
    by_cases hj : j = k
    · subst hj
      rw [hself, h.count_eq, Multiset.count_cons_self, Nat.cast_add_one, add_sub_cancel_right]
    · rw [hne j hj, h.count_eq, Multiset.count_cons_of_ne hj]
  mem_used j := by
    rw [hu, Finset.mem_erase, h.mem_used, Multiset.mem_cons]
    constructor
    · exact fun hj => hj.2.resolve_left hj.1
    · exact fun hj => ⟨fun heq => hk (heq ▸ hj), Or.inr hj⟩

end Counted

end KernelModules.SharedCounts
