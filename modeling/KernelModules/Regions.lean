import Mathlib.Data.List.Basic
import Mathlib.Logic.Function.Basic

/-!
# Lists in memory

`store` writes a list to the cells from a place on, `Holds` says that a list is there. What is
written outside of a list does not change it (`Holds.store`), and a cell of it can be changed
(`Holds.set`).
-/

namespace KernelModules.Regions

variable {α : Type*}

/-- The list is written to the cells from `lo` on. -/
def store : List α → (mem : ℕ → α) → (lo : ℕ) → ℕ → α
  | [], mem, _ => mem
  | x :: l, mem, lo => store l (Function.update mem lo x) (lo + 1)

/-- The list is in the cells from `lo` on. -/
def Holds (mem : ℕ → α) (lo : ℕ) (l : List α) : Prop :=
  ∀ i (h : i < l.length), mem (lo + i) = l[i]

instance [DecidableEq α] (mem : ℕ → α) (lo : ℕ) (l : List α) : Decidable (Holds mem lo l) :=
  inferInstanceAs (Decidable (∀ i (h : i < l.length), mem (lo + i) = l[i]))

/-- No cell is in both of two regions. -/
def Apart (lo n lo' n' : ℕ) : Prop :=
  lo + n ≤ lo' ∨ lo' + n' ≤ lo

instance (lo n lo' n' : ℕ) : Decidable (Apart lo n lo' n') :=
  inferInstanceAs (Decidable (_ ∨ _))

variable {mem : ℕ → α} {lo lo' n n' : ℕ} {l l' : List α}

theorem Apart.symm (h : Apart lo n lo' n') : Apart lo' n' lo n :=
  Or.symm h

theorem Apart.mono (h : Apart lo n lo' n') {k k' : ℕ} (hk : k ≤ n) (hk' : k' ≤ n') :
    Apart lo k lo' k' :=
  h.imp (Nat.le_trans (Nat.add_le_add_left hk _)) (Nat.le_trans (Nat.add_le_add_left hk' _))

theorem store_of_lt : ∀ (l : List α) (mem : ℕ → α) {lo i : ℕ}, i < lo → store l mem lo i = mem i
  | [], _, _, _, _ => rfl
  | x :: l, mem, lo, i, h => by
    rw [store, store_of_lt l _ (Nat.lt_trans h (Nat.lt_add_one lo)), Function.update_of_ne (Nat.ne_of_lt h)]

theorem store_of_le : ∀ (l : List α) (mem : ℕ → α) {lo i : ℕ}, lo + l.length ≤ i →
    store l mem lo i = mem i
  | [], _, _, _, _ => rfl
  | x :: l, mem, lo, i, h => by
    rw [List.length_cons] at h
    rw [store, store_of_le l _ (by omega), Function.update_of_ne (by omega)]

theorem holds_nil (mem : ℕ → α) (lo : ℕ) : Holds mem lo [] :=
  fun _ h => absurd h (Nat.not_lt_zero _)

/-- What is written is there. -/
theorem holds_store : ∀ (l : List α) (mem : ℕ → α) (lo : ℕ), Holds (store l mem lo) lo l
  | [], mem, lo => holds_nil _ _
  | x :: l, mem, lo => by
    rintro (_ | i) hi
    · exact (store_of_lt l _ (Nat.lt_add_one lo)).trans (Function.update_self lo x mem)
    · have hrest := holds_store l (Function.update mem lo x) (lo + 1) i (Nat.lt_of_succ_lt_succ hi)
      rw [store, show lo + (i + 1) = lo + 1 + i by omega, hrest]
      rfl

/-- What is written outside of a list does not change it. -/
theorem Holds.store (h : Holds mem lo l) (hapart : Apart lo l.length lo' l'.length) :
    Holds (store l' mem lo') lo l := by
  intro i hi
  rw [← h i hi]
  rcases hapart with hle | hle
  · exact store_of_lt _ _ (by omega)
  · exact store_of_le _ _ (by omega)

/-- A cell of a list is changed. -/
theorem Holds.set (h : Holds mem lo l) (i : ℕ) (x : α) :
    Holds (Function.update mem (lo + i) x) lo (l.set i x) := by
  intro j hj
  rw [List.length_set] at hj
  by_cases hij : i = j
  · subst hij
    rw [Function.update_self, List.getElem_set_self]
  · rw [Function.update_of_ne (by omega), h j hj, List.getElem_set_ne hij]

/-- A cell that is not of the list is changed. -/
theorem Holds.update_of_apart (h : Holds mem lo l) {i : ℕ} (hapart : Apart lo l.length i 1) (x : α) :
    Holds (Function.update mem i x) lo l :=
  h.store (show Apart lo l.length i [x].length from hapart)

end KernelModules.Regions
