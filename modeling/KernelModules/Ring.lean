import Mathlib.Data.List.Basic
import Mathlib.Data.List.Range
import Mathlib.Data.Nat.ModEq

/-!
# Rings

A ring has `n` cells; the cell after the last one is the first one. `window` reads cells in order,
`place` writes them. What is placed after a window makes the window longer (`window_place`), as long
as it does not come around to its start.
-/

namespace KernelModules.Ring

variable {α : Type*}

/-- The contents of `k` cells from `lo` on. -/
def window (buf : ℕ → α) (n lo k : ℕ) : List α :=
  (List.range k).map fun i => buf ((lo + i) % n)

/-- The list is written to the cells from `lo` on. -/
def place (n : ℕ) : List α → (buf : ℕ → α) → (lo : ℕ) → ℕ → α
  | [], buf, _ => buf
  | x :: p, buf, lo => place n p (Function.update buf (lo % n) x) (lo + 1)

variable {buf : ℕ → α} {n lo k : ℕ}

@[simp] theorem length_window (buf : ℕ → α) (n lo k : ℕ) : (window buf n lo k).length = k := by
  simp [window]

@[simp] theorem window_zero (buf : ℕ → α) (n lo : ℕ) : window buf n lo 0 = [] :=
  rfl

theorem window_succ (buf : ℕ → α) (n lo k : ℕ) :
    window buf n lo (k + 1) = window buf n lo k ++ [buf ((lo + k) % n)] := by
  simp [window, List.range_succ]

/-- A window starts at a cell, whatever the number of times around. -/
theorem window_mod (buf : ℕ → α) (n lo k : ℕ) : window buf n (lo % n) k = window buf n lo k := by
  simp [window]

theorem window_add (buf : ℕ → α) (n lo k j : ℕ) :
    window buf n lo (k + j) = window buf n lo k ++ window buf n (lo + k) j := by
  induction j with
  | zero => simp
  | succ j ih => rw [← add_assoc, window_succ, ih, window_succ, List.append_assoc, add_assoc]

/-- What remains of a window when its first cells are given up. -/
theorem drop_window (buf : ℕ → α) (n lo : ℕ) {j : ℕ} (h : j ≤ k) :
    (window buf n lo k).drop j = window buf n ((lo + j) % n) (k - j) := by
  obtain ⟨i, rfl⟩ := Nat.exists_eq_add_of_le h
  rw [window_add, List.drop_left' (length_window _ _ _ _), window_mod, Nat.add_sub_cancel_left]

/-- A cell that is not in the window may change. -/
theorem window_update (h : k < n) (x : α) :
    window (Function.update buf ((lo + k) % n) x) n lo k = window buf n lo k := by
  refine List.map_congr_left fun i hi => Function.update_of_ne ?_ x buf
  have hik := List.mem_range.1 hi
  intro heq
  have hmod := Nat.ModEq.add_left_cancel' lo heq
  rw [Nat.ModEq, Nat.mod_eq_of_lt (hik.trans h), Nat.mod_eq_of_lt h] at hmod
  omega

theorem window_update_succ (buf : ℕ → α) (lo : ℕ) (h : k < n) (x : α) :
    window (Function.update buf ((lo + k) % n) x) n lo (k + 1) = window buf n lo k ++ [x] := by
  rw [window_succ, window_update h, Function.update_self]

/-- The last cell of a window. -/
theorem window_last {l : List α} {x : α} (h : window buf n lo (k + 1) = l ++ [x]) :
    window buf n lo k = l ∧ buf ((lo + k) % n) = x := by
  rw [window_succ] at h
  obtain ⟨hl, hx⟩ := List.append_inj' h rfl
  exact ⟨hl, List.singleton_inj.1 hx⟩

theorem window_update_last {l : List α} {x : α} (hk : k < n) (h : window buf n lo (k + 1) = l ++ [x])
    (y : α) : window (Function.update buf ((lo + k) % n) y) n lo (k + 1) = l ++ [y] := by
  rw [window_update_succ _ _ hk, (window_last h).1]

/-- The first cell of a window. -/
theorem window_head {l : List α} {x : α} (h : window buf n lo (k + 1) = x :: l) :
    buf (lo % n) = x := by
  rw [add_comm, window_add] at h
  exact (List.cons.inj h).1

/-- What is placed after a window makes it longer. -/
theorem window_place (lo : ℕ) : ∀ (p : List α) (buf : ℕ → α) {k : ℕ}, k + p.length ≤ n →
    window (place n p buf (lo + k)) n lo (k + p.length) = window buf n lo k ++ p
  | [], _, _, _ => by simp [place]
  | x :: p, buf, k, h => by
    rw [List.length_cons] at h
    rw [place, List.length_cons, show k + (p.length + 1) = k + 1 + p.length by omega, add_assoc lo,
      window_place lo p _ (by omega), window_update_succ _ _ (by omega), List.append_assoc,
      List.singleton_append]

/-- What is placed after a window does not change it. -/
theorem window_place_of_le (buf : ℕ → α) (lo : ℕ) {p : List α} (h : k + p.length ≤ n) :
    window (place n p buf (lo + k)) n lo k = window buf n lo k := by
  have hp := congrArg (List.take k) (window_place lo p buf h)
  rw [window_add, List.take_left' (length_window _ _ _ _),
    List.take_left' (length_window _ _ _ _)] at hp
  exact hp

theorem place_append (p q : List α) (buf : ℕ → α) (lo : ℕ) :
    place n (p ++ q) buf lo = place n q (place n p buf lo) (lo + p.length) := by
  induction p generalizing buf lo with
  | nil => rfl
  | cons x p ih =>
    rw [List.cons_append, place, place, ih, List.length_cons, add_assoc, add_comm 1]

/-! ## Two places on a ring -/

/-- The number of cells from `lo` to `hi`. -/
def used (n lo hi : ℕ) : ℕ :=
  (hi + n - lo) % n

theorem mod_of_lt_two_mul {x : ℕ} (h : x < 2 * n) : x % n = if x < n then x else x - n := by
  split
  · next hlt => exact Nat.mod_eq_of_lt hlt
  · next hge => rw [Nat.mod_eq_sub_mod (Nat.le_of_not_lt hge), Nat.mod_eq_of_lt (by omega)]

section Used

variable {hi : ℕ} (hlo : lo < n) (hhi : hi < n)

include hlo hhi

theorem used_eq : used n lo hi = if lo ≤ hi then hi - lo else hi + n - lo := by
  rw [used, mod_of_lt_two_mul (by omega)]
  split_ifs <;> omega

theorem used_lt : used n lo hi < n := by
  rw [used_eq hlo hhi]
  split_ifs <;> omega

theorem add_used : (lo + used n lo hi) % n = hi := by
  rw [used_eq hlo hhi, mod_of_lt_two_mul (by split_ifs <;> omega)]
  split_ifs <;> omega

/-- There is a cell between the last place and the first one. -/
theorem used_add_one_lt (h : (hi + 1) % n ≠ lo) : used n lo hi + 1 < n := by
  have hlt := used_lt hlo hhi
  refine Nat.lt_of_le_of_ne hlt fun heq => h ?_
  have hadd := add_used hlo hhi
  rw [← hadd, Nat.mod_add_mod, add_assoc, heq, Nat.add_mod_right, Nat.mod_eq_of_lt hlo]

theorem used_pos (h : lo ≠ hi) : 0 < used n lo hi := by
  rw [used_eq hlo hhi]
  split_ifs <;> omega

/-- The last place goes on. -/
theorem used_add_right (h : used n lo hi + k < n) :
    used n lo ((hi + k) % n) = used n lo hi + k := by
  rw [used_eq hlo hhi] at h ⊢
  rw [used_eq hlo (Nat.mod_lt _ (by omega)), mod_of_lt_two_mul (by split_ifs at h <;> omega)]
  split_ifs at h ⊢ <;> omega

/-- The first place goes on. -/
theorem used_add_left (h : k ≤ used n lo hi) :
    used n ((lo + k) % n) hi = used n lo hi - k := by
  rw [used_eq hlo hhi] at h ⊢
  rw [used_eq (Nat.mod_lt _ (by omega)) hhi, mod_of_lt_two_mul (by split_ifs at h <;> omega)]
  split_ifs at h ⊢ <;> omega

end Used

/-! ## Copies -/

/-- `memcpy` of a list to the cells from `lo` on. -/
def memcpy (dst : ℕ → α) (lo : ℕ) (p : List α) : ℕ → α :=
  fun c => if lo ≤ c then (p[c - lo]?).getD (dst c) else dst c

theorem memcpy_nil (dst : ℕ → α) (lo : ℕ) : memcpy dst lo [] = dst := by
  funext c
  simp [memcpy]

theorem memcpy_cons (dst : ℕ → α) (lo : ℕ) (x : α) (p : List α) :
    memcpy dst lo (x :: p) = memcpy (Function.update dst lo x) (lo + 1) p := by
  funext c
  unfold memcpy
  rcases Nat.lt_trichotomy c lo with hc | rfl | hc
  · simp [show ¬ lo ≤ c by omega, show ¬ lo + 1 ≤ c by omega, show c ≠ lo by omega]
  · simp
  · obtain ⟨d, rfl⟩ := Nat.exists_eq_add_of_lt hc
    simp [show lo ≤ lo + d + 1 by omega, show lo + d + 1 - lo = d + 1 by omega,
      show lo + d + 1 ≠ lo by omega]

/-- A copy that does not come to the end of the ring. -/
theorem memcpy_eq_place : ∀ (p : List α) {buf : ℕ → α} {lo : ℕ}, lo + p.length ≤ n →
    memcpy buf lo p = place n p buf lo
  | [], _, _, _ => memcpy_nil _ _
  | x :: p, buf, lo, h => by
    rw [List.length_cons] at h
    rw [memcpy_cons, place, Nat.mod_eq_of_lt (by omega), memcpy_eq_place p (by omega)]

theorem place_mod (p : List α) (buf : ℕ → α) (lo : ℕ) :
    place n p buf (lo % n) = place n p buf lo := by
  induction p generalizing buf lo with
  | nil => rfl
  | cons x p ih =>
    rw [place, place, Nat.mod_mod, ← ih _ (lo % n + 1), ← ih _ (lo + 1), Nat.mod_add_mod]

/-- A copy in two parts that comes to the end of the ring and goes on at its start. -/
theorem memcpy_memcpy_eq_place {p : List α} (hp : p.length ≤ n) (hlo : lo ≤ n)
    (hend : n - lo ≤ p.length) :
    memcpy (memcpy buf lo (p.take (n - lo))) 0 (p.drop (n - lo)) = place n p buf lo := by
  have htake : (p.take (n - lo)).length = n - lo := List.length_take_of_le hend
  have hdrop : (p.drop (n - lo)).length ≤ n := List.length_drop.trans_le ((Nat.sub_le _ _).trans hp)
  calc memcpy (memcpy buf lo (p.take (n - lo))) 0 (p.drop (n - lo))
      = place n (p.drop (n - lo)) (place n (p.take (n - lo)) buf lo) 0 := by
        rw [memcpy_eq_place (n := n) (p.drop (n - lo)) (by omega),
          memcpy_eq_place (n := n) (p.take (n - lo)) (by omega)]
    _ = place n (p.drop (n - lo)) (place n (p.take (n - lo)) buf lo) (lo + (n - lo)) := by
        rw [← place_mod _ _ (lo + (n - lo)), Nat.add_sub_cancel' hlo, Nat.mod_self]
    _ = place n p buf lo := by
        conv_rhs => rw [← List.take_append_drop (n - lo) p, place_append, htake]

end KernelModules.Ring
