import Mathlib.Algebra.Order.Field.Rat
import Mathlib.RingTheory.Coprime.Lemmas
import Mathlib.Tactic.FieldSimp
import Mathlib.Tactic.LinearCombination
import Mathlib.Tactic.Linarith
import Mathlib.Tactic.Positivity
import Mathlib.Tactic.Push
import Mathlib.Tactic.Ring

/-!
# Convergents

Euclid's algorithm on `N / D`, with the last two convergents beside the pair that is left
(`Row`). Every row combines the convergents with the pair back to `N` and `D`, and two
convergents in a row have determinant `±1` (`Row.Of`). So no convergent exceeds the fraction
(`Row.Of.numer_le`), and the last one is the fraction in lowest terms (`Row.Of.reduced`).

`IsClosest` : a fraction with bounded numerator and denominator that no other one is closer
than. A fraction within the bounds that is closer to `N / D` than a convergent gives a
semiconvergent within the bounds that is closer too, so it is enough to look at those
(`Row.Later.isClosest_iff`).
-/

namespace KernelModules.Convergents

/-- The pair that is left, the convergent before the last, and the last one. -/
structure Row where
  n : ℕ
  d : ℕ
  n0 : ℕ
  d0 : ℕ
  n1 : ℕ
  d1 : ℕ
deriving DecidableEq, Repr

namespace Row

variable (r : Row)

/-- The next term of the continued fraction. -/
def quot : ℕ :=
  r.n / r.d

/-- The semiconvergent that goes `m` steps from the one convergent towards the next. -/
def semiNumer (m : ℕ) : ℕ :=
  r.n0 + m * r.n1

/-- Its denominator. -/
def semiDenom (m : ℕ) : ℕ :=
  r.d0 + m * r.d1

/-- The next convergent. -/
def numer : ℕ :=
  r.semiNumer r.quot

/-- The denominator of the next convergent. -/
def denom : ℕ :=
  r.semiDenom r.quot

/-- The step of the Euclidean algorithm, with the next convergent. -/
def next : Row :=
  ⟨r.d, r.n % r.d, r.n1, r.d1, r.numer, r.denom⟩

end Row

/-- The `k`-th row for `N / D`. Its last convergent is the one of index `k - 1`; that of the
first row is `1 / 0`. -/
def row (N D : ℕ) : ℕ → Row
  | 0 => ⟨N, D, 0, 1, 1, 0⟩
  | k + 1 => (row N D k).next

/-! ## Rows -/

/-- The row belongs to `N / D`. -/
structure Row.Of (N D : ℕ) (r : Row) : Prop where
  numer_eq : r.n1 * r.n + r.n0 * r.d = N
  denom_eq : r.d1 * r.n + r.d0 * r.d = D
  det : (r.n1 * r.d0 - r.n0 * r.d1 : ℤ) = 1 ∨ (r.n1 * r.d0 - r.n0 * r.d1 : ℤ) = -1

/-- The row is not the first one. -/
structure Row.Later (r : Row) : Prop where
  d1_pos : 0 < r.d1
  d0_le : r.d0 ≤ r.d1
  d_lt : r.d < r.n

theorem Row.quot_mul_add (r : Row) : r.quot * r.d + r.n % r.d = r.n :=
  Nat.div_add_mod' r.n r.d

namespace Row.Of

variable {N D : ℕ} {r : Row} (h : r.Of N D)

include h

theorem next : r.next.Of N D := by
  have hn := r.quot_mul_add
  refine ⟨?_, ?_, ?_⟩
  · rw [← h.numer_eq]
    simp only [Row.next, numer, semiNumer]
    linear_combination r.n1 * hn
  · rw [← h.denom_eq]
    simp only [Row.next, denom, semiDenom]
    linear_combination r.d1 * hn
  · have hdet : (r.next.n1 * r.next.d0 - r.next.n0 * r.next.d1 : ℤ) =
        -(r.n1 * r.d0 - r.n0 * r.d1) := by
      simp only [Row.next, numer, denom, semiNumer, semiDenom]
      push_cast
      ring
    rw [hdet]
    rcases h.det with hd | hd <;> rw [hd]
    · exact Or.inr rfl
    · exact Or.inl rfl

/-- The next convergent is at most the fraction. -/
theorem numer_le (hd : r.d ≠ 0) : r.numer ≤ N := by
  have hle : r.numer * r.d ≤ N := by
    have := h.next.numer_eq
    simp only [Row.next] at this
    omega
  exact (Nat.le_mul_of_pos_right _ (Nat.pos_of_ne_zero hd)).trans hle

theorem denom_le (hd : r.d ≠ 0) : r.denom ≤ D := by
  have hle : r.denom * r.d ≤ D := by
    have := h.next.denom_eq
    simp only [Row.next] at this
    omega
  exact (Nat.le_mul_of_pos_right _ (Nat.pos_of_ne_zero hd)).trans hle

theorem coprime : Nat.Coprime r.n1 r.d1 := by
  rw [← Nat.isCoprime_iff_coprime]
  rcases h.det with hd | hd
  · exact ⟨r.d0, -r.n0, by linear_combination hd⟩
  · exact ⟨-r.d0, r.n0, by linear_combination -hd⟩

/-- With nothing left, the last convergent is the fraction in lowest terms. -/
theorem reduced (hd : r.d = 0) (hD : 0 < D) :
    r.n1 = N / Nat.gcd N D ∧ r.d1 = D / Nat.gcd N D := by
  have hN : N = r.n1 * r.n := by rw [← h.numer_eq, hd, Nat.mul_zero, Nat.add_zero]
  have hD' : D = r.d1 * r.n := by rw [← h.denom_eq, hd, Nat.mul_zero, Nat.add_zero]
  have hn : 0 < r.n := Nat.pos_of_ne_zero fun h0 => by simp [hD', h0] at hD
  have hg : Nat.gcd N D = r.n := by
    rw [hN, hD', Nat.gcd_mul_right, h.coprime.gcd_eq_one, Nat.one_mul]
  rw [hg, hN, hD']
  exact ⟨(Nat.mul_div_cancel _ hn).symm, (Nat.mul_div_cancel _ hn).symm⟩

end Row.Of

theorem row_of (N D : ℕ) : ∀ k, (row N D k).Of N D
  | 0 => ⟨by simp [row], by simp [row], Or.inl (by simp [row])⟩
  | k + 1 => (row_of N D k).next

theorem later_one {N D : ℕ} (hD : 0 < D) : (row N D 1).Later :=
  ⟨by simp [row, Row.next, Row.denom, Row.semiDenom], by simp [row, Row.next],
    Nat.mod_lt N hD⟩

namespace Row.Later

variable {r : Row} (h : r.Later)

include h

theorem quot_pos (hd : r.d ≠ 0) : 0 < r.quot :=
  Nat.div_pos h.d_lt.le (Nat.pos_of_ne_zero hd)

theorem n1_le_numer (hd : r.d ≠ 0) : r.n1 ≤ r.numer :=
  (Nat.le_mul_of_pos_left _ (h.quot_pos hd)).trans (Nat.le_add_left _ _)

theorem d1_le_denom (hd : r.d ≠ 0) : r.d1 ≤ r.denom :=
  (Nat.le_mul_of_pos_left _ (h.quot_pos hd)).trans (Nat.le_add_left _ _)

theorem next (hd : r.d ≠ 0) : r.next.Later :=
  ⟨h.d1_pos.trans_le (h.d1_le_denom hd), h.d1_le_denom hd,
    Nat.mod_lt _ (Nat.pos_of_ne_zero hd)⟩

end Row.Later

/-! ## Distances -/

/-- Within the bounds, and no fraction within the bounds is closer to `x`. -/
structure IsClosest (x : ℚ) (maxN maxD : ℕ) (q : ℕ × ℕ) : Prop where
  denom_pos : 1 ≤ q.2
  denom_le : q.2 ≤ maxD
  numer_le : q.1 ≤ maxN
  closest : ∀ n d : ℕ, 1 ≤ d → d ≤ maxD → n ≤ maxN →
    ¬|(n : ℚ) / d - x| < |(q.1 : ℚ) / q.2 - x|

/-- The distance of `n / d` from `N / D`, times `d * D`. -/
def err (N D n d : ℕ) : ℤ :=
  |(n * D - N * d : ℤ)|

theorem abs_sub_eq {N D n d : ℕ} (hD : 0 < D) (hd : 0 < d) :
    |(n : ℚ) / d - N / D| = err N D n d / (d * D) := by
  have hD' : (0 : ℚ) < D := Nat.cast_pos.2 hD
  have hd' : (0 : ℚ) < d := Nat.cast_pos.2 hd
  have hsub : (n : ℚ) / d - N / D = (n * D - N * d) / (d * D) := by
    field_simp
  rw [hsub, abs_div, abs_of_pos (mul_pos hd' hD'), err]
  push_cast
  rfl

theorem closer_iff {N D n d n' d' : ℕ} (hD : 0 < D) (hd : 0 < d) (hd' : 0 < d') :
    |(n' : ℚ) / d' - N / D| < |(n : ℚ) / d - N / D| ↔ err N D n' d' * d < err N D n d * d' := by
  have hDq : (0 : ℚ) < D := Nat.cast_pos.2 hD
  have hdq : (0 : ℚ) < d := Nat.cast_pos.2 hd
  have hdq' : (0 : ℚ) < d' := Nat.cast_pos.2 hd'
  rw [abs_sub_eq hD hd, abs_sub_eq hD hd', div_lt_div_iff₀ (by positivity) (by positivity),
    ← mul_assoc, ← mul_assoc, mul_lt_mul_iff_left₀ hDq]
  exact_mod_cast Iff.rfl

/-- What is equal to the fraction is closest to it. -/
theorem isClosest_of_err_eq_zero {N D maxN maxD : ℕ} (hD : 0 < D) {q : ℕ × ℕ} (hpos : 1 ≤ q.2)
    (hd : q.2 ≤ maxD) (hn : q.1 ≤ maxN) (herr : err N D q.1 q.2 = 0) :
    IsClosest (N / D) maxN maxD q := by
  refine ⟨hpos, hd, hn, fun n d hpos' _ _ => ?_⟩
  rw [closer_iff hD hpos hpos', herr, zero_mul, not_lt]
  exact mul_nonneg (abs_nonneg _) (Int.natCast_nonneg _)

namespace Row.Of

variable {N D : ℕ} {r : Row} (h : r.Of N D)

include h

/-- The numerator and denominator of a fraction, as combinations of the two convergents. -/
theorem exists_combination (n d : ℕ) : ∃ u v : ℤ, (n : ℤ) = u * r.n1 + v * r.n0 ∧
    (d : ℤ) = u * r.d1 + v * r.d0 ∧ err N D n d = |u * r.d - v * r.n| := by
  have hN : (N : ℤ) = r.n1 * r.n + r.n0 * r.d := by exact_mod_cast h.numer_eq.symm
  have hD : (D : ℤ) = r.d1 * r.n + r.d0 * r.d := by exact_mod_cast h.denom_eq.symm
  rcases h.det with hdet | hdet
  · refine ⟨n * r.d0 - d * r.n0, r.n1 * d - r.d1 * n, ?_, ?_, ?_⟩
    · linear_combination -(n : ℤ) * hdet
    · linear_combination -(d : ℤ) * hdet
    · rw [err, hN, hD]
      congr 1
      ring
  · refine ⟨d * r.n0 - n * r.d0, r.d1 * n - r.n1 * d, ?_, ?_, ?_⟩
    · linear_combination (n : ℤ) * hdet
    · linear_combination (d : ℤ) * hdet
    · rw [err, hN, hD, ← abs_neg]
      congr 1
      ring

theorem err_last : err N D r.n1 r.d1 = r.d := by
  have hN : (N : ℤ) = r.n1 * r.n + r.n0 * r.d := by exact_mod_cast h.numer_eq.symm
  have hD : (D : ℤ) = r.d1 * r.n + r.d0 * r.d := by exact_mod_cast h.denom_eq.symm
  have herr : (r.n1 * D - N * r.d1 : ℤ) = (r.n1 * r.d0 - r.n0 * r.d1) * r.d := by
    rw [hN, hD]
    ring
  rw [err, herr]
  rcases h.det with hdet | hdet <;> rw [hdet] <;> simp

/-- A semiconvergent is the closer the further it goes. -/
theorem err_semi {m : ℕ} (hm : m ≤ r.quot) :
    err N D (r.semiNumer m) (r.semiDenom m) = (r.n - m * r.d : ℕ) := by
  have hle : m * r.d ≤ r.n := (Nat.mul_le_mul_right _ hm).trans (Nat.div_mul_le_self _ _)
  have hN : (N : ℤ) = r.n1 * r.n + r.n0 * r.d := by exact_mod_cast h.numer_eq.symm
  have hD : (D : ℤ) = r.d1 * r.n + r.d0 * r.d := by exact_mod_cast h.denom_eq.symm
  have herr : ((r.semiNumer m : ℕ) * D - N * (r.semiDenom m : ℕ) : ℤ) =
      -(r.n1 * r.d0 - r.n0 * r.d1) * (r.n - m * r.d) := by
    rw [hN, hD, semiNumer, semiDenom]
    push_cast
    ring
  have hpos : (0 : ℤ) ≤ r.n - m * r.d := by
    have : (m * r.d : ℤ) ≤ r.n := by exact_mod_cast hle
    linarith
  rw [err, herr, abs_mul, Nat.cast_sub hle, Nat.cast_mul, abs_of_nonneg hpos]
  rcases h.det with hdet | hdet <;> rw [hdet] <;> simp

end Row.Of

namespace Row.Of

variable {N D : ℕ} {r : Row} (h : r.Of N D)

include h

theorem gcd_dvd : Nat.gcd N D ∣ r.d := by
  have hN : (Nat.gcd N D : ℤ) ∣ N := Int.natCast_dvd_natCast.2 (Nat.gcd_dvd_left N D)
  have hD : (Nat.gcd N D : ℤ) ∣ D := Int.natCast_dvd_natCast.2 (Nat.gcd_dvd_right N D)
  rw [← Int.natCast_dvd_natCast, ← h.err_last, err, dvd_abs]
  exact dvd_sub (hD.mul_left _) (hN.mul_right _)

/-- The fraction in lowest terms is at least the next convergent. -/
theorem le_reduced (hd : r.d ≠ 0) :
    r.numer ≤ N / Nat.gcd N D ∧ r.denom ≤ D / Nat.gcd N D := by
  have hle : Nat.gcd N D ≤ r.d := Nat.le_of_dvd (Nat.pos_of_ne_zero hd) h.gcd_dvd
  have hpos : 0 < Nat.gcd N D := Nat.pos_of_ne_zero fun h0 => hd (Nat.zero_dvd.1 (h0 ▸ h.gcd_dvd))
  have hN := h.next.numer_eq
  have hD := h.next.denom_eq
  simp only [Row.next] at hN hD
  rw [Nat.le_div_iff_mul_le hpos, Nat.le_div_iff_mul_le hpos]
  have hnumer := Nat.mul_le_mul_left r.numer hle
  have hdenom := Nat.mul_le_mul_left r.denom hle
  exact ⟨by omega, by omega⟩

end Row.Of

section Order

variable {N D : ℕ} (hD : 0 < D)

include hD

theorem row_later : ∀ {k : ℕ}, 0 < k → (∀ j < k, (row N D j).d ≠ 0) → (row N D k).Later
  | 1, _, _ => later_one hD
  | k + 2, _, h => (row_later k.succ_pos fun j hj => h j (by omega)).next (h _ (by omega))

/-- From the first convergent on, numerators and denominators do not decrease. -/
theorem row_mono {i j : ℕ} (hi : 0 < i) (hij : i ≤ j) (h : ∀ l < j, (row N D l).d ≠ 0) :
    (row N D i).n1 ≤ (row N D j).n1 ∧ (row N D i).d1 ≤ (row N D j).d1 := by
  induction j, hij using Nat.le_induction with
  | base => exact ⟨le_rfl, le_rfl⟩
  | succ j hij ih =>
    obtain ⟨hn, hd⟩ := ih fun l hl => h l (by omega)
    have hlater := row_later hD (hi.trans_le hij) fun l hl => h l (by omega)
    have hne := h j (Nat.lt_succ_self j)
    exact ⟨hn.trans (hlater.n1_le_numer hne), hd.trans (hlater.d1_le_denom hne)⟩

end Order

/-! ## Semiconvergents within the bounds -/

/-- No semiconvergent within the bounds is closer than the last convergent. -/
def Row.NoneCloser (maxN maxD : ℕ) (r : Row) : Prop :=
  ∀ m, m ≤ r.quot → r.semiNumer m ≤ maxN → r.semiDenom m ≤ maxD →
    r.d * r.semiDenom m ≤ (r.n - m * r.d) * r.d1

instance (maxN maxD : ℕ) (r : Row) : Decidable (r.NoneCloser maxN maxD) :=
  Nat.decidableBallLE r.quot fun m _ => r.semiNumer m ≤ maxN → r.semiDenom m ≤ maxD →
    r.d * r.semiDenom m ≤ (r.n - m * r.d) * r.d1

namespace Row.Later

variable {N D : ℕ} {r : Row} (h : r.Later) (hof : r.Of N D)

include h hof

/-- A fraction closer than the last convergent is on the other side of `N / D`, and made of at
least one of the convergent before. Leaving out all but one gives a semiconvergent that is
closer too. -/
theorem exists_semi_of_closer {n d : ℕ} (hlt : err N D n d * r.d1 < r.d * d) :
    ∃ m, r.semiNumer m ≤ n ∧ r.semiDenom m ≤ d ∧
      r.n * r.d1 < 2 * (m * r.d) * r.d1 + r.d * r.d0 := by
  obtain ⟨u, v, hn, hd, herr⟩ := hof.exists_combination n d
  have hd1 : (0 : ℤ) < r.d1 := by exact_mod_cast h.d1_pos
  have hd0 : (0 : ℤ) ≤ r.d0 := Int.natCast_nonneg _
  have hn0 : (0 : ℤ) ≤ r.n0 := Int.natCast_nonneg _
  have hrd : (0 : ℤ) ≤ r.d := Int.natCast_nonneg _
  have hdn : (r.d : ℤ) ≤ r.n := by exact_mod_cast h.d_lt.le
  have hle : (r.d0 : ℤ) ≤ r.d1 := by exact_mod_cast h.d0_le
  have hpair : (r.d * r.d0 : ℤ) ≤ r.n * r.d1 := mul_le_mul hdn hle hd0 (hrd.trans hdn)
  rw [herr, hd] at hlt
  have hpos : (u * r.d - v * r.n) * r.d1 < r.d * (u * r.d1 + v * r.d0) :=
    (mul_le_mul_of_nonneg_right (le_abs_self _) hd1.le).trans_lt hlt
  have hneg : -(u * r.d - v * r.n) * r.d1 < r.d * (u * r.d1 + v * r.d0) :=
    (mul_le_mul_of_nonneg_right (neg_le_abs _) hd1.le).trans_lt hlt
  have hv : 1 ≤ v := by
    by_contra hv
    have hsum : (0 : ℤ) ≤ r.n * r.d1 + r.d * r.d0 :=
      add_nonneg (mul_nonneg (hrd.trans hdn) hd1.le) (mul_nonneg hrd hd0)
    have := mul_nonpos_of_nonpos_of_nonneg (show v ≤ 0 by omega) hsum
    linarith only [hpos, this]
  have hu : 1 ≤ u := by
    by_contra hu
    have hle₁ := mul_nonpos_of_nonpos_of_nonneg (show u ≤ 0 by omega) (mul_nonneg hrd hd1.le)
    have hle₂ := mul_nonneg (zero_le_one.trans hv) (sub_nonneg.2 hpair)
    linarith only [hneg, hle₁, hle₂]
  obtain ⟨m, rfl⟩ := Int.eq_ofNat_of_zero_le (zero_le_one.trans hu)
  refine ⟨m, ?_, ?_, ?_⟩
  · have hle₀ := le_mul_of_one_le_left hn0 hv
    have : (r.n0 + m * r.n1 : ℤ) ≤ n := by linarith only [hn, hle₀]
    exact_mod_cast this
  · have hle₀ := le_mul_of_one_le_left hd0 hv
    have : (r.d0 + m * r.d1 : ℤ) ≤ d := by linarith only [hd, hle₀]
    exact_mod_cast this
  · have hle₁ := le_mul_of_one_le_left (sub_nonneg.2 hpair) hv
    have : (r.n * r.d1 : ℤ) < 2 * (m * r.d) * r.d1 + r.d * r.d0 := by
      linarith only [hneg, hle₁]
    exact_mod_cast this

/-- If the next convergent exceeds the bounds, the last one is closest exactly if no
semiconvergent within the bounds is closer. -/
theorem isClosest_iff {maxN maxD : ℕ} (hD : 0 < D) (hn : r.n1 ≤ maxN) (hd : r.d1 ≤ maxD)
    (hexceeds : maxN < r.numer ∨ maxD < r.denom) :
    IsClosest (N / D) maxN maxD (r.n1, r.d1) ↔ r.NoneCloser maxN maxD := by
  constructor
  · intro hc m hm hsn hsd
    rcases Nat.eq_zero_or_pos (r.semiDenom m) with h0 | hpos
    · rw [h0, Nat.mul_zero]
      exact Nat.zero_le _
    · have hle := hc.closest _ _ hpos hsd hsn
      rw [closer_iff hD h.d1_pos hpos, hof.err_last, hof.err_semi hm, not_lt] at hle
      exact_mod_cast hle
  · intro hnone
    refine ⟨h.d1_pos, hd, hn, fun n d hpos hdle hnle hlt => ?_⟩
    rw [closer_iff hD h.d1_pos hpos, hof.err_last] at hlt
    obtain ⟨m, hsn, hsd, hcloser⟩ := h.exists_semi_of_closer hof hlt
    have hm : m ≤ r.quot := by
      by_contra hm
      have hmul : ∀ a : ℕ, r.quot * a ≤ m * a := fun a => Nat.mul_le_mul_right a (by omega)
      have hn1 := hmul r.n1
      have hd1 := hmul r.d1
      simp only [numer, denom, semiNumer, semiDenom] at hexceeds hsn hsd
      omega
    have hmn : m * r.d ≤ r.n := (Nat.mul_le_mul_right _ hm).trans (Nat.div_mul_le_self _ _)
    have hle := hnone m hm (hsn.trans hnle) (hsd.trans hdle)
    rw [Nat.sub_mul, semiDenom, Nat.mul_add] at hle
    have hcomm : r.d * (m * r.d1) = m * r.d * r.d1 := by ring
    rw [Nat.mul_assoc 2] at hcloser
    omega

end Row.Later

end KernelModules.Convergents
