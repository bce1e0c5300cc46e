import KernelModules.Convergents

/-!
# Approximation by a fraction

`linux/rational.h` : `rational_best_approximation` follows Euclid's algorithm on the given
fraction and computes its convergents until one exceeds a bound. The variables are
`unsigned long`s, here `UInt64`s.

Before a bound is exceeded, the variables are the rows of `Convergents`
(`rationalVars_row`), so nothing wraps (`rationalBestApproximation_exact`).

A bound that is exceeded ends the loop at once. The comment on the function says that it then
backs off along the last term, which it does not. The numerator is also stored before the
denominator is tested, so after a break on the denominator the two belong to different
convergents. `isClosest_rationalBestApproximation_iff` says when the result is closest all the
same.
-/

namespace KernelModules

open Convergents

/-- The variables of the loop. -/
structure RationalVars where
  n : UInt64
  d : UInt64
  n0 : UInt64
  d0 : UInt64
  n1 : UInt64
  d1 : UInt64
deriving DecidableEq, Repr

namespace RationalVars

variable (v : RationalVars)

/-- `n / d` -/
def a : UInt64 :=
  v.n / v.d

/-- `n0 + a * n1` -/
def nextNumer : UInt64 :=
  v.n0 + v.a * v.n1

/-- `d0 + a * d1` -/
def nextDenom : UInt64 :=
  v.d0 + v.a * v.d1

/-- The exact values. -/
def row : Row :=
  ⟨v.n.toNat, v.d.toNat, v.n0.toNat, v.d0.toNat, v.n1.toNat, v.d1.toNat⟩

end RationalVars

section Source

variable (maxNumerator maxDenominator : UInt64)

/-- One pass of the loop : the pair stored after a `break`, or the variables for the next
pass. -/
def rationalPass (v : RationalVars) : (UInt64 × UInt64) ⊕ RationalVars :=
  if v.d = 0 then .inl (v.n1, v.d1)
  else if v.nextNumer > maxNumerator then .inl (v.n1, v.d1)
  -- From here on `n1` is the new numerator.
  else if v.nextDenom > maxDenominator then .inl (v.nextNumer, v.d1)
  else .inr ⟨v.d, v.n % v.d, v.n1, v.d1, v.nextNumer, v.nextDenom⟩

/-- The loop. -/
def rationalLoop : ℕ → RationalVars → Option (UInt64 × UInt64)
  | 0, _ => none
  | fuel + 1, v =>
    match rationalPass maxNumerator maxDenominator v with
    | .inl q => some q
    | .inr v => rationalLoop fuel v

variable (givenNumerator givenDenominator : UInt64)

/-- `rational_best_approximation`, with the pair it stores. -/
def rationalBestApproximation (fuel : ℕ) : Option (UInt64 × UInt64) :=
  rationalLoop maxNumerator maxDenominator fuel ⟨givenNumerator, givenDenominator, 0, 1, 1, 0⟩

/-- The variables at the start of the `k`-th pass, if there is one. -/
def rationalVars : ℕ → Option RationalVars
  | 0 => some ⟨givenNumerator, givenDenominator, 0, 1, 1, 0⟩
  | k + 1 => (rationalVars k).bind fun v => (rationalPass maxNumerator maxDenominator v).getRight?

end Source

/-! ## Nothing wraps -/

theorem toNat_add_mul {x a y : UInt64} (h : x.toNat + a.toNat * y.toNat < 2 ^ 64) :
    (x + a * y).toNat = x.toNat + a.toNat * y.toNat := by
  have hmul : a.toNat * y.toNat < 2 ^ 64 := (Nat.le_add_left _ _).trans_lt h
  rw [UInt64.toNat_add, UInt64.toNat_mul, Nat.mod_eq_of_lt hmul, Nat.mod_eq_of_lt h]

namespace RationalVars

variable {v : RationalVars} {N D : UInt64} (h : v.row.Of N.toNat D.toNat)

include h

theorem toNat_nextNumer (hd : v.d ≠ 0) : v.nextNumer.toNat = v.row.numer := by
  have hd' : v.row.d ≠ 0 := fun h0 => hd (UInt64.toNat_inj.1 h0)
  have hlt : v.n0.toNat + v.a.toNat * v.n1.toNat < 2 ^ 64 := by
    rw [a, UInt64.toNat_div]
    exact (h.numer_le hd').trans_lt N.toNat_lt
  rw [nextNumer, toNat_add_mul hlt, a, UInt64.toNat_div]
  rfl

theorem toNat_nextDenom (hd : v.d ≠ 0) : v.nextDenom.toNat = v.row.denom := by
  have hd' : v.row.d ≠ 0 := fun h0 => hd (UInt64.toNat_inj.1 h0)
  have hlt : v.d0.toNat + v.a.toNat * v.d1.toNat < 2 ^ 64 := by
    rw [a, UInt64.toNat_div]
    exact (h.denom_le hd').trans_lt D.toNat_lt
  rw [nextDenom, toNat_add_mul hlt, a, UInt64.toNat_div]
  rfl

end RationalVars

section Passes

variable {maxN maxD N D : UInt64}

/-- What a pass that goes on has tested, and the variables it leaves. -/
theorem rationalPass_eq_inr {v v' : RationalVars} (h : rationalPass maxN maxD v = .inr v') :
    v.d ≠ 0 ∧ v.nextNumer ≤ maxN ∧ v.nextDenom ≤ maxD ∧
      v' = ⟨v.d, v.n % v.d, v.n1, v.d1, v.nextNumer, v.nextDenom⟩ := by
  unfold rationalPass at h
  split at h
  · cases h
  next hd =>
  split at h
  · cases h
  next hn =>
  split at h
  · cases h
  next hden =>
  exact ⟨hd, UInt64.not_lt.1 hn, UInt64.not_lt.1 hden, (Sum.inr.inj h).symm⟩

/-- The three ways out of the loop. -/
theorem rationalPass_eq_inl {v : RationalVars} {q : UInt64 × UInt64}
    (h : rationalPass maxN maxD v = .inl q) :
    (v.d = 0 ∧ q = (v.n1, v.d1)) ∨
      (v.d ≠ 0 ∧ maxN < v.nextNumer ∧ q = (v.n1, v.d1)) ∨
      (v.d ≠ 0 ∧ v.nextNumer ≤ maxN ∧ maxD < v.nextDenom ∧ q = (v.nextNumer, v.d1)) := by
  unfold rationalPass at h
  split at h
  · next hd => exact Or.inl ⟨hd, (Sum.inl.inj h).symm⟩
  next hd =>
  split at h
  · next hn => exact Or.inr (Or.inl ⟨hd, hn, (Sum.inl.inj h).symm⟩)
  next hn =>
  split at h
  · next hden => exact Or.inr (Or.inr ⟨hd, UInt64.not_lt.1 hn, hden, (Sum.inl.inj h).symm⟩)
  · cases h

theorem rationalVars_succ {k : ℕ} {v' : RationalVars}
    (h : rationalVars maxN maxD N D (k + 1) = some v') :
    ∃ v, rationalVars maxN maxD N D k = some v ∧ rationalPass maxN maxD v = .inr v' := by
  obtain ⟨v, hv, hpass⟩ := Option.bind_eq_some_iff.1 h
  exact ⟨v, hv, by simpa using hpass⟩

/-- The variables are the rows of Euclid's algorithm on the given fraction. -/
theorem rationalVars_row : ∀ {k : ℕ} {v : RationalVars},
    rationalVars maxN maxD N D k = some v → v.row = row N.toNat D.toNat k
  | 0, v, h => by
    obtain rfl := Option.some.inj h
    rfl
  | k + 1, v', h => by
    obtain ⟨v, hv, hpass⟩ := rationalVars_succ h
    obtain ⟨hd, -, -, rfl⟩ := rationalPass_eq_inr hpass
    have hrow := rationalVars_row hv
    have hof : v.row.Of N.toNat D.toNat := hrow ▸ row_of _ _ k
    rw [row, ← hrow]
    simp only [RationalVars.row, Row.next, UInt64.toNat_mod]
    rw [RationalVars.toNat_nextNumer hof hd, RationalVars.toNat_nextDenom hof hd]
    rfl

theorem rationalVars_of {k : ℕ} {v : RationalVars} (h : rationalVars maxN maxD N D k = some v) :
    v.row.Of N.toNat D.toNat :=
  rationalVars_row h ▸ row_of _ _ k

/-- The loop ends, in some pass. -/
theorem exists_exit : ∀ (fuel k : ℕ) {v : RationalVars}, rationalVars maxN maxD N D k = some v →
    v.d.toNat < fuel → ∃ k' v' q, rationalVars maxN maxD N D k' = some v' ∧
      rationalPass maxN maxD v' = .inl q ∧ rationalLoop maxN maxD fuel v = some q
  | 0, _, _, _, hlt => absurd hlt (Nat.not_lt_zero _)
  | fuel + 1, k, v, hv, hlt => by
    cases hpass : rationalPass maxN maxD v with
    | inl q => exact ⟨k, v, q, hv, hpass, by rw [rationalLoop, hpass]⟩
    | inr v' =>
      have hv' : rationalVars maxN maxD N D (k + 1) = some v' := by
        rw [rationalVars, hv, Option.bind_some, hpass]
        rfl
      obtain ⟨hd, -, -, he⟩ := rationalPass_eq_inr hpass
      have hpos : 0 < v.d.toNat := Nat.pos_of_ne_zero fun h0 => hd (UInt64.toNat_inj.1 h0)
      have hmod : v'.d.toNat < v.d.toNat := by
        rw [he, UInt64.toNat_mod]
        exact Nat.mod_lt _ hpos
      obtain ⟨k', w, q, hw, hq, hloop⟩ := exists_exit fuel (k + 1) hv' (by omega)
      refine ⟨k', w, q, hw, hq, ?_⟩
      rw [rationalLoop, hpass]
      exact hloop

end Passes

theorem exists_exit_of_lt (maxN maxD N : UInt64) {D : UInt64} {fuel : ℕ} (hfuel : D.toNat < fuel) :
    ∃ k v q, rationalVars maxN maxD N D k = some v ∧ rationalPass maxN maxD v = .inl q ∧
      rationalBestApproximation maxN maxD N D fuel = some q :=
  exists_exit fuel 0 rfl hfuel

/-- The loop ends, the values it computes are exact, and if no bound is exceeded the result is
the given fraction in lowest terms. -/
theorem rationalBestApproximation_exact (maxN maxD N D : UInt64) :
    (∀ fuel, D.toNat < fuel → ∃ q, rationalBestApproximation maxN maxD N D fuel = some q) ∧
      (∀ k v, rationalVars maxN maxD N D k = some v → v.d ≠ 0 →
        v.nextNumer.toNat = v.n0.toNat + v.n.toNat / v.d.toNat * v.n1.toNat ∧
          v.nextDenom.toNat = v.d0.toNat + v.n.toNat / v.d.toNat * v.d1.toNat) ∧
      (D ≠ 0 → (∀ k v, rationalVars maxN maxD N D k = some v → v.d ≠ 0 →
          v.nextNumer ≤ maxN ∧ v.nextDenom ≤ maxD) →
        ∀ fuel, D.toNat < fuel → ∃ q, rationalBestApproximation maxN maxD N D fuel = some q ∧
          q.1.toNat = N.toNat / Nat.gcd N.toNat D.toNat ∧
          q.2.toNat = D.toNat / Nat.gcd N.toNat D.toNat) := by
  refine ⟨fun fuel hfuel => ?_, fun k v hv hd => ?_, fun hD hfits fuel hfuel => ?_⟩
  · obtain ⟨-, -, q, -, -, hq⟩ := exists_exit_of_lt maxN maxD N hfuel
    exact ⟨q, hq⟩
  · have hof := rationalVars_of hv
    exact ⟨RationalVars.toNat_nextNumer hof hd, RationalVars.toNat_nextDenom hof hd⟩
  · obtain ⟨k, v, q, hv, hpass, hq⟩ := exists_exit_of_lt maxN maxD N hfuel
    refine ⟨q, hq, ?_⟩
    rcases rationalPass_eq_inl hpass with ⟨hd, rfl⟩ | ⟨hd, hlt, -⟩ | ⟨hd, -, hlt, -⟩
    · have hpos : 0 < D.toNat := Nat.pos_of_ne_zero fun h0 => hD (UInt64.toNat_inj.1 h0)
      exact (rationalVars_of hv).reduced (congrArg UInt64.toNat hd) hpos
    · exact absurd hlt (UInt64.not_lt.2 (hfits k v hv hd).1)
    · exact absurd hlt (UInt64.not_lt.2 (hfits k v hv hd).2)

/-! ## When the result is closest -/

/-- The convergents up to the one of index `k - 1` are within the bounds, and the next one has
a numerator that is not. -/
structure StopsAtNumer (N D maxN maxD k : ℕ) : Prop where
  pos : 0 < k
  left : ∀ j ≤ k, (row N D j).d ≠ 0
  n1_le : (row N D k).n1 ≤ maxN
  d1_le : (row N D k).d1 ≤ maxD
  lt_numer : maxN < (row N D k).numer

/-- The fraction is within the bounds in lowest terms; or the first convergent that is not
exceeds the bound on the numerator, and no semiconvergent within the bounds is closer than the
convergent before; or it is one of two small cases, in which the numerator of the convergent
that exceeds the bound on the denominator fits the denominator before. -/
def StopsInTime (N D maxN maxD : ℕ) : Prop :=
  (N / Nat.gcd N D ≤ maxN ∧ D / Nat.gcd N D ≤ maxD) ∨
    (∃ k, StopsAtNumer N D maxN maxD k ∧ (row N D k).NoneCloser maxN maxD) ∨
    (maxD = D / N ∧ N < 2 * (D % N)) ∨ (D = 2 * N ∧ maxD = 1)

/-- The tests of a pass are passed. -/
structure Passes (maxN maxD : ℕ) (r : Row) : Prop where
  d_ne : r.d ≠ 0
  numer_le : r.numer ≤ maxN
  denom_le : r.denom ≤ maxD

/-- The loop ends with the pair `q`. -/
inductive Leaves (maxN maxD : ℕ) (r : Row) : ℕ × ℕ → Prop where
  | done (hd : r.d = 0) : Leaves maxN maxD r (r.n1, r.d1)
  | numer (hd : r.d ≠ 0) (h : maxN < r.numer) : Leaves maxN maxD r (r.n1, r.d1)
  | denom (hd : r.d ≠ 0) (hn : r.numer ≤ maxN) (h : maxD < r.denom) :
      Leaves maxN maxD r (r.numer, r.d1)

section Closest

variable {N D maxN maxD : ℕ}

/-- The last convergent has the same denominator, so the numerator cannot be far from its
own. -/
theorem numer_sub_le {r : Row} (hl : r.Later) (hof : r.Of N D) (hD : 0 < D) (hd : r.d ≠ 0)
    (hc : IsClosest (N / D) maxN maxD (r.numer, r.d1)) : (r.numer - r.n1) * D ≤ 2 * r.d := by
  have hn1 := hl.n1_le_numer hd
  have hle := hc.closest r.n1 r.d1 hl.d1_pos hc.denom_le (hn1.trans hc.numer_le)
  rw [closer_iff hD hl.d1_pos hl.d1_pos, hof.err_last, not_lt,
    mul_le_mul_iff_left₀ (Int.natCast_pos.2 hl.d1_pos)] at hle
  have hlast : -(r.d : ℤ) ≤ r.n1 * D - N * r.d1 := by
    rw [← hof.err_last]
    exact neg_abs_le _
  have hnumer : (r.numer * D - N * r.d1 : ℤ) ≤ r.d := (le_abs_self _).trans hle
  have hsub : ((r.numer - r.n1 : ℕ) * D : ℤ) ≤ 2 * r.d := by
    rw [Nat.cast_sub hn1]
    linarith
  exact_mod_cast hsub

/-- The numerator did not change, so the convergents began with `0 / 1` and `1 / d1`. -/
theorem small_of_numer_eq {r : Row} (hl : r.Later) (hof : r.Of N D) (hd : r.d ≠ 0)
    (hd1 : r.d1 ≤ maxD) (hden : maxD < r.denom) (heq : r.numer = r.n1) :
    maxD = D / N ∧ N < 2 * (D % N) := by
  have hq := hl.quot_pos hd
  have hn := r.quot_mul_add
  have hmod : r.n % r.d < r.d := Nat.mod_lt _ (Nat.pos_of_ne_zero hd)
  have hdlt := hl.d_lt
  have hnumer : r.numer = r.n0 + r.quot * r.n1 := rfl
  have hdenom : r.denom = r.d0 + r.quot * r.d1 := rfl
  have hN := hof.numer_eq
  have hDeq := hof.denom_eq
  have hn1 : r.n1 ≤ r.quot * r.n1 := Nat.le_mul_of_pos_left _ hq
  have hn0 : r.n0 = 0 := by omega
  have hdet : r.n1 * r.d0 = 1 := by
    have hnonneg : (0 : ℤ) ≤ r.n1 * r.d0 := by positivity
    have := hof.det
    rw [hn0, Nat.cast_zero, zero_mul, sub_zero] at this
    zify
    omega
  obtain ⟨h1, h2⟩ := mul_eq_one.1 hdet
  rw [hn0, h1, Nat.mul_one] at hnumer
  have hquot : r.quot = 1 := by omega
  rw [hquot, h2] at hdenom
  rw [h1, hn0] at hN
  rw [h2] at hDeq
  rw [hquot] at hn
  have hrn : r.n = N := by omega
  rw [hrn] at hDeq hn hdlt hmod
  have hdm : D / N = r.d1 ∧ D % N = r.d :=
    (Nat.div_mod_unique (by omega)).2 ⟨by rw [Nat.mul_comm]; omega, hdlt⟩
  exact ⟨by omega, by omega⟩

/-- The numerator changed, so the given denominator is at most twice what is left of it. -/
theorem small_of_n1_lt {r : Row} (hl : r.Later) (hof : r.Of N D) (hd : r.d ≠ 0)
    (hd1 : r.d1 ≤ maxD) (hden : maxD < r.denom) (hlt : r.n1 < r.numer)
    (hsub : (r.numer - r.n1) * D ≤ 2 * r.d) : D = 2 * N ∧ maxD = 1 := by
  have hn := r.quot_mul_add
  have hdlt := hl.d_lt
  have hd1' := hl.d1_pos
  have hnumer : r.numer = r.n0 + r.quot * r.n1 := rfl
  have hdenom : r.denom = r.d0 + r.quot * r.d1 := rfl
  have hN := hof.numer_eq
  have hDeq := hof.denom_eq
  have hDle : D ≤ 2 * r.d := (Nat.le_mul_of_pos_left _ (Nat.sub_pos_of_lt hlt)).trans hsub
  have hone : r.d1 = 1 := by
    by_contra hne
    have : 2 * r.n ≤ r.d1 * r.n := Nat.mul_le_mul_right _ (by omega)
    omega
  have hzero : r.d0 = 0 := by
    by_contra hne
    have : 1 * r.d ≤ r.d0 * r.d := Nat.mul_le_mul_right _ (by omega)
    rw [hone] at hDeq
    omega
  rw [hone, hzero] at hDeq hdenom
  have hdet : r.n0 = 1 := by
    have := hof.det
    rw [hone, hzero] at this
    push_cast at this
    omega
  have hquot : 2 * r.d ≤ r.quot * r.d := Nat.mul_le_mul_right _ (by omega)
  have hquot' : r.quot = 2 := by
    have hle : r.quot * r.d ≤ 2 * r.d := by omega
    have := Nat.le_of_mul_le_mul_right hle (Nat.pos_of_ne_zero hd)
    omega
  have hsub' : r.numer - r.n1 ≤ 1 := by
    by_contra hne
    have : 2 * D ≤ (r.numer - r.n1) * D := Nat.mul_le_mul_right _ (by omega)
    omega
  rw [hquot'] at hnumer
  have hzero' : r.n1 = 0 := by omega
  rw [hzero', hdet] at hN
  exact ⟨by omega, by omega⟩

/-- The numerator of a convergent over the denominator before it is closest in the two small
cases only. -/
theorem small_of_isClosest {r : Row} (hl : r.Later) (hof : r.Of N D) (hD : 0 < D) (hd : r.d ≠ 0)
    (hden : maxD < r.denom) (hc : IsClosest (N / D) maxN maxD (r.numer, r.d1)) :
    (maxD = D / N ∧ N < 2 * (D % N)) ∨ (D = 2 * N ∧ maxD = 1) := by
  rcases (hl.n1_le_numer hd).eq_or_lt with heq | hlt
  · exact Or.inl (small_of_numer_eq hl hof hd hc.denom_le hden heq.symm)
  · exact Or.inr (small_of_n1_lt hl hof hd hc.denom_le hden hlt (numer_sub_le hl hof hD hd hc))

theorem row_one_of_lt (h : N < D) : row N D 1 = ⟨D, N, 1, 0, 0, 1⟩ := by
  simp [row, Row.next, Row.numer, Row.denom, Row.semiNumer, Row.semiDenom, Row.quot,
    Nat.mod_eq_of_lt h, Nat.div_eq_of_lt h]

theorem row_two_of_lt (h : N < D) : row N D 2 = ⟨N, D % N, 0, 1, 1, D / N⟩ := by
  rw [row, row_one_of_lt h]
  simp [Row.next, Row.numer, Row.denom, Row.semiNumer, Row.semiDenom, Row.quot]

/-- A fraction below 1 passes the tests in the first pass. -/
theorem not_leaves_zero (h : N < D) (hmaxD : 0 < maxD) (q : ℕ × ℕ) :
    ¬Leaves maxN maxD (row N D 0) q := by
  rintro (hd | ⟨-, hlt⟩ | ⟨-, -, hlt⟩)
  · exact (Nat.zero_lt_of_lt h).ne' hd
  · simp [row, Row.numer, Row.semiNumer, Row.quot, Nat.div_eq_of_lt h] at hlt
  · simp [row, Row.denom, Row.semiDenom] at hlt
    omega

section Small

variable (hmaxN : 0 < maxN) (hmaxD : 0 < maxD) {k : ℕ}
  (hpasses : ∀ j < k, Passes maxN maxD (row N D j)) {q : ℕ × ℕ}
  (hq : Leaves maxN maxD (row N D k) q)

include hmaxN hmaxD hpasses hq

/-- The first small case. The third pass leaves the loop with `1 / maxD`. -/
theorem isClosest_of_div_eq (hD : maxD = D / N) (hlt : N < 2 * (D % N)) :
    IsClosest (N / D) maxN maxD q := by
  have hN : 0 < N := Nat.pos_of_ne_zero fun h0 => by simp [h0] at hD; omega
  have hND : N < D := by
    refine lt_of_le_of_ne (Nat.le_of_not_lt fun h => ?_) fun h => ?_
    · rw [Nat.div_eq_of_lt h] at hD
      omega
    · rw [h, Nat.mod_self] at hlt
      omega
  have hmod : D % N < N := Nat.mod_lt _ hN
  have hquot : N / (D % N) = 1 := Nat.div_eq_of_lt_le (by omega) (by omega)
  have htwo := row_two_of_lt hND
  match k with
  | 0 => exact absurd hq (not_leaves_zero hND hmaxD q)
  | 1 =>
    rw [row_one_of_lt hND] at hq
    rcases hq with hd | ⟨-, h⟩ | ⟨-, -, h⟩
    · exact absurd hd hN.ne'
    · simp [Row.numer, Row.semiNumer] at h
      omega
    · simp [Row.denom, Row.semiDenom, Row.quot] at h
      omega
  | 2 =>
    have hlater := row_later (hN.trans hND) Nat.two_pos fun j hj => (hpasses j hj).d_ne
    have hof := row_of N D 2
    rw [htwo] at hq hlater hof
    rcases hq with hd | ⟨-, h⟩ | ⟨-, -, h⟩
    · have : D % N = 0 := hd
      omega
    · simp [Row.numer, Row.semiNumer, Row.quot, hquot] at h
      omega
    · have hnumer : Row.numer ⟨N, D % N, 0, 1, 1, D / N⟩ = 1 := by
        simp [Row.numer, Row.semiNumer, Row.quot, hquot]
      rw [hnumer]
      refine (hlater.isClosest_iff hof (hN.trans hND) hmaxN hD.ge (Or.inr h)).2 ?_
      -- Only the convergent before is within the bounds.
      rintro m hm - hdenom
      have hm0 : m = 0 := by
        by_contra hne
        have : 1 * (D / N) ≤ m * (D / N) := Nat.mul_le_mul_right _ (by omega)
        simp only [Row.semiDenom] at hdenom
        omega
      have : N * 1 ≤ N * (D / N) := Nat.mul_le_mul_left _ (by omega)
      simp [hm0, Row.semiDenom]
      omega
  | k + 3 =>
    have h := (hpasses 2 (by omega)).denom_le
    rw [htwo] at h
    simp [Row.denom, Row.semiDenom, Row.quot, hquot] at h
    omega

/-- The second small case. The second pass leaves the loop with `1 / 1`, as far from `1 / 2` as
`0 / 1` is. -/
theorem isClosest_of_eq_half (hD : 0 < D) (hhalf : D = 2 * N) (hone : maxD = 1) :
    IsClosest (N / D) maxN maxD q := by
  have hN : 0 < N := by omega
  have hND : N < D := by omega
  have hquot : D / N = 2 := by rw [hhalf, Nat.mul_div_cancel _ hN]
  have hrow := row_one_of_lt hND
  match k with
  | 0 => exact absurd hq (not_leaves_zero hND hmaxD q)
  | 1 =>
    rw [hrow] at hq
    rcases hq with hd | ⟨-, h⟩ | ⟨-, -, h⟩
    · exact absurd hd hN.ne'
    · simp [Row.numer, Row.semiNumer] at h
      omega
    · have hnumer : Row.numer ⟨D, N, 1, 0, 0, 1⟩ = 1 := by simp [Row.numer, Row.semiNumer]
      rw [hnumer]
      refine ⟨le_rfl, hone.ge, hmaxN, fun n d hd hd' _ => ?_⟩
      obtain rfl : d = 1 := by omega
      rw [closer_iff hD one_pos one_pos, not_lt, err, err, hhalf]
      refine mul_le_mul_of_nonneg_right ?_ (by decide)
      push_cast
      have hodd : (1 : ℤ) ≤ |2 * (n : ℤ) - 1| := Int.one_le_abs (by omega)
      have hleft : ((1 * (2 * N) - N * 1 : ℤ)) = N := by ring
      have hright : ((n * (2 * N) - N * 1 : ℤ)) = N * (2 * n - 1) := by ring
      rw [hleft, hright, abs_mul]
      exact le_mul_of_one_le_right (abs_nonneg _) hodd
  | k + 2 =>
    have h := (hpasses 1 (by omega)).denom_le
    rw [hrow] at h
    simp [Row.denom, Row.semiDenom, Row.quot, hquot] at h
    omega

end Small

section Exit

variable (hD : 0 < D) {k : ℕ} (hpasses : ∀ j < k, Passes maxN maxD (row N D j)) {q : ℕ × ℕ}
  (hq : Leaves maxN maxD (row N D k) q)

include hD hq

/-- In the first pass the bound on the denominator is not exceeded, and there is something
left. -/
theorem pos_of_leaves (hmaxD : 0 < maxD) (hc : IsClosest (N / D) maxN maxD q) : 0 < k := by
  rcases Nat.eq_zero_or_pos k with rfl | hk
  · rcases hq with hd | ⟨-, -⟩ | ⟨-, -, h⟩
    · exact absurd hd hD.ne'
    · exact absurd hc.denom_pos (Nat.not_succ_le_zero 0)
    · simp [row, Row.denom, Row.semiDenom] at h
      omega
  · exact hk

include hpasses

theorem eq_of_stopsAtNumer {k' : ℕ} (hs : StopsAtNumer N D maxN maxD k') : k' = k := by
  rcases lt_trichotomy k' k with hlt | heq | hlt
  · exact absurd hs.lt_numer (hpasses k' hlt).numer_le.not_gt
  · exact heq
  · obtain ⟨hn, hd⟩ := row_mono hD k.succ_pos hlt fun j hj => hs.left j hj.le
    rcases hq with h | ⟨-, h⟩ | ⟨-, -, h⟩
    · exact absurd h (hs.left k hlt.le)
    · exact absurd h (hn.trans hs.n1_le).not_gt
    · exact absurd h (hd.trans hs.d1_le).not_gt

end Exit

/-- Where the loop ends, the result is closest exactly if `StopsInTime`. -/
theorem isClosest_iff_stopsInTime (hD : 0 < D) (hmaxN : 0 < maxN) (hmaxD : 0 < maxD) {k : ℕ}
    (hpasses : ∀ j < k, Passes maxN maxD (row N D j)) {q : ℕ × ℕ}
    (hq : Leaves maxN maxD (row N D k) q) :
    IsClosest (N / D) maxN maxD q ↔ StopsInTime N D maxN maxD := by
  have hof := row_of N D k
  constructor
  · intro hc
    have hk := pos_of_leaves hD hq hmaxD hc
    have hlater := row_later hD hk fun j hj => (hpasses j hj).d_ne
    rcases hq with hd | ⟨hd, h⟩ | ⟨hd, hn, h⟩
    · obtain ⟨hN', hD'⟩ := hof.reduced hd hD
      exact Or.inl ⟨hN' ▸ hc.numer_le, hD' ▸ hc.denom_le⟩
    · have hleft : ∀ j ≤ k, (row N D j).d ≠ 0 := fun j hj =>
        (Nat.lt_or_eq_of_le hj).elim (fun hj => (hpasses j hj).d_ne) fun hj => hj ▸ hd
      exact Or.inr (Or.inl ⟨k, ⟨hk, hleft, hc.numer_le, hc.denom_le, h⟩,
        (hlater.isClosest_iff hof hD hc.numer_le hc.denom_le (Or.inl h)).1 hc⟩)
    · exact Or.inr (Or.inr (small_of_isClosest hlater hof hD hd h hc))
  · rintro (⟨hN', hD'⟩ | ⟨k', hs, hnone⟩ | ⟨hdiv, hlt⟩ | ⟨hhalf, hone⟩)
    · rcases hq with hd | ⟨hd, h⟩ | ⟨hd, -, h⟩
      · obtain ⟨hn, hd'⟩ := hof.reduced hd hD
        have hpos : 1 ≤ (row N D k).d1 := by
          rw [hd']
          exact Nat.div_pos (Nat.gcd_le_right N hD) (Nat.gcd_pos_of_pos_right N hD)
        refine isClosest_of_err_eq_zero hD hpos (hd' ▸ hD') (hn ▸ hN') ?_
        rw [hof.err_last, hd, Nat.cast_zero]
      · exact absurd h ((hof.le_reduced hd).1.trans hN').not_gt
      · exact absurd h ((hof.le_reduced hd).2.trans hD').not_gt
    · obtain rfl := eq_of_stopsAtNumer hD hpasses hq hs
      have hlater := row_later hD hs.pos fun j hj => (hpasses j hj).d_ne
      rcases hq with hd | ⟨-, h⟩ | ⟨-, h, -⟩
      · exact absurd hd (hs.left k' le_rfl)
      · exact (hlater.isClosest_iff hof hD hs.n1_le hs.d1_le (Or.inl h)).2 hnone
      · exact absurd hs.lt_numer h.not_gt
    · exact isClosest_of_div_eq hmaxN hmaxD hpasses hq hdiv hlt
    · exact isClosest_of_eq_half hmaxN hmaxD hpasses hq hD hhalf hone

end Closest

section Exits

variable {maxN maxD N D : UInt64}

/-- The passes before the `k`-th passed their tests. -/
theorem passes_of_rationalVars : ∀ {k : ℕ} {v : RationalVars},
    rationalVars maxN maxD N D k = some v →
      ∀ j < k, Passes maxN.toNat maxD.toNat (row N.toNat D.toNat j)
  | 0, _, _, _, hj => absurd hj (Nat.not_lt_zero _)
  | k + 1, v', h, j, hj => by
    obtain ⟨v, hv, hpass⟩ := rationalVars_succ h
    rcases Nat.lt_succ_iff_lt_or_eq.1 hj with hj | rfl
    · exact passes_of_rationalVars hv j hj
    · obtain ⟨hd, hn, hden, -⟩ := rationalPass_eq_inr hpass
      have hof := rationalVars_of hv
      rw [UInt64.le_iff_toNat_le, RationalVars.toNat_nextNumer hof hd] at hn
      rw [UInt64.le_iff_toNat_le, RationalVars.toNat_nextDenom hof hd] at hden
      rw [← rationalVars_row hv]
      exact ⟨fun h0 => hd (UInt64.toNat_inj.1 h0), hn, hden⟩

theorem leaves_of_rationalPass {k : ℕ} {v : RationalVars} {q : UInt64 × UInt64}
    (hv : rationalVars maxN maxD N D k = some v) (hq : rationalPass maxN maxD v = .inl q) :
    Leaves maxN.toNat maxD.toNat (row N.toNat D.toNat k) (q.1.toNat, q.2.toNat) := by
  have hof := rationalVars_of hv
  rw [← rationalVars_row hv]
  rcases rationalPass_eq_inl hq with ⟨hd, rfl⟩ | ⟨hd, h, rfl⟩ | ⟨hd, hn, h, rfl⟩
  · exact .done (congrArg UInt64.toNat hd)
  · rw [UInt64.lt_iff_toNat_lt, RationalVars.toNat_nextNumer hof hd] at h
    exact .numer (fun h0 => hd (UInt64.toNat_inj.1 h0)) h
  · rw [UInt64.le_iff_toNat_le, RationalVars.toNat_nextNumer hof hd] at hn
    rw [UInt64.lt_iff_toNat_lt, RationalVars.toNat_nextDenom hof hd] at h
    simp only [RationalVars.toNat_nextNumer hof hd]
    exact .denom (fun h0 => hd (UInt64.toNat_inj.1 h0)) hn h

end Exits

/-- The result is the closest fraction within the bounds exactly if the loop stops in time. -/
theorem isClosest_rationalBestApproximation_iff {maxN maxD N D : UInt64} (hD : 1 ≤ D)
    (hmaxN : 1 ≤ maxN) (hmaxD : 1 ≤ maxD) {fuel : ℕ} (hfuel : D.toNat < fuel) :
    (∃ q, rationalBestApproximation maxN maxD N D fuel = some q ∧
        IsClosest (N.toNat / D.toNat) maxN.toNat maxD.toNat (q.1.toNat, q.2.toNat)) ↔
      StopsInTime N.toNat D.toNat maxN.toNat maxD.toNat := by
  obtain ⟨k, v, q, hv, hpass, hq⟩ := exists_exit_of_lt maxN maxD N hfuel
  rw [← isClosest_iff_stopsInTime (UInt64.le_iff_toNat_le.1 hD) (UInt64.le_iff_toNat_le.1 hmaxN)
    (UInt64.le_iff_toNat_le.1 hmaxD) (passes_of_rationalVars hv) (leaves_of_rationalPass hv hpass)]
  constructor
  · rintro ⟨q', hq', hc⟩
    obtain rfl := Option.some.inj (hq.symm.trans hq')
    exact hc
  · exact fun hc => ⟨q, hq, hc⟩

/-- `355 / 113` with numerators up to 100 : the result `22 / 7` is closest. -/
theorem isClosest_rationalBestApproximation_pi :
    ∃ q, rationalBestApproximation 100 100 355 113 114 = some q ∧
      IsClosest (355 / 113) 100 100 (q.1.toNat, q.2.toNat) :=
  (isClosest_rationalBestApproximation_iff (N := 355) (D := 113) (by decide) (by decide)
    (by decide) (by decide)).2 (Or.inr (Or.inl ⟨2, ⟨by decide, by decide, by decide, by decide,
      by decide⟩, by decide⟩))

/-- `31 / 100` with denominators up to 10 : the numerator of `4 / 13` is stored, with the
denominator of `1 / 3`. -/
theorem rationalBestApproximation_not_closest :
    rationalBestApproximation 100 10 31 100 101 = some (4, 3) ∧
      ¬IsClosest (31 / 100) 100 10 (4, 3) := by
  refine ⟨by decide, fun h => h.closest 3 10 (by decide) (by decide) (by decide) ?_⟩
  norm_num [abs_lt]

end KernelModules
