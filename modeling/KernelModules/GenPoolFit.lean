import KernelModules.GenPool
import Mathlib.Data.Nat.Size
import Mathlib.Order.Bounds.Basic
import Mathlib.Tactic.Ring

/-!
# Where the pool allocator looks for memory

The algorithms of `genalloc.c` choose a place in the bitmap of a chunk. They are written with the
bitmap functions of the kernel, which are a parameter (`BitmapSearch`).

Whatever the algorithm, a place it returns has room and is free when nothing changes the bitmap
(`genpoolAlgo_place`), as the step of a thread that has found a place requires. `gen_pool_best_fit`
returns the first of the smallest holes that have room, and the size of the bitmap if there is none
(`genPoolBestFit_spec`). `gen_pool_first_fit_align` returns an aligned address
(`genPoolFirstFitAlign_dvd`).
-/

namespace KernelModules

/-! ## Bitmap functions of the kernel -/

/-- `find_next_bit` and `bitmap_find_next_zero_area_off`, on a bitmap of `size` bits. -/
structure BitmapSearch where
  findNextBit : (ℕ → Bool) → (size offset : ℕ) → ℕ
  bitmapFindNextZeroAreaOff : (ℕ → Bool) → (size start nr alignMask alignOffset : ℕ) → ℕ

/-- `nr` bits from `i` are inside of the bitmap and zero. -/
structure ZeroArea (map : ℕ → Bool) (size i nr : ℕ) : Prop where
  le : i + nr ≤ size
  zero : ∀ k, i ≤ k → k < i + nr → map k = false

/-- What is documented : the first bit that is set, and the first area that is aligned and zero. If
there is none, the result is not less than the size. -/
structure BitmapSearch.Documented (B : BitmapSearch) : Prop where
  nextBit_ge : ∀ map {size offset}, offset ≤ size → offset ≤ B.findNextBit map size offset
  nextBit_le : ∀ map {size offset}, offset ≤ size → B.findNextBit map size offset ≤ size
  nextBit_zero : ∀ map {size offset k}, offset ≤ k → k < B.findNextBit map size offset →
    k < size → map k = false
  nextBit_set : ∀ map {size offset}, B.findNextBit map size offset < size →
    map (B.findNextBit map size offset) = true
  area_ge : ∀ map {size start nr mask off},
    B.bitmapFindNextZeroAreaOff map size start nr mask off < size →
    start ≤ B.bitmapFindNextZeroAreaOff map size start nr mask off
  area : ∀ map {size start nr mask off},
    B.bitmapFindNextZeroAreaOff map size start nr mask off < size →
    ZeroArea map size (B.bitmapFindNextZeroAreaOff map size start nr mask off) nr
  aligned : ∀ map {size start nr mask off},
    B.bitmapFindNextZeroAreaOff map size start nr mask off < size →
    (B.bitmapFindNextZeroAreaOff map size start nr mask off + off) &&& mask = 0
  first : ∀ map {size start nr mask off i}, 0 < nr → start ≤ i → (i + off) &&& mask = 0 →
    ZeroArea map size i nr → B.bitmapFindNextZeroAreaOff map size start nr mask off ≤ i

section Algorithms

variable (B : BitmapSearch) (map : ℕ → Bool) (size start nr : ℕ)

/-- `bitmap_find_next_zero_area` -/
def bitmapFindNextZeroArea (alignMask : ℕ) : ℕ :=
  B.bitmapFindNextZeroAreaOff map size start nr alignMask 0

/-- `gen_pool_first_fit` -/
def genPoolFirstFit : ℕ :=
  bitmapFindNextZeroArea B map size start nr 0

/-- `gen_pool_first_fit_align`, for an alignment of `align` bytes. -/
def genPoolFirstFitAlign (order align startAddr : ℕ) : ℕ :=
  let alignMask := (align + 2 ^ order - 1) / 2 ^ order - 1
  let alignOff := (startAddr &&& (align - 1)) / 2 ^ order
  B.bitmapFindNextZeroAreaOff map size start nr alignMask alignOff

/-- `gen_pool_fixed_alloc`, for the place `offset` bytes into the chunk. -/
def genPoolFixedAlloc (order offset : ℕ) : ℕ :=
  let offsetBit := offset / 2 ^ order
  if offset &&& (2 ^ order - 1) ≠ 0 then size
  else
    let startBit := bitmapFindNextZeroArea B map size (start + offsetBit) nr 0
    if startBit ≠ offsetBit then size else startBit

/-- `roundup_pow_of_two` of the kernel. -/
def roundupPowOfTwo (n : ℕ) : ℕ :=
  2 ^ (n - 1).size

/-- `gen_pool_first_fit_order_align` -/
def genPoolFirstFitOrderAlign : ℕ :=
  bitmapFindNextZeroArea B map size start nr (roundupPowOfTwo nr - 1)

/-- The loop of `gen_pool_best_fit`. Every iteration goes beyond the bit it starts at, so `fuel` is
at most the number of bits that are left. -/
def bestFitLoop : (fuel index startBit len : ℕ) → ℕ
  | 0, _, startBit, _ => startBit
  | fuel + 1, index, startBit, len =>
    if index < size then
      let nextBit := B.findNextBit map size (index + nr)
      let next := bitmapFindNextZeroArea B map size (nextBit + 1) nr 0
      if nextBit - index < len then
        if nextBit - index = nr then index
        else bestFitLoop fuel next index (nextBit - index)
      else bestFitLoop fuel next startBit len
    else startBit

/-- `gen_pool_best_fit` -/
def genPoolBestFit : ℕ :=
  bestFitLoop B map size nr size (bitmapFindNextZeroArea B map size start nr 0) size (size + 1)

/-- The algorithms, with the data that is passed to them. -/
inductive GenpoolAlgo where
  | firstFit
  | firstFitAlign (align : ℕ)
  | fixedAlloc (offset : ℕ)
  | firstFitOrderAlign
  | bestFit
deriving DecidableEq, Repr

/-- `algo(chunk->bits, end_bit, start_bit, nbits, data, pool, chunk->start_addr)` -/
def GenpoolAlgo.find (algo : GenpoolAlgo) (order startAddr : ℕ) : ℕ :=
  match algo with
  | .firstFit => genPoolFirstFit B map size start nr
  | .firstFitAlign align => genPoolFirstFitAlign B map size start nr order align startAddr
  | .fixedAlloc offset => genPoolFixedAlloc B map size start nr order offset
  | .firstFitOrderAlign => genPoolFirstFitOrderAlign B map size start nr
  | .bestFit => genPoolBestFit B map size start nr

end Algorithms

/-! ## The smallest hole -/

variable {B : BitmapSearch} {map : ℕ → Bool} {size start nr : ℕ}

/-- `len` zero bits from `i`, as many as there are. The bits before `start` do not count. -/
structure Hole (map : ℕ → Bool) (size start i len : ℕ) : Prop where
  ge : start ≤ i
  area : ZeroArea map size i len
  before : i = start ∨ map (i - 1) = true
  after : i + len = size ∨ map (i + len) = true

theorem Hole.len_unique {i len len' : ℕ} (h : Hole map size start i len)
    (h' : Hole map size start i len') : len = len' := by
  have hle := h.area.le
  have hle' := h'.area.le
  by_contra hne
  rcases Nat.lt_or_gt_of_ne hne with hlt | hlt
  · have hset := h.after.resolve_left (by omega)
    rw [h'.area.zero _ (by omega) (by omega)] at hset
    cases hset
  · have hset := h'.after.resolve_left (by omega)
    rw [h.area.zero _ (by omega) (by omega)] at hset
    cases hset

/-- The best of the holes with room that start before `past` : none of them is smaller, and those of
its size come later. -/
structure BestHole (map : ℕ → Bool) (size start nr past i len : ℕ) : Prop where
  hole : Hole map size start i len
  room : nr ≤ len
  lt : i < past
  least : ∀ i' len', Hole map size start i' len' → nr ≤ len' → i' < past →
    len < len' ∨ len = len' ∧ i ≤ i'

/-- What `gen_pool_best_fit` has found when it looks for holes from `past` on. -/
def BestSoFar (map : ℕ → Bool) (size start nr past startBit len : ℕ) : Prop :=
  (startBit = size ∧ len = size + 1 ∧
    ∀ i' len', Hole map size start i' len' → nr ≤ len' → past ≤ i') ∨
  BestHole map size start nr past startBit len

/-- The hole from `index` to `nextBit` is the first one with room from `past` on. -/
structure FirstHole (map : ℕ → Bool) (size start nr past index nextBit : ℕ) : Prop where
  hole : Hole map size start index (nextBit - index)
  room : index + nr ≤ nextBit
  nextBit_le : nextBit ≤ size
  past_le : past ≤ index
  only : ∀ i' len', Hole map size start i' len' → nr ≤ len' → past ≤ i' → i' ≤ nextBit → i' = index

theorem ZeroArea.mono {i len : ℕ} (h : ZeroArea map size i len) (hle : nr ≤ len) :
    ZeroArea map size i nr :=
  ⟨(Nat.add_le_add_left hle i).trans h.le, fun k hik hk => h.zero k hik (by omega)⟩

/-- The kernel's functions find the first hole with room. -/
theorem firstHole (hB : B.Documented) (hnr : 0 < nr) {past : ℕ} (hstart : start ≤ past)
    (hpast : past = start ∨ map (past - 1) = true) {index : ℕ}
    (hindex : bitmapFindNextZeroArea B map size past nr 0 = index) (hlt : index < size) :
    FirstHole map size start nr past index (B.findNextBit map size (index + nr)) := by
  subst hindex
  have harea := hB.area map hlt
  have hge := hB.area_ge map hlt
  have hfirst : ∀ {i}, past ≤ i → ZeroArea map size i nr →
      bitmapFindNextZeroArea B map size past nr 0 ≤ i := fun hi ha =>
    hB.first map hnr hi (Nat.and_zero _) ha
  change ZeroArea map size (bitmapFindNextZeroArea B map size past nr 0) nr at harea
  change past ≤ bitmapFindNextZeroArea B map size past nr 0 at hge
  generalize bitmapFindNextZeroArea B map size past nr 0 = index at *
  have hnext := hB.nextBit_ge map harea.le
  have hnextle := hB.nextBit_le map harea.le
  have hset : B.findNextBit map size (index + nr) < size →
      map (B.findNextBit map size (index + nr)) = true := hB.nextBit_set map
  have hzero : ∀ k, index ≤ k → k < B.findNextBit map size (index + nr) → map k = false := by
    intro k hk hlt
    by_cases hin : k < index + nr
    · exact harea.zero k hk hin
    · exact hB.nextBit_zero map (by omega) hlt (by omega)
  generalize B.findNextBit map size (index + nr) = nextBit at *
  refine ⟨⟨hstart.trans hge, ⟨by omega, fun k hk hlt => hzero k hk (by omega)⟩, ?_, ?_⟩, hnext,
    hnextle, hge, ?_⟩
  · -- a zero bit before the area would belong to it
    by_contra hno
    rw [not_or, Bool.not_eq_true] at hno
    obtain ⟨hne, hbefore⟩ := hno
    have hgt : past < index := by
      refine lt_of_le_of_ne hge fun heq => ?_
      subst heq
      rcases hpast with hpast | hpast
      · exact hne hpast
      · rw [hpast] at hbefore
        cases hbefore
    have hle := harea.le
    have hprev := hfirst (i := index - 1) (by omega) ⟨by omega, fun k hk hlt => ?_⟩
    · omega
    · by_cases hk : k = index - 1
      · rw [hk]
        exact hbefore
      · exact harea.zero k (by omega) (by omega)
  · rw [show index + (nextBit - index) = nextBit by omega]
    rcases Nat.lt_or_ge nextBit size with hlt | hle
    · exact Or.inr (hset hlt)
    · exact Or.inl (by omega)
  · intro i' len' hhole hroom hge' hle'
    have hfirst' := hfirst hge' (hhole.area.mono hroom)
    by_contra hne
    rcases hhole.before with heq | hbefore
    · omega
    · rw [hzero (i' - 1) (by omega) (by omega)] at hbefore
      cases hbefore

/-- After the first hole with room, it or what was found before is the best. -/
theorem BestSoFar.next {past startBit len index nextBit : ℕ}
    (h : BestSoFar map size start nr past startBit len)
    (hf : FirstHole map size start nr past index nextBit) :
    if nextBit - index < len then BestHole map size start nr (nextBit + 1) index (nextBit - index)
    else BestHole map size start nr (nextBit + 1) startBit len := by
  have hroom := hf.room
  have hle := hf.nextBit_le
  have hnew : ∀ i' len', Hole map size start i' len' → nr ≤ len' → past ≤ i' → i' < nextBit + 1 →
      i' = index ∧ len' = nextBit - index := by
    intro i' len' hhole hroom' hpast hi'
    obtain rfl := hf.only i' len' hhole hroom' hpast (by omega)
    exact ⟨rfl, hhole.len_unique hf.hole⟩
  split
  · next hlt =>
    refine ⟨hf.hole, by omega, by omega, fun i' len' hhole hroom' hi' => ?_⟩
    rcases Nat.lt_or_ge i' past with hpast | hpast
    · rcases h with ⟨-, -, hnone⟩ | h
      · have := hnone i' len' hhole hroom'
        omega
      · have := h.least i' len' hhole hroom' hpast
        omega
    · obtain ⟨rfl, rfl⟩ := hnew i' len' hhole hroom' hpast hi'
      exact Or.inr ⟨rfl, le_rfl⟩
  · next hge =>
    rcases h with ⟨-, rfl, -⟩ | h
    · omega
    have hpast := hf.past_le
    have hlt := h.lt
    refine ⟨h.hole, h.room, by omega, fun i' len' hhole hroom' hi' => ?_⟩
    rcases Nat.lt_or_ge i' past with hpast | hpast
    · exact h.least i' len' hhole hroom' hpast
    · obtain ⟨rfl, rfl⟩ := hnew i' len' hhole hroom' hpast hi'
      omega

/-- If the kernel's functions find nothing, there is no hole with room left. -/
theorem Hole.lt_of_area_ge (hB : B.Documented) (hnr : 0 < nr) {past i len : ℕ}
    (h : Hole map size start i len) (hroom : nr ≤ len)
    (hge : size ≤ bitmapFindNextZeroArea B map size past nr 0) : i < past := by
  by_contra hno
  have hfirst := hB.first map hnr (Nat.le_of_not_lt hno) (Nat.and_zero (i + 0)) (h.area.mono hroom)
  have hle := h.area.le
  unfold bitmapFindNextZeroArea at hge
  omega

/-- When no hole with room is left, what was found is the best. -/
theorem BestSoFar.finish (hnr : 0 < nr) {past startBit len : ℕ}
    (h : BestSoFar map size start nr past startBit len)
    (hall : ∀ i' len', Hole map size start i' len' → nr ≤ len' → i' < past) :
    BestSoFar map size start nr size startBit len := by
  rcases h with ⟨rfl, rfl, hnone⟩ | h
  · refine Or.inl ⟨rfl, rfl, fun i' len' hhole hroom => ?_⟩
    have := hall i' len' hhole hroom
    have := hnone i' len' hhole hroom
    omega
  · have hle := h.hole.area.le
    have hroom := h.room
    exact Or.inr ⟨h.hole, h.room, by omega, fun i' len' hhole hroom _ =>
      h.least i' len' hhole hroom (hall i' len' hhole hroom)⟩

/-- `gen_pool_best_fit` from the hole at `index` on. -/
theorem bestFitLoop_spec (hB : B.Documented) (hnr : 0 < nr) :
    ∀ (fuel : ℕ) {past index startBit len : ℕ},
      bitmapFindNextZeroArea B map size past nr 0 = index → start ≤ past →
      (past = start ∨ map (past - 1) = true ∨ size < past) → size ≤ past + fuel →
      BestSoFar map size start nr past startBit len →
      ∃ best, BestSoFar map size start nr size (bestFitLoop B map size nr fuel index startBit len) best
  | 0, past, index, startBit, len, _, _, _, hfuel, h => by
    refine ⟨len, h.finish hnr fun i' len' hhole hroom => ?_⟩
    have hle := hhole.area.le
    omega
  | fuel + 1, past, index, startBit, len, hindex, hstart, hpast, hfuel, h => by
    rw [bestFitLoop]
    split
    · next hlt =>
      have hge : past ≤ index := by
        subst hindex
        exact hB.area_ge map hlt
      have hf := firstHole hB hnr hstart (by
        rcases hpast with hpast | hpast | hpast
        · exact Or.inl hpast
        · exact Or.inr hpast
        · omega) hindex hlt
      have hnext := h.next hf
      have hpast' : B.findNextBit map size (index + nr) + 1 = start ∨
          map (B.findNextBit map size (index + nr) + 1 - 1) = true ∨
          size < B.findNextBit map size (index + nr) + 1 := by
        rcases Nat.lt_or_ge (B.findNextBit map size (index + nr)) size with hlt | hle
        · exact Or.inr (Or.inl (hB.nextBit_set map hlt))
        · exact Or.inr (Or.inr (by omega))
      have hroom := hf.room
      have hle := hf.nextBit_le
      dsimp only
      split
      · next hshort =>
        rw [if_pos hshort] at hnext
        split
        · next heq =>
          -- the hole has just the size
          rw [heq] at hnext
          refine ⟨nr, Or.inr ⟨hnext.hole, le_rfl, hlt, fun i' len' hhole hroom' _ => ?_⟩⟩
          rcases Nat.lt_or_ge i' (B.findNextBit map size (index + nr) + 1) with hi' | hi'
          · exact hnext.least i' len' hhole hroom' hi'
          · omega
        · exact bestFitLoop_spec hB hnr fuel rfl (by omega) hpast' (by omega) (Or.inr hnext)
      · next hlong =>
        rw [if_neg hlong] at hnext
        exact bestFitLoop_spec hB hnr fuel rfl (by omega) hpast' (by omega) (Or.inr hnext)
    · next hge =>
      exact ⟨len, h.finish hnr fun i' len' hhole hroom =>
        hhole.lt_of_area_ge hB hnr hroom (by rw [hindex]; omega)⟩

theorem genPoolBestFit_soFar (hB : B.Documented) (hnr : 0 < nr) :
    ∃ len, BestSoFar map size start nr size (genPoolBestFit B map size start nr) len := by
  have hstart : BestSoFar map size start nr start size (size + 1) :=
    Or.inl ⟨rfl, rfl, fun i' len' hhole _ => hhole.ge⟩
  exact bestFitLoop_spec hB hnr size rfl le_rfl (Or.inl rfl) (by omega) hstart

/-- `gen_pool_best_fit` returns the first of the smallest holes that have room. If it returns the
size, no place has room. -/
theorem genPoolBestFit_spec (B : BitmapSearch) (hB : B.Documented) (map : ℕ → Bool)
    (size start nr : ℕ) (hnr : 0 < nr) :
    (genPoolBestFit B map size start nr = size ∧ ∀ i, start ≤ i → ¬ ZeroArea map size i nr) ∨
      ∃ len, BestHole map size start nr size (genPoolBestFit B map size start nr) len := by
  obtain ⟨len, h⟩ := genPoolBestFit_soFar hB hnr
  rcases h with ⟨heq, -, hnone⟩ | h
  · refine Or.inl ⟨heq, fun i hi harea => ?_⟩
    have hle := harea.le
    have hfirst := hB.first map hnr hi (Nat.and_zero (i + 0)) harea
    have hlt : bitmapFindNextZeroArea B map size start nr 0 < size := by
      unfold bitmapFindNextZeroArea
      omega
    have hf := firstHole hB hnr le_rfl (Or.inl rfl) rfl hlt
    have hroom := hf.room
    have := hnone _ _ hf.hole (by omega)
    omega
  · exact Or.inr ⟨len, h⟩

/-! ## Alignment -/

theorem dvd_of_and_mask {x m : ℕ} (h : x &&& (2 ^ m - 1) = 0) : 2 ^ m ∣ x := by
  rw [Nat.and_two_pow_sub_one_eq_mod] at h
  exact Nat.dvd_of_mod_eq_zero h

/-- An address found by `gen_pool_first_fit_align` is aligned, in a chunk that starts at a multiple
of the smallest allocation. -/
theorem genPoolFirstFitAlign_dvd (hB : B.Documented) {order k startAddr : ℕ}
    (hstart : 2 ^ order ∣ startAddr)
    (hlt : genPoolFirstFitAlign B map size start nr order (2 ^ k) startAddr < size) :
    2 ^ k ∣ startAddr +
      genPoolFirstFitAlign B map size start nr order (2 ^ k) startAddr * 2 ^ order := by
  have haligned := hB.aligned map hlt
  change (genPoolFirstFitAlign B map size start nr order (2 ^ k) startAddr +
    (startAddr &&& (2 ^ k - 1)) / 2 ^ order) &&& ((2 ^ k + 2 ^ order - 1) / 2 ^ order - 1) = 0
    at haligned
  generalize genPoolFirstFitAlign B map size start nr order (2 ^ k) startAddr = r at *
  have hpow : 0 < 2 ^ order := Nat.two_pow_pos _
  rcases Nat.lt_or_ge k order with hk | hk
  · exact Nat.dvd_add ((Nat.pow_dvd_pow 2 hk.le).trans hstart)
      (Dvd.dvd.mul_left (Nat.pow_dvd_pow 2 hk.le) r)
  · obtain ⟨d, rfl⟩ := Nat.exists_eq_add_of_le hk
    have hmask : (2 ^ (order + d) + 2 ^ order - 1) / 2 ^ order - 1 = 2 ^ d - 1 := by
      rw [show 2 ^ (order + d) + 2 ^ order - 1 = (2 ^ order - 1) + 2 ^ order * 2 ^ d by
        rw [pow_add]
        omega, Nat.add_mul_div_left _ _ hpow, Nat.div_eq_of_lt (by omega), zero_add]
    rw [hmask, Nat.and_two_pow_sub_one_eq_mod startAddr] at haligned
    have hdvd := Nat.mul_dvd_mul_right (dvd_of_and_mask haligned) (2 ^ order)
    -- the offset is the part of the start that is not aligned
    have hmod : 2 ^ order ∣ startAddr % 2 ^ (order + d) :=
      (Nat.dvd_mod_iff (Nat.pow_dvd_pow 2 (Nat.le_add_right _ _))).2 hstart
    rw [add_mul, Nat.div_mul_cancel hmod, ← pow_add, Nat.add_comm d order] at hdvd
    have hsplit : startAddr + r * 2 ^ order =
        (r * 2 ^ order + startAddr % 2 ^ (order + d)) +
          2 ^ (order + d) * (startAddr / 2 ^ (order + d)) := by
      have := Nat.mod_add_div startAddr (2 ^ (order + d))
      omega
    rw [hsplit]
    exact Nat.dvd_add hdvd (Nat.dvd_mul_right _ _)

/-! ## All algorithms -/

/-- What an algorithm promises of the place it returns. -/
def GenpoolAlgo.Promise (algo : GenpoolAlgo) (map : ℕ → Bool) (size start nr order startAddr r : ℕ) :
    Prop :=
  match algo with
  | .firstFit => ∀ i, start ≤ i → ZeroArea map size i nr → r ≤ i
  | .firstFitAlign align => align ∣ startAddr + r * 2 ^ order
  | .fixedAlloc offset => r * 2 ^ order = offset
  | .firstFitOrderAlign => roundupPowOfTwo nr ∣ r
  | .bestFit => ∃ len, BestHole map size start nr size r len

theorem genPoolFixedAlloc_lt {order offset : ℕ}
    (hlt : genPoolFixedAlloc B map size start nr order offset < size) :
    genPoolFixedAlloc B map size start nr order offset * 2 ^ order = offset ∧
      genPoolFixedAlloc B map size start nr order offset =
        bitmapFindNextZeroArea B map size (start + offset / 2 ^ order) nr 0 := by
  unfold genPoolFixedAlloc at *
  dsimp only at *
  split at hlt
  · exact absurd hlt (lt_irrefl _)
  next hoff =>
  rw [if_neg hoff]
  split at hlt
  · exact absurd hlt (lt_irrefl _)
  next hbit =>
  rw [if_neg hbit]
  have hdvd := dvd_of_and_mask (not_not.1 hoff)
  exact ⟨by rw [not_not.1 hbit, Nat.div_mul_cancel hdvd], rfl⟩

theorem genPoolBestFit_hole (hB : B.Documented) (hnr : 0 < nr)
    (hlt : genPoolBestFit B map size start nr < size) :
    ∃ len, BestHole map size start nr size (genPoolBestFit B map size start nr) len := by
  obtain ⟨len, ⟨heq, -, -⟩ | h⟩ := genPoolBestFit_soFar (B := B) hB hnr
  · exact absurd heq hlt.ne
  · exact ⟨len, h⟩

/-- A place that an algorithm returns has room and is free. -/
theorem BitmapSearch.Documented.find_area (hB : B.Documented) (algo : GenpoolAlgo)
    {order startAddr : ℕ} (hnr : 0 < nr)
    (hlt : algo.find B map size start nr order startAddr < size) :
    ZeroArea map size (algo.find B map size start nr order startAddr) nr := by
  cases algo with
  | firstFit => exact hB.area map hlt
  | firstFitAlign align => exact hB.area map hlt
  | fixedAlloc offset =>
    have heq := (genPoolFixedAlloc_lt hlt).2
    rw [GenpoolAlgo.find, heq] at hlt ⊢
    exact hB.area map hlt
  | firstFitOrderAlign => exact hB.area map hlt
  | bestFit =>
    obtain ⟨len, h⟩ := genPoolBestFit_hole hB hnr hlt
    exact h.hole.area.mono h.room

/-- A place that an algorithm returns has room, is free, and is what the algorithm promises. -/
theorem genpoolAlgo_place (B : BitmapSearch) (hB : B.Documented) (algo : GenpoolAlgo)
    (map : ℕ → Bool) (size start nr order startAddr : ℕ) (hnr : 0 < nr)
    (halign : ∀ align, algo = .firstFitAlign align →
      (∃ k, align = 2 ^ k) ∧ 2 ^ order ∣ startAddr)
    (hlt : algo.find B map size start nr order startAddr < size) :
    ZeroArea map size (algo.find B map size start nr order startAddr) nr ∧
      algo.Promise map size start nr order startAddr
        (algo.find B map size start nr order startAddr) := by
  refine ⟨hB.find_area algo hnr hlt, ?_⟩
  cases algo with
  | firstFit => exact fun i hi harea => hB.first map hnr hi (Nat.and_zero _) harea
  | firstFitAlign align =>
    obtain ⟨⟨k, rfl⟩, hstart⟩ := halign align rfl
    exact genPoolFirstFitAlign_dvd hB hstart hlt
  | fixedAlloc offset => exact (genPoolFixedAlloc_lt hlt).1
  | firstFitOrderAlign => exact dvd_of_and_mask (hB.aligned map hlt)
  | bestFit => exact genPoolBestFit_hole hB hnr hlt

/-- A thread that searches with one of the algorithms can take the step in which it has found a
place. -/
theorem genPoolFound_isSome {τ : Type} [DecidableEq τ] (hB : B.Documented) (algo : GenpoolAlgo)
    {s : PoolState τ} {t : τ} {order bytes startBit : ℕ} {c : GenPoolChunk}
    {rest : List GenPoolChunk} (hpc : s.pc t = .search bytes c rest startBit)
    (hnr : 0 < nbitsOf order bytes % 2 ^ 32) :
    (genPoolFound order t (algo.find B
      (fun i => (s.bits c.addr (i / 64)).getLsbD (i % 64)) (endBit order c) startBit
      (nbitsOf order bytes % 2 ^ 32) order c.startAddr) s).isSome := by
  rw [genPoolFound, hpc]
  dsimp only
  rw [if_pos fun hlt => (hB.find_area algo hnr hlt).le]
  rfl

/-! ## A bitmap search -/

/-- The first number from `start` to `stop` that has the property, or `stop`. -/
def scan (p : ℕ → Bool) (start stop : ℕ) : ℕ :=
  ((List.range' start (stop - start)).find? p).getD stop

theorem scan_lt {p : ℕ → Bool} {start stop : ℕ} (h : scan p start stop < stop) :
    start ≤ scan p start stop ∧ p (scan p start stop) = true := by
  unfold scan at h ⊢
  cases hfind : (List.range' start (stop - start)).find? p with
  | none =>
    rw [hfind] at h
    exact absurd h (lt_irrefl _)
  | some i =>
    obtain ⟨hi, hmem, -⟩ := List.find?_range'_eq_some.1 hfind
    exact ⟨(List.mem_range'_1.1 hmem).1, hi⟩

theorem scan_le {p : ℕ → Bool} {start stop i : ℕ} (hi : start ≤ i) (hp : p i = true)
    (hlt : i < stop) : scan p start stop ≤ i := by
  unfold scan
  cases hfind : (List.range' start (stop - start)).find? p with
  | none =>
    have hno := List.find?_range'_eq_none.1 hfind i hi (by omega)
    rw [hp] at hno
    cases hno
  | some k =>
    obtain ⟨-, -, hbefore⟩ := List.find?_range'_eq_some.1 hfind
    by_contra hlt
    have hno := hbefore i hi (Nat.lt_of_not_le hlt)
    rw [hp] at hno
    cases hno

theorem scan_mem {p : ℕ → Bool} {start stop : ℕ} (h : start ≤ stop) :
    start ≤ scan p start stop ∧ scan p start stop ≤ stop := by
  unfold scan
  cases hfind : (List.range' start (stop - start)).find? p with
  | none => exact ⟨h, le_rfl⟩
  | some k =>
    obtain ⟨-, hmem, -⟩ := List.find?_range'_eq_some.1 hfind
    have := List.mem_range'_1.1 hmem
    dsimp only [Option.getD]
    omega

/-- Search bit by bit. -/
def scanBits : BitmapSearch where
  findNextBit map size offset := scan map offset size
  bitmapFindNextZeroAreaOff map size start nr alignMask alignOffset :=
    scan (fun i => (i + alignOffset) &&& alignMask == 0 && decide (i + nr ≤ size) &&
      (List.range' i nr).all fun k => !map k) start size

theorem scanBits_documented : scanBits.Documented := by
  have harea : ∀ {map : ℕ → Bool} {size nr mask off i : ℕ},
      ((i + off) &&& mask == 0 && decide (i + nr ≤ size) && (List.range' i nr).all fun k => !map k) =
        true ↔ (i + off) &&& mask = 0 ∧ ZeroArea map size i nr := by
    intro map size nr mask off i
    simp only [Bool.and_eq_true, beq_iff_eq, decide_eq_true_eq, List.all_eq_true,
      List.mem_range'_1, Bool.not_eq_true', and_assoc, and_imp]
    exact and_congr_right fun _ => ⟨fun h => ⟨h.1, h.2⟩, fun h => ⟨h.le, h.zero⟩⟩
  constructor
  · exact fun map _ _ h => (scan_mem h).1
  · exact fun map _ _ h => (scan_mem h).2
  · intro map size offset k hk hlt hsize
    by_contra hset
    rw [Bool.not_eq_false] at hset
    exact absurd hlt (Nat.not_lt.2 (scan_le hk hset hsize))
  · exact fun map _ _ h => (scan_lt h).2
  · exact fun map _ _ _ _ _ h => (scan_lt h).1
  · exact fun map _ _ _ _ _ h => (harea.1 (scan_lt h).2).2
  · exact fun map _ _ _ _ _ h => (harea.1 (scan_lt h).2).1
  · intro map size start nr mask off i hnr hi ha harea'
    have hle := harea'.le
    exact scan_le hi (harea.2 ⟨ha, harea'⟩) (by omega)

/-- Holes of 3, 2 and 4 bits : the second one is the best for 2 bits. -/
def holes : ℕ → Bool :=
  fun i => i == 3 || i == 6 || 11 ≤ i

theorem genPoolBestFit_holes : genPoolBestFit scanBits holes 16 0 2 = 4 ∧
    ((genPoolBestFit scanBits holes 16 0 2 = 16 ∧ ∀ i, 0 ≤ i → ¬ ZeroArea holes 16 i 2) ∨
      ∃ len, BestHole holes 16 0 2 16 (genPoolBestFit scanBits holes 16 0 2) len) :=
  ⟨by decide, genPoolBestFit_spec scanBits scanBits_documented holes 16 0 2 (by decide)⟩

/-- 64 bytes in a chunk of 16-byte units at 4112 : the first aligned address is 4160. -/
theorem genpoolAlgo_place_holes :
    (GenpoolAlgo.firstFitAlign 64).find scanBits (fun _ => false) 16 0 2 4 4112 = 3 ∧
      ZeroArea (fun _ => false) 16 3 2 ∧ 64 ∣ 4112 + 3 * 2 ^ 4 := by
  have h := genpoolAlgo_place scanBits scanBits_documented (.firstFitAlign 64) (fun _ => false)
    16 0 2 4 4112 (by decide) (fun align heq => by
      cases heq
      exact ⟨⟨6, rfl⟩, by decide⟩) (by decide)
  exact ⟨by decide, h⟩

end KernelModules
