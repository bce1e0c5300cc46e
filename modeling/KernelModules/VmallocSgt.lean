import KernelModules.VirtioGpuQueue
import Mathlib.Data.Finset.Card
import Mathlib.Order.Interval.Finset.Nat

/-!
# The data of a command

`vmalloc_to_sgt` makes a scatterlist of a buffer that need not start at a page. It takes the
number of entries from the offset in the first page and the size, and then goes through the
entries, each to the end of a page or of the buffer.

The two agree (`vmallocToSgt_covers`) : the table covers the buffer, with one entry for each page
the buffer touches.
-/

namespace KernelModules

/-- The pages the `size` bytes from `data` on are in. -/
def pagesTouched (data size : ℕ) : Finset ℕ :=
  (Finset.range size).image fun j => (data + j) % 2 ^ 64 / PAGE_SIZE

/-- At an address where the buffer enters a page, that page is not found. -/
def PageMissing (mem : GpuMemory) (data size : ℕ) : Prop :=
  ∃ j < size, (j = 0 ∨ PAGE_SIZE ∣ data + j) ∧ mem.vmallocToPage ((data + j) % 2 ^ 64) = none

/-- Where an entry starts, from the start of the buffer. -/
def entryStart (chain : List Scatterlist) (k : ℕ) : ℕ :=
  ((chain.take k).map Scatterlist.length).sum

/-- An entry for the bytes from `data` on : it is not empty, and lies in the page they are in. -/
structure EntryFor (mem : GpuMemory) (data : ℕ) (e : Scatterlist) : Prop where
  pos : 0 < e.length
  le : data % PAGE_SIZE + e.length ≤ PAGE_SIZE
  page : ∃ pg, mem.vmallocToPage (data % 2 ^ 64) = some pg ∧ e.phys = pg + data % PAGE_SIZE

/-- The entries are for the bytes from `data` on, one after the other, `size` bytes in all. -/
structure Covers (mem : GpuMemory) (data size : ℕ) (chain : List Scatterlist) : Prop where
  entry : ∀ k e, chain[k]? = some e → EntryFor mem (data + entryStart chain k) e
  sum : (chain.map Scatterlist.length).sum = size

/-! ## Entries and bytes -/

theorem entryStart_succ_cons (e : Scatterlist) (chain : List Scatterlist) (k : ℕ) :
    entryStart (e :: chain) (k + 1) = e.length + entryStart chain k := by
  simp [entryStart]

/-- The byte `j` of the buffer is in entry `k`. -/
def InEntry (chain : List Scatterlist) (j k : ℕ) : Prop :=
  ∃ e, chain[k]? = some e ∧ entryStart chain k ≤ j ∧ j < entryStart chain k + e.length

theorem inEntry_cons_zero {e : Scatterlist} {chain : List Scatterlist} {j : ℕ} :
    InEntry (e :: chain) j 0 ↔ j < e.length := by
  simp [InEntry, entryStart]

theorem inEntry_cons_succ {e : Scatterlist} {chain : List Scatterlist} {j k : ℕ} :
    InEntry (e :: chain) j (k + 1) ↔ e.length ≤ j ∧ InEntry chain (j - e.length) k := by
  unfold InEntry
  simp only [List.getElem?_cons_succ, entryStart_succ_cons]
  constructor
  · rintro ⟨e', he', hle, hlt⟩
    exact ⟨by omega, e', he', by omega, by omega⟩
  · rintro ⟨hj, e', he', hle, hlt⟩
    exact ⟨e', he', by omega, by omega⟩

/-- The entries leave no gap and do not overlap. -/
theorem existsUnique_inEntry : ∀ {chain : List Scatterlist} {j : ℕ},
    j < (chain.map Scatterlist.length).sum → ∃! k, InEntry chain j k
  | [], j, h => absurd h (Nat.not_lt_zero j)
  | e :: chain, j, h => by
    rw [List.map_cons, List.sum_cons] at h
    by_cases hj : j < e.length
    · refine ⟨0, inEntry_cons_zero.2 hj, fun k hk => ?_⟩
      cases k with
      | zero => rfl
      | succ k => exact absurd (inEntry_cons_succ.1 hk).1 (Nat.not_le.2 hj)
    · have hrest : j - e.length < (chain.map Scatterlist.length).sum := by omega
      obtain ⟨k, hk, huniq⟩ := existsUnique_inEntry hrest
      refine ⟨k + 1, inEntry_cons_succ.2 ⟨Nat.le_of_not_lt hj, hk⟩, fun k' hk' => ?_⟩
      cases k' with
      | zero => exact absurd (inEntry_cons_zero.1 hk') hj
      | succ k' => rw [huniq k' (inEntry_cons_succ.1 hk').2]

theorem Covers.cons {mem : GpuMemory} {data size : ℕ} {e : Scatterlist} {chain : List Scatterlist}
    (he : EntryFor mem data e) (h : Covers mem (data + e.length) size chain) :
    Covers mem data (e.length + size) (e :: chain) where
  entry
    | 0, e', h' => by
      obtain rfl := Option.some.inj h'
      exact he
    | k + 1, e', h' => by
      rw [entryStart_succ_cons, ← Nat.add_assoc]
      exact h.entry k e' h'
  sum := by
    rw [List.map_cons, List.sum_cons, h.sum]

/-! ## The loop -/

/-- The number of entries for a buffer. -/
def entriesFor (data size : ℕ) : ℕ :=
  if size = 0 then 0 else (data % PAGE_SIZE + size + (PAGE_SIZE - 1)) / PAGE_SIZE

/-- The bytes of the buffer in its first page. -/
def firstBytes (data size : ℕ) : ℕ :=
  min (PAGE_SIZE - data % PAGE_SIZE) size

section FirstPage

variable {data size : ℕ}

theorem firstBytes_pos (hpos : 0 < size) : 0 < firstBytes data size := by
  unfold firstBytes PAGE_SIZE
  omega

theorem firstBytes_le : firstBytes data size ≤ size :=
  Nat.min_le_right _ _

theorem entriesFor_pos (hpos : 0 < size) : 0 < entriesFor data size := by
  unfold entriesFor PAGE_SIZE
  rw [if_neg (by omega)]
  omega

/-- Behind the first page the buffer is at the start of a page, or at its end. -/
theorem eq_zero_or_mod_of_firstBytes :
    size - firstBytes data size = 0 ∨ (data + firstBytes data size) % PAGE_SIZE = 0 := by
  unfold firstBytes PAGE_SIZE
  omega

theorem entriesFor_firstBytes (hpos : 0 < size) : entriesFor data size =
    entriesFor (data + firstBytes data size) (size - firstBytes data size) + 1 := by
  unfold entriesFor firstBytes PAGE_SIZE
  split <;> split <;> omega

theorem pageMissing_iff (mem : GpuMemory) (hpos : 0 < size) : PageMissing mem data size ↔
    mem.vmallocToPage (data % 2 ^ 64) = none ∨
      PageMissing mem (data + firstBytes data size) (size - firstBytes data size) := by
  constructor
  · rintro ⟨j, hj, hentry, hnone⟩
    by_cases h0 : j = 0
    · subst h0
      exact Or.inl hnone
    · have hpage := hentry.resolve_left h0
      -- the next address at which the buffer enters a page is behind the first page
      have hle : firstBytes data size ≤ j := by
        unfold firstBytes PAGE_SIZE at *
        omega
      refine Or.inr ⟨j - firstBytes data size, by omega, Or.inr ?_, ?_⟩
      · rwa [Nat.add_assoc, Nat.add_sub_cancel' hle]
      · rwa [Nat.add_assoc, Nat.add_sub_cancel' hle]
  · rintro (hnone | ⟨j, hj, hentry, hnone⟩)
    · exact ⟨0, hpos, Or.inl rfl, hnone⟩
    · refine ⟨firstBytes data size + j, by omega, Or.inr ?_, by rwa [← Nat.add_assoc]⟩
      rw [← Nat.add_assoc]
      rcases hentry with rfl | hpage
      · exact Nat.dvd_of_mod_eq_zero (eq_zero_or_mod_of_firstBytes.resolve_left (by omega))
      · exact hpage

end FirstPage

/-- One entry, in numbers that do not wrap. -/
theorem fillSgt_succ (mem : GpuMemory) (n data : ℕ) {size : ℕ} (hsize : size < 2 ^ 31) :
    fillSgt mem (n + 1) (data % 2 ^ 64) (data % PAGE_SIZE) size =
      (mem.vmallocToPage (data % 2 ^ 64)).bind fun pg =>
        (fillSgt mem n ((data + firstBytes data size) % 2 ^ 64) 0
          (size - firstBytes data size)).map
            (⟨0, pg + data % PAGE_SIZE, firstBytes data size⟩ :: ·) := by
  have hs : min ((PAGE_SIZE - data % PAGE_SIZE : ℕ) : Int) (toInt32 size) =
      (firstBytes data size : ℕ) := by
    unfold toInt32 firstBytes
    rw [Nat.mod_eq_of_lt (by omega : size < 2 ^ 32), if_pos hsize]
    omega
  have hle : firstBytes data size ≤ size := firstBytes_le
  have hdata : (((data % 2 ^ 64 : ℕ) + (firstBytes data size : ℕ) : Int) % 2 ^ 64).toNat =
      (data + firstBytes data size) % 2 ^ 64 := by
    omega
  have hrest : (((size : ℕ) - (firstBytes data size : ℕ) : Int) % 2 ^ 32).toNat =
      size - firstBytes data size := by
    omega
  have hlen : (((firstBytes data size : ℕ) : Int) % 2 ^ 32).toNat = firstBytes data size := by
    omega
  rw [fillSgt]
  cases mem.vmallocToPage (data % 2 ^ 64) with
  | none => rfl
  | some pg => simp only [hs, hdata, hrest, hlen, Option.bind_some]

/-- The loop fails exactly if a page is missing, and else covers the buffer. -/
theorem fillSgt_spec (mem : GpuMemory) : ∀ (n data size offset : ℕ), size < 2 ^ 31 →
    n = entriesFor data size → (size = 0 ∨ offset = data % PAGE_SIZE) →
    (fillSgt mem n (data % 2 ^ 64) offset size = none ↔ PageMissing mem data size) ∧
      ∀ chain, fillSgt mem n (data % 2 ^ 64) offset size = some chain → Covers mem data size chain
  | 0, data, size, offset, _, hn, _ => by
    obtain rfl : size = 0 := by
      by_contra h0
      exact absurd hn (Nat.ne_of_lt (entriesFor_pos (Nat.pos_of_ne_zero h0)))
    refine ⟨by simp [fillSgt, PageMissing], fun chain hchain => ?_⟩
    obtain rfl := Option.some.inj hchain
    exact ⟨by simp, rfl⟩
  | n + 1, data, size, offset, hsize, hn, hoff => by
    have hpos : 0 < size := by
      refine Nat.pos_of_ne_zero fun h0 => ?_
      simp [entriesFor, h0] at hn
    obtain rfl := hoff.resolve_left (Nat.ne_of_gt hpos)
    have hle : firstBytes data size ≤ size := firstBytes_le
    have hn' := Nat.succ.inj (hn.trans (entriesFor_firstBytes hpos))
    obtain ⟨hnone, hsome⟩ := fillSgt_spec mem n (data + firstBytes data size)
      (size - firstBytes data size) 0 (by omega) hn'
      (eq_zero_or_mod_of_firstBytes.imp_right Eq.symm)
    rw [fillSgt_succ mem n data hsize, pageMissing_iff mem hpos, ← hnone]
    refine ⟨?_, fun chain hchain => ?_⟩
    · cases mem.vmallocToPage (data % 2 ^ 64) <;> simp
    · obtain ⟨pg, hpg, hrest⟩ := Option.bind_eq_some_iff.1 hchain
      obtain ⟨rest, hfill, rfl⟩ := Option.map_eq_some_iff.1 hrest
      have hcovers := (hsome rest hfill).cons
        (e := ⟨0, pg + data % PAGE_SIZE, firstBytes data size⟩)
        ⟨firstBytes_pos hpos, ?_, pg, hpg, rfl⟩
      · rwa [Nat.add_sub_cancel' hle] at hcovers
      · have : firstBytes data size ≤ PAGE_SIZE - data % PAGE_SIZE := Nat.min_le_left _ _
        have := Nat.mod_lt data (show 0 < PAGE_SIZE by decide)
        dsimp only
        omega

/-! ## Pages -/

theorem sgEnts_eq_entriesFor {data size : ℕ} (hpos : 1 ≤ size) (hsize : size < 2 ^ 31) :
    sgEnts data size = entriesFor data size := by
  have hoff := Nat.mod_lt data (show 0 < PAGE_SIZE by decide)
  unfold sgEnts entriesFor PAGE_SIZE at *
  rw [if_neg (by omega), Nat.mod_eq_of_lt (by omega : data % 4096 + size < 2 ^ 32),
    Nat.mod_eq_of_lt (by omega)]

/-- The pages of a buffer follow each other. -/
theorem pagesTouched_eq {data size : ℕ} (hpos : 1 ≤ size) : pagesTouched data size =
    (Finset.range (entriesFor data size)).image fun k => (data / PAGE_SIZE + k) % 2 ^ 52 := by
  ext q
  unfold pagesTouched entriesFor PAGE_SIZE
  rw [if_neg (by omega)]
  simp only [Finset.mem_image, Finset.mem_range]
  constructor
  · rintro ⟨j, hj, rfl⟩
    exact ⟨(data + j) / 4096 - data / 4096, by omega, by omega⟩
  · rintro ⟨k, hk, rfl⟩
    by_cases h0 : k = 0
    · exact ⟨0, hpos, by omega⟩
    · exact ⟨(data / 4096 + k) * 4096 - data, by omega, by omega⟩

theorem card_pagesTouched {data size : ℕ} (hpos : 1 ≤ size) (hsize : size < 2 ^ 31) :
    (pagesTouched data size).card = entriesFor data size := by
  have hle : entriesFor data size < 2 ^ 52 := by
    unfold entriesFor PAGE_SIZE
    rw [if_neg (by omega)]
    omega
  rw [pagesTouched_eq hpos, Finset.card_image_of_injOn, Finset.card_range]
  intro k hk k' hk' heq
  have hk := Finset.mem_range.1 (Finset.mem_coe.1 hk)
  have hk' := Finset.mem_range.1 (Finset.mem_coe.1 hk')
  dsimp only at heq
  omega

/-- `vmalloc_to_sgt` returns NULL exactly if an allocation fails or a page is missing. Else the
entries of its table cover the buffer, and their number is the number of pages the buffer
touches. -/
theorem vmallocToSgt_covers (mem : GpuMemory) {data size : ℕ} (hdata : data < 2 ^ 64)
    (hpos : 1 ≤ size) (hsize : size < 2 ^ 31) :
    (vmallocToSgt mem data size = none ↔ mem.kmallocOk = false ∨
      mem.sgAllocTable (pagesTouched data size).card ≠ 0 ∨ PageMissing mem data size) ∧
    ∀ n chain, vmallocToSgt mem data size = some (n, chain) →
      Covers mem data size chain ∧ (∀ j < size, ∃! k, InEntry chain j k) ∧
        n = chain.length ∧ n = (pagesTouched data size).card := by
  rw [card_pagesTouched hpos hsize, ← sgEnts_eq_entriesFor hpos hsize]
  obtain ⟨hnone, hsome⟩ := fillSgt_spec mem (sgEnts data size) data size (data % PAGE_SIZE) hsize
    (sgEnts_eq_entriesFor hpos hsize) (Or.inr rfl)
  rw [Nat.mod_eq_of_lt hdata] at hnone hsome
  refine ⟨?_, fun n chain h => ?_⟩
  · unfold vmallocToSgt
    split
    · next hk => simp [hk]
    · next hk =>
      split
      · next ht => simp [ht]
      · next ht => simp [hk, ht, ← hnone]
  · obtain ⟨hn, hlen⟩ := vmallocToSgt_eq_some h
    have hfill : fillSgt mem (sgEnts data size) data (data % PAGE_SIZE) size = some chain := by
      unfold vmallocToSgt at h
      split at h
      · simp at h
      split at h
      · simp at h
      · obtain ⟨chain', hchain, he⟩ := Option.map_eq_some_iff.1 h
        obtain ⟨-, rfl⟩ := Prod.mk.inj he
        exact hchain
    have hcovers := hsome chain hfill
    exact ⟨hcovers, fun j hj => existsUnique_inEntry (hcovers.sum.symm ▸ hj),
      hn.trans hlen.symm, hn⟩

/-- Four 16-byte entries across a page boundary. -/
theorem vmallocToSgt_covers_unaligned :
    vmallocToSgt flatMemory 0x10000000fe0 64 =
      some (2, [⟨0, 0x10000000fe0, 32⟩, ⟨0, 0x10000001000, 32⟩]) ∧
    Covers flatMemory 0x10000000fe0 64 [⟨0, 0x10000000fe0, 32⟩, ⟨0, 0x10000001000, 32⟩] := by
  have hrun : vmallocToSgt flatMemory 0x10000000fe0 64 =
      some (2, [⟨0, 0x10000000fe0, 32⟩, ⟨0, 0x10000001000, 32⟩]) := by
    decide
  exact ⟨hrun, ((vmallocToSgt_covers flatMemory (by decide) (by decide) (by decide)).2 _ _ hrun).1⟩

end KernelModules
