import KernelModules.GenPoolTenants
import KernelModules.Interleaving
import Mathlib.Tactic.Ring

/-!
# Steps of the pool allocator

Every step of a thread keeps `PoolInv`. A thread sets only bits that are free, and clears only bits
it holds : these are set in every value it has read, so the `BUG_ON` on them is not hit
(`PoolInv.test`). At the end of an allocation it passes its bits on to the block, and at the start
of a free it takes them over.
-/

set_option linter.unusedSectionVars false

namespace KernelModules

open BitWords Interleaving

variable {τ : Type}

/-! ## Steps that keep what a thread holds -/

section Steps

variable {order : ℕ} [Fintype τ] [DecidableEq τ] {s : PoolState τ}

/-- What is charged after one thread went on. -/
theorem charged_update {s' : PoolState τ} {t : τ} {new : PoolPc}
    (hpc : s'.pc = Function.update s.pc t new) (a : ℕ) :
    s'.charged a + s.liveBits a + (s.pc t).charge a =
      s.charged a + s'.liveBits a + new.charge a := by
  have hcomp : (fun t' => (s'.pc t').charge a) =
      Function.update (fun t' => (s.pc t').charge a) t (new.charge a) := by
    funext t'
    rw [hpc]
    by_cases ht : t' = t
    · subst ht
      simp
    · simp [ht]
  have hold := Finset.add_sum_erase Finset.univ (fun t' => (s.pc t').charge a) (Finset.mem_univ t)
  simp only [PoolState.charged]
  rw [hcomp, Finset.sum_update_of_mem (Finset.mem_univ t), Finset.sdiff_singleton_eq_erase, ← hold]
  omega

/-- The chunk of an address is the only one there. -/
theorem PoolInv.chunk_inj (h : PoolInv order s) {c c' : GenPoolChunk} (hc : c ∈ s.chunks)
    (hc' : c' ∈ s.chunks) (haddr : c.addr = c'.addr) : c = c' := by
  by_contra hne
  exact (h.apart.forall hc hc' hne).1 haddr

theorem PoolInv.setPc (h : PoolInv order s) {t : τ} {new : PoolPc} (hok : new.Ok order s.chunks)
    (hheld : new.held = (s.pc t).held) (hcharge : ∀ a, new.charge a = (s.pc t).charge a) :
    PoolInv order (s.setPc t new) where
  chunk_le := h.chunk_le
  apart := h.apart
  pcOk := by
    intro t'
    by_cases ht : t' = t
    · subst ht
      simpa [PoolState.setPc] using hok
    · simpa [PoolState.setPc, ht] using h.pcOk t'
  live_nodup := h.live_nodup
  liveOk := h.liveOk
  tenancy := by
    refine h.tenancy.congr rfl ?_
    rintro (t' | b)
    · by_cases ht : t' = t
      · subst ht
        simpa [PoolState.holds, PoolState.setPc] using hheld
      · simp [PoolState.holds, PoolState.setPc, ht]
    · rfl
  avail := by
    intro c hc
    have hsum := charged_update (rfl : (s.setPc t new).pc = _) c.addr
    have hlive : (s.setPc t new).liveBits c.addr = s.liveBits c.addr := rfl
    rw [hcharge, hlive] at hsum
    rw [show (s.setPc t new).charged c.addr = s.charged c.addr by omega]
    exact h.avail c hc

/-! ## Writing a word -/

/-- The bits of chunk `a` that are set are those of `T` after its bitmap was written. -/
theorem taken_write (s : PoolState τ) (t : τ) (task : Task) (l : LlLoop) (val : BitVec 64) :
    (s.write t task l val).taken =
      {k | if k.1 = task.chunk.addr then
          k.2 ∈ bitsSet (Function.update (s.bits task.chunk.addr) l.p val)
        else k ∈ s.taken} := by
  ext ⟨a, i⟩
  by_cases ha : a = task.chunk.addr
  · subst ha
    simp [PoolState.taken, PoolState.write]
  · simp [PoolState.taken, PoolState.write, ha]

theorem PoolInv.write (h : PoolInv order s) {t : τ} {task : Task} {l : LlLoop} {mask : BitVec 64}
    (hpc : s.pc t = .cmpxchg task l (s.bits task.chunk.addr l.p)) (hm : l.wordMask = some mask) :
    PoolInv order (s.write t task l (task.newVal mask (s.bits task.chunk.addr l.p))) := by
  have hok := h.pcOk t
  rw [hpc] at hok
  obtain ⟨htask, ⟨pos, hpos, hl⟩, hval⟩ := hok
  specialize hval mask hm
  obtain ⟨hlt, hbits, hadv⟩ := hl.wordMask_eq_some hm
  have hnext := LlLoop.lt_nextBit hlt
  have hholds : s.holds (.inl t) = {task.chunk.addr} ×ˢ task.held l := by
    rw [PoolState.holds, hpc, PoolPc.held]
  refine ⟨h.chunk_le, h.apart, fun t' => ?_, h.live_nodup, h.liveOk, ?_, fun c hc => ?_⟩
  · by_cases ht : t' = t
    · subst ht
      simp only [PoolState.write, Function.update_self]
      exact ⟨htask, _, hpos.trans hnext.le, hadv⟩
    · simpa [PoolState.write, ht] using h.pcOk t'
  · have hother : ∀ j, j ≠ Sum.inl t →
        (s.write t task l (task.newVal mask (s.bits task.chunk.addr l.p))).holds j = s.holds j := by
      rintro (t' | b) hj
      · have ht : t' ≠ t := fun ht => hj (by rw [ht])
        simp [PoolState.holds, PoolState.write, ht]
      · rfl
    have hself : (s.write t task l (task.newVal mask (s.bits task.chunk.addr l.p))).holds (.inl t) =
        {task.chunk.addr} ×ˢ task.held l.advance := by
      simp [PoolState.holds, PoolState.write, PoolPc.held]
    by_cases hk : task.kind = .set
    · -- the bits were free
      rw [if_pos hk] at hval
      refine h.tenancy.claim (i := .inl t) (S := {task.chunk.addr} ×ˢ maskBits l.p mask)
        ?_ ?_ hother ?_
      · rw [Set.disjoint_left]
        rintro ⟨a, i⟩ ⟨rfl, hi⟩ htaken
        exact (disjoint_of_and_eq_zero hval).notMem_of_mem_left hi htaken
      · rw [hself, hholds, Task.held_advance_of_set hl hm hk hpos, Set.prod_union]
      · rw [taken_write, Task.newVal, hk, bitsSet_or]
        ext ⟨a, i⟩
        by_cases ha : a = task.chunk.addr
        · subst ha
          simp [PoolState.taken]
        · simp [ha]
    · -- the thread holds the bits
      have hnew : task.newVal mask (s.bits task.chunk.addr l.p) =
          s.bits task.chunk.addr l.p &&& ~~~mask := by
        unfold Task.newVal
        split
        · next h => exact absurd h hk
        · rfl
        · rfl
      refine h.tenancy.release (i := .inl t) (S := {task.chunk.addr} ×ˢ maskBits l.p mask)
        ?_ ?_ hother ?_
      · rw [hholds]
        exact Set.prod_mono_right (Task.maskBits_subset_held hl hm hk)
      · rw [hself, hholds, Task.held_advance_of_ne_set hl hm hk]
        ext ⟨a, i⟩
        simp only [Set.mem_prod, Set.mem_sdiff, Set.mem_singleton_iff]
        tauto
      · rw [taken_write, hnew, bitsSet_andNot]
        ext ⟨a, i⟩
        by_cases ha : a = task.chunk.addr
        · subst ha
          simp [PoolState.taken]
        · simp [ha]
  · have hsum := charged_update (rfl : (s.write t task l (task.newVal mask (s.bits task.chunk.addr l.p))).pc =
      Function.update s.pc t (.load task l.advance)) c.addr
    have hlive : (s.write t task l (task.newVal mask (s.bits task.chunk.addr l.p))).liveBits c.addr =
      s.liveBits c.addr := rfl
    rw [hpc, PoolPc.charge_of_some rfl, PoolPc.charge_of_some rfl, hlive] at hsum
    rw [show (s.write t task l _).charged c.addr = s.charged c.addr by omega]
    exact h.avail c hc

/-! ## Blocks that become live, and blocks that are freed -/

theorem Block.Ok.cells_nonempty {chunks : List GenPoolChunk} {b : Block} (hb : b.Ok order chunks) :
    (b.chunk.addr, b.startBit) ∈ b.cells :=
  ⟨rfl, le_rfl, Nat.lt_add_of_pos_right hb.nr_pos⟩

theorem Task.Ok.block {chunks : List GenPoolChunk} {task : Task} (h : task.Ok order chunks)
    (hk : task.kind ≠ .undo) : task.block.Ok order chunks :=
  ⟨h.chunk_mem, h.nr_pos hk, h.bound⟩

/-- What an allocation returns is not live. -/
theorem PoolInv.block_notMem (h : PoolInv order s) {t : τ} {task : Task}
    (hpc : s.pc t = .account task) (hk : task.kind = .set) : task.block ∉ s.live := by
  intro hmem
  have hcell := (h.liveOk _ hmem).cells_nonempty
  have hdisj := h.tenancy.disjoint (.inl t) (.inr task.block) (by simp)
  refine hdisj.notMem_of_mem_left (a := (task.block.chunk.addr, task.block.startBit)) ?_ ⟨hmem, hcell⟩
  rw [PoolState.holds, hpc, PoolPc.held, if_pos hk]
  exact hcell

theorem PoolInv.pcOk_idle (h : PoolInv order s) (t t' : τ) :
    (Function.update s.pc t .idle t').Ok order s.chunks := by
  by_cases ht : t' = t
  · subst ht
    simp [PoolPc.Ok]
  · simpa [ht] using h.pcOk t'

/-- `avail` is kept with what is charged. -/
theorem avail_sub {avail : ℕ → ℤ} {a n : ℕ} {size : ℤ} (x n' : ℕ) (d : ℤ)
    (h : avail a + n * 2 ^ order = size)
    (hn : (n' : ℤ) = n + if x = a then d else 0) :
    Function.update avail x (avail x - d * 2 ^ order) a + n' * 2 ^ order = size := by
  by_cases hx : x = a
  · subst hx
    rw [if_pos rfl] at hn
    rw [Function.update_self, hn, ← h]
    ring
  · rw [if_neg hx, add_zero] at hn
    rw [Function.update_of_ne (Ne.symm hx), hn, h]

/-- At the end of an allocation the thread passes its bits on to the block. -/
theorem PoolInv.allocEnd (h : PoolInv order s) {t : τ} {task : Task}
    (hpc : s.pc t = .account task) (hk : task.kind = .set) :
    PoolInv order (genPoolAllocEnd order t task s) := by
  have hok := h.pcOk t
  rw [hpc] at hok
  have hnew := h.block_notMem hpc hk
  refine ⟨h.chunk_le, h.apart, h.pcOk_idle t, List.nodup_cons.2 ⟨hnew, h.live_nodup⟩, ?_, ?_, ?_⟩
  · intro b hb
    rcases List.mem_cons.1 hb with rfl | hb
    · exact hok.1.block hok.2
    · exact h.liveOk b hb
  · have hheld : s.holds (.inl t) = task.block.cells := by
      rw [PoolState.holds, hpc, PoolPc.held, if_pos hk]
    refine h.tenancy.pass (i := .inl t) (j := .inr task.block) (S := task.block.cells) (by simp)
      hheld.ge ?_ ?_ ?_
    · rw [hheld, Set.sdiff_self]
      simp [PoolState.holds, PoolPc.held, genPoolAllocEnd]
    · ext k
      simp [PoolState.holds, hnew, genPoolAllocEnd]
    · rintro (t' | b) hne₁ hne₂
      · have ht : t' ≠ t := fun ht => hne₁ (by rw [ht])
        simp [PoolState.holds, ht, genPoolAllocEnd]
      · have hb : b ≠ task.block := fun hb => hne₂ (by rw [hb])
        simp [PoolState.holds, hb, genPoolAllocEnd]
  · intro c hc
    refine avail_sub _ _ _ (h.avail c hc) ?_
    have hsum := charged_update (rfl : (genPoolAllocEnd order t task s).pc = _) c.addr
    have hlive : (genPoolAllocEnd order t task s).liveBits c.addr =
        (if task.chunk.addr = c.addr then task.nr else 0) + s.liveBits c.addr := rfl
    rw [hpc, PoolPc.charge_of_some rfl, PoolPc.charge_of_none rfl, hk, hlive, if_neg (by simp)] at hsum
    split_ifs at hsum ⊢ <;> omega

theorem PoolInv.freeEnd (h : PoolInv order s) {t : τ} {task : Task}
    (hpc : s.pc t = .account task) (hk : task.kind = .free) :
    PoolInv order (genPoolFreeEnd order t task s) := by
  refine ⟨h.chunk_le, h.apart, h.pcOk_idle t, h.live_nodup, h.liveOk, h.tenancy.congr rfl ?_, ?_⟩
  · rintro (t' | b)
    · by_cases ht : t' = t
      · subst ht
        simp [PoolState.holds, hpc, PoolPc.held, hk, genPoolFreeEnd]
      · simp [PoolState.holds, ht, genPoolFreeEnd]
    · rfl
  · intro c hc
    have hsum := charged_update (rfl : (genPoolFreeEnd order t task s).pc = _) c.addr
    have hlive : (genPoolFreeEnd order t task s).liveBits c.addr = s.liveBits c.addr := rfl
    rw [hpc, PoolPc.charge_of_some rfl, PoolPc.charge_of_none rfl, hk, hlive] at hsum
    have havail := avail_sub task.chunk.addr ((genPoolFreeEnd order t task s).charged c.addr)
      (-task.nr) (h.avail c hc) ?_
    · rwa [neg_mul, sub_neg_eq_add] at havail
    · by_cases ha : task.chunk.addr = c.addr
      · rw [if_pos ⟨rfl, ha⟩] at hsum
        rw [if_pos ha]
        omega
      · rw [if_neg fun hkind => ha hkind.2] at hsum
        rw [if_neg ha]
        omega

/-! ## Addresses -/

theorem Block.Ok.past_le {chunks : List GenPoolChunk} {b : Block} (hb : b.Ok order chunks)
    (hc : b.chunk.startAddr ≤ b.chunk.endAddr) : b.past order ≤ b.chunk.endAddr + 1 := by
  have hbits : (b.startBit + b.nr) * 2 ^ order ≤ chunkSize b.chunk :=
    (Nat.mul_le_mul_right _ hb.bound).trans (Nat.div_mul_le_self _ _)
  unfold Block.past
  unfold chunkSize at hbits
  omega

theorem Block.Ok.first_lt_past {chunks : List GenPoolChunk} {b : Block} (hb : b.Ok order chunks) :
    b.first order < b.past order := by
  have := hb.nr_pos
  exact Nat.add_lt_add_left (Nat.mul_lt_mul_of_pos_right (by omega) (Nat.two_pow_pos _)) _

/-- The chunk `gen_pool_free_owner` finds at the address of a live block is the block's. -/
theorem PoolInv.find_chunk (h : PoolInv order s) {b : Block} (hb : b ∈ s.live) :
    s.chunks.find? (fun c => c.startAddr ≤ b.first order && b.first order ≤ c.endAddr) =
      some b.chunk := by
  have hok := h.liveOk b hb
  have hpast := hok.past_le (h.chunk_le _ hok.chunk_mem).2
  have hfirst := hok.first_lt_past
  have hstart : b.chunk.startAddr ≤ b.first order := Nat.le_add_right _ _
  cases hfind : s.chunks.find? fun c => c.startAddr ≤ b.first order && b.first order ≤ c.endAddr with
  | none =>
    have hno := List.find?_eq_none.1 hfind b.chunk hok.chunk_mem
    simp only [Bool.and_eq_true, decide_eq_true_eq] at hno
    omega
  | some c =>
    have hmem := List.mem_of_find?_eq_some hfind
    have hin := List.find?_some hfind
    simp only [Bool.and_eq_true, decide_eq_true_eq] at hin
    by_contra hne
    have hapart := (h.apart.forall hmem hok.chunk_mem fun heq => hne (by rw [heq])).2
    omega

theorem PoolInv.freeOwner (h : PoolInv order s) {t : τ} (ht : s.pc t = .idle) {b : Block}
    (hb : b ∈ s.live) {size : ℕ} (hsize : nbitsOf order size = b.nr) (hpos : 0 < size)
    (hpast : b.first order + size ≤ b.past order) :
    PoolInv order (genPoolFreeOwner order t (b.first order) size s) := by
  have hok := h.liveOk b hb
  have hend := hok.past_le (h.chunk_le _ hok.chunk_mem).2
  have hstart : (b.first order - b.chunk.startAddr) / 2 ^ order = b.startBit := by
    rw [Block.first, Nat.add_sub_cancel_left, Nat.mul_div_cancel _ (Nat.two_pow_pos _)]
  have hnew : genPoolFreeOwner order t (b.first order) size s = { s with
      pc := Function.update s.pc t
        (.load ⟨.free, size, b.chunk, [], b.startBit, b.nr⟩ (LlLoop.init b.startBit b.nr))
      live := s.live.erase b } := by
    simp only [genPoolFreeOwner, h.find_chunk hb, hstart, hsize]
    rw [if_neg (by omega)]
  rw [hnew]
  have hmem : ∀ b', b' ∈ s.live.erase b ↔ b' ≠ b ∧ b' ∈ s.live := fun b' =>
    h.live_nodup.mem_erase_iff
  refine ⟨h.chunk_le, h.apart, fun t' => ?_, h.live_nodup.erase b,
    fun b' hb' => h.liveOk b' ((hmem b').1 hb').2, ?_, fun c hc => ?_⟩
  · by_cases htt : t' = t
    · subst htt
      simp only [Function.update_self]
      exact ⟨⟨hok.chunk_mem, List.nil_subset _, hok.bound, hpos, fun hk => absurd rfl hk,
        fun _ => hok.nr_pos⟩, _, le_rfl, LlLoop.at_init _ _⟩
    · simpa [htt] using h.pcOk t'
  · -- the block passes its bits on to the thread
    have hheld : s.holds (.inr b) = b.cells := by
      ext k
      simp [PoolState.holds, hb]
    have hinit : (LlLoop.init b.startBit b.nr).size - (LlLoop.init b.startBit b.nr).nr = b.startBit :=
      (LlLoop.at_init _ _).done_eq
    refine h.tenancy.pass (i := .inr b) (j := .inl t) (S := b.cells) (by simp) hheld.ge ?_ ?_ ?_
    · rw [hheld, Set.sdiff_self]
      ext k
      simp [PoolState.holds, hmem]
    · simp only [PoolState.holds, Function.update_self, ht, PoolPc.held, Task.held, hinit,
        Set.empty_union]
      rfl
    · rintro (t' | b') hne₁ hne₂
      · have htt : t' ≠ t := fun htt => hne₂ (by rw [htt])
        simp [PoolState.holds, htt]
      · have hbb : b' ≠ b := fun hbb => hne₁ (by rw [hbb])
        simp [PoolState.holds, hmem, hbb]
  · have hsum := charged_update (s := s) (rfl : ({ s with
        pc := Function.update s.pc t
          (.load ⟨.free, size, b.chunk, [], b.startBit, b.nr⟩ (LlLoop.init b.startBit b.nr))
        live := s.live.erase b } : PoolState τ).pc = Function.update s.pc t
          (.load ⟨.free, size, b.chunk, [], b.startBit, b.nr⟩ (LlLoop.init b.startBit b.nr))) c.addr
    have hlive := List.sum_map_erase (fun b' : Block => if b'.chunk.addr = c.addr then b'.nr else 0) hb
    simp only [PoolState.liveBits, ht] at hsum
    rw [PoolPc.charge_of_none rfl, PoolPc.charge_of_some rfl] at hsum
    simp only [true_and] at hsum
    have havail := h.avail c hc
    simp only [← hlive] at hsum
    have hcharged : PoolState.charged { s with
        pc := Function.update s.pc t
          (.load ⟨.free, size, b.chunk, [], b.startBit, b.nr⟩ (LlLoop.init b.startBit b.nr))
        live := s.live.erase b } c.addr = s.charged c.addr := by omega
    rw [hcharged]
    exact havail

/-- Nothing is held of a chunk that is not in the pool. -/
theorem PoolInv.notMem_taken (h : PoolInv order s) {a : ℕ} (ha : ∀ c ∈ s.chunks, c.addr ≠ a)
    (i : ℕ) : (a, i) ∉ s.taken := by
  intro htaken
  obtain ⟨t | b, hk⟩ := (h.tenancy.mem_taken_iff _).1 htaken
  · obtain ⟨task, htask, haddr⟩ := PoolPc.exists_of_mem_held hk
    exact ha _ ((h.pcOk t).task htask).chunk_mem haddr
  · exact ha _ (h.liveOk b hk.1).chunk_mem hk.2.1.symm

/-- Nothing is charged to a chunk that is not in the pool. -/
theorem PoolInv.charged_eq_zero (h : PoolInv order s) {a : ℕ} (ha : ∀ c ∈ s.chunks, c.addr ≠ a) :
    s.charged a = 0 := by
  have hlive : s.liveBits a = 0 := by
    refine List.sum_eq_zero fun n hn => ?_
    obtain ⟨b, hb, rfl⟩ := List.mem_map.1 hn
    exact if_neg (ha _ (h.liveOk b hb).chunk_mem)
  have hpc : ∀ t, (s.pc t).charge a = 0 := by
    intro t
    unfold PoolPc.charge
    split
    · next task htask => exact if_neg fun hk => ha _ ((h.pcOk t).task htask).chunk_mem hk.2
    · rfl
  rw [PoolState.charged, hlive, zero_add]
  exact Finset.sum_eq_zero fun t _ => hpc t

theorem nbitsOf_pos {size : ℕ} (hsize : AllocSize order size) (hpos : 0 < size) :
    0 < nbitsOf order size := by
  have hadd := hsize.add_le
  have hpow : 0 < 2 ^ order := Nat.two_pow_pos _
  rw [nbitsOf, Nat.mod_eq_of_lt (by omega)]
  exact Nat.div_pos (by omega) hpow

/-! ## One step -/

/-- More memory for the pool. -/
theorem PoolInv.add (h : PoolInv order s) {c : GenPoolChunk}
    (hc : 0 < c.startAddr ∧ c.startAddr ≤ c.endAddr) (hapart : ∀ c' ∈ s.chunks, c.Apart c') :
    PoolInv order (genPoolAddOwner c s) := by
  have hfree : ∀ i, (c.addr, i) ∉ s.taken :=
    h.notMem_taken fun c' hc' haddr => (hapart c' hc').1 haddr.symm
  have htaken : (genPoolAddOwner c s).taken = s.taken := by
    ext ⟨a, i⟩
    by_cases ha : a = c.addr
    · subst ha
      simpa [PoolState.taken, genPoolAddOwner, bitsSet] using hfree i
    · simp [PoolState.taken, genPoolAddOwner, ha]
  have hcharged : ∀ a, (genPoolAddOwner c s).charged a = s.charged a := fun _ => rfl
  refine ⟨?_, List.pairwise_cons.2 ⟨hapart, h.apart⟩, fun t => ?_, h.live_nodup, fun b hb => ?_,
    h.tenancy.congr htaken ?_, ?_⟩
  · intro c' hc'
    rcases List.mem_cons.1 hc' with rfl | hc'
    · exact hc
    · exact h.chunk_le c' hc'
  · exact (h.pcOk t).mono (List.subset_cons_self _ _)
  · have hok := h.liveOk b hb
    exact ⟨List.mem_cons_of_mem _ hok.chunk_mem, hok.nr_pos, hok.bound⟩
  · rintro (t | b) <;> rfl
  · intro c' hc'
    rw [hcharged]
    rcases List.mem_cons.1 hc' with rfl | hc'
    · -- nothing of a chunk that is added is in use
      have hzero : s.charged c'.addr = 0 := h.charged_eq_zero fun c hc haddr =>
        (hapart c hc).1 haddr.symm
      simp [genPoolAddOwner, hzero]
    · have haddr : c'.addr ≠ c.addr := fun haddr => (hapart c' hc').1 haddr.symm
      simpa [genPoolAddOwner, haddr] using h.avail c' hc'

theorem PoolInv.found (h : PoolInv order s) {t : τ} {startBit : ℕ} {s' : PoolState τ}
    (hs : genPoolFound order t startBit s = some s') : PoolInv order s' := by
  unfold genPoolFound at hs
  split at hs
  · next size c rest _ hpc =>
    have hok := h.pcOk t
    rw [hpc] at hok
    obtain ⟨hpos, hsize, hc, hrest⟩ := hok
    dsimp only at hs
    split at hs
    · next hbound =>
      obtain rfl := Option.some.inj hs
      rw [Nat.mod_eq_of_lt hsize.bits_lt] at hbound
      split
      · exact h.setPc ⟨hpos, hsize, hrest⟩ (by rw [hpc]; rfl) fun a => by rw [hpc]; rfl
      · next hlt =>
        have hinit := LlLoop.at_init startBit (nbitsOf order size)
        refine h.setPc ⟨⟨hc, hrest, hbound (by omega), hpos, fun _ => hsize,
          fun _ => nbitsOf_pos hsize hpos⟩, _, le_rfl, hinit⟩ ?_ fun a => ?_
        · rw [hpc, PoolPc.held, Task.held_of_set hinit rfl]
          simp [PoolPc.held]
        · rw [hpc, PoolPc.charge_of_some rfl, PoolPc.charge_of_none rfl]
          simp
    · cases hs
  · cases hs

/-- A loop with no bits left returns. -/
theorem PoolInv.return (h : PoolInv order s) {t : τ} {task : Task} {l : LlLoop}
    (hpc : s.pc t = .load task l) (hm : l.wordMask = none) :
    PoolInv order (s.setPc t task.return) := by
  have hok := h.pcOk t
  rw [hpc] at hok
  obtain ⟨htask, pos, hpos, hl⟩ := hok
  obtain rfl := hl.wordMask_eq_none hm
  have hcharge : ∀ a, (s.pc t).charge a = _ := fun a => by
    rw [hpc, PoolPc.charge_of_some rfl]
  unfold Task.return
  split
  · next hk =>
    refine h.setPc ⟨htask, by rw [hk]; decide⟩ ?_ fun a => ?_
    · rw [hpc, PoolPc.held, PoolPc.held, if_pos hk, Task.held_of_set hl hk]
      rfl
    · rw [hcharge, PoolPc.charge_of_some rfl]
  · next hk =>
    refine h.setPc ⟨htask, by rw [hk]; decide⟩ ?_ fun a => ?_
    · rw [hpc, PoolPc.held, PoolPc.held, if_neg (by rw [hk]; decide),
        Task.held_of_ne_set hl (by rw [hk]; decide)]
      simp
    · rw [hcharge, PoolPc.charge_of_some rfl]
  · next hk =>
    refine h.setPc ⟨htask.size_pos, htask.allocSize (by rw [hk]; decide), htask.chunk_mem,
      htask.rest_subset⟩ ?_ fun a => ?_
    · rw [hpc, PoolPc.held, Task.held_of_ne_set hl (by rw [hk]; decide)]
      simp [PoolPc.held]
    · rw [hcharge, PoolPc.charge_of_none rfl, hk]
      simp

/-- A thread that has read a word goes on, or undoes what it has set so far. It hits no `BUG_ON` :
the bits it clears are its own. -/
theorem PoolInv.test (h : PoolInv order s) {t : τ} {task : Task} {l : LlLoop} {mask : BitVec 64}
    (htask : (s.pc t).task? = some task) (hheld : (s.pc t).held = {task.chunk.addr} ×ˢ task.held l)
    {pos : ℕ} (hpos : task.startBit ≤ pos) (hl : l.At pos (task.startBit + task.nr))
    (hm : l.wordMask = some mask) :
    PoolInv order (s.setPc t (task.test l mask (s.bits task.chunk.addr l.p))) := by
  have hok := (h.pcOk t).task htask
  obtain ⟨hlt, -, -⟩ := hl.wordMask_eq_some hm
  have hset : task.kind = .set → s.bits task.chunk.addr l.p &&& mask ≠ 0#64 →
      PoolInv order (s.setPc t (.load { task with kind := .undo, nr := task.nr - l.nr }
        (LlLoop.init task.startBit (task.nr - l.nr)))) := by
    intro hk _
    have hnr := hl.nr_eq
    have hinit := LlLoop.at_init task.startBit (task.nr - l.nr)
    have hbound := hok.bound
    refine h.setPc ⟨⟨hok.chunk_mem, hok.rest_subset, ?_, hok.size_pos, fun _ => ?_,
      fun hk => absurd rfl hk⟩, _, le_rfl, hinit⟩ ?_ fun a => ?_
    · dsimp only
      omega
    · exact hok.allocSize (by rw [hk]; decide)
    · rw [hheld, PoolPc.held, Task.held_of_set hl hk, Task.held_of_ne_set hinit (by simp)]
      rw [show task.startBit + (task.nr - l.nr) = pos by omega]
    · rw [PoolPc.charge_of_some rfl, PoolPc.charge_of_some htask, hk]
      simp
  have hgo : (if task.kind = .set then s.bits task.chunk.addr l.p &&& mask = 0#64
      else s.bits task.chunk.addr l.p &&& mask = mask) →
      PoolInv order (s.setPc t (.cmpxchg task l (s.bits task.chunk.addr l.p))) := by
    intro hval
    refine h.setPc ⟨hok, ⟨pos, hpos, hl⟩, fun mask' hm' => ?_⟩ ?_ fun a => ?_
    · obtain rfl := Option.some.inj (hm.symm.trans hm')
      exact hval
    · rw [hheld, PoolPc.held]
    · rw [PoolPc.charge_of_some rfl, PoolPc.charge_of_some htask]
  -- the bits that are cleared are held, so they are set
  have hown : task.kind ≠ .set → s.bits task.chunk.addr l.p &&& mask = mask := by
    intro hk
    rw [and_eq_mask_iff]
    intro i hi
    have hmem : (task.chunk.addr, i) ∈ s.holds (.inl t) := by
      rw [PoolState.holds, hheld]
      exact ⟨rfl, Task.maskBits_subset_held hl hm hk hi⟩
    exact h.tenancy.subset_taken _ hmem
  unfold Task.test
  split
  · next hk =>
    split
    · next hbusy => exact hset hk hbusy
    · next hfree => exact hgo (by rw [if_pos hk]; exact not_not.1 hfree)
  all_goals
    next hk =>
    have hne : task.kind ≠ .set := by rw [hk]; decide
    rw [if_neg (not_not.2 (hown hne))]
    exact hgo (by rw [if_neg hne]; exact hown hne)

theorem PoolInv.threadStep (h : PoolInv order s) {t : τ} {s' : PoolState τ}
    (hs : threadStep order t s = some s') : PoolInv order s' := by
  have hok := h.pcOk t
  unfold KernelModules.threadStep at hs
  split at hs
  · next hpc =>
    obtain rfl := Option.some.inj hs
    exact h.setPc trivial (by rw [hpc]; rfl) fun a => by rw [hpc]; rfl
  · next size c rest hpc =>
    obtain rfl := Option.some.inj hs
    rw [hpc] at hok
    obtain ⟨hpos, hsize, hsub⟩ := hok
    obtain ⟨hc, hrest⟩ := List.cons_subset.1 hsub
    split
    · exact h.setPc ⟨hpos, hsize, hrest⟩ (by rw [hpc]; rfl) fun a => by rw [hpc]; rfl
    · exact h.setPc ⟨hpos, hsize, hc, hrest⟩ (by rw [hpc]; rfl) fun a => by rw [hpc]; rfl
  · next task l hpc =>
    rw [hpc] at hok
    obtain ⟨htask, pos, hpos, hl⟩ := hok
    split at hs
    · next hm =>
      obtain rfl := Option.some.inj hs
      exact h.return hpc hm
    · next mask hm =>
      obtain rfl := Option.some.inj hs
      exact h.test (by rw [hpc]; rfl) (by rw [hpc]; rfl) hpos hl hm
  · next task l val hpc =>
    rw [hpc] at hok
    obtain ⟨htask, ⟨pos, hpos, hl⟩, -⟩ := hok
    split at hs
    · cases hs
    · next mask hm =>
      split at hs
      · next hval =>
        obtain rfl := Option.some.inj hs
        subst hval
        exact h.write hpc hm
      · obtain rfl := Option.some.inj hs
        exact h.test (by rw [hpc]; rfl) (by rw [hpc]; rfl) hpos hl hm
  · next task hpc =>
    split at hs
    · next hk =>
      obtain rfl := Option.some.inj hs
      exact h.allocEnd hpc hk
    · next hk =>
      obtain rfl := Option.some.inj hs
      exact h.freeEnd hpc hk
    · cases hs
  all_goals cases hs

theorem PoolInv.step (h : PoolInv order s) {a : PoolAct τ} {s' : PoolState τ}
    (hs : poolStep order a s = some s') (hclient : PoolClient order a s) : PoolInv order s' := by
  cases a with
  | add c =>
    obtain rfl := Option.some.inj hs
    exact h.add hclient.1 hclient.2
  | alloc t size =>
    rw [poolStep] at hs
    split at hs
    · next hpc =>
      obtain rfl := Option.some.inj hs
      split
      · exact h.setPc trivial (by rw [hpc]) fun a => by rw [hpc]
      · next hsize =>
        exact h.setPc ⟨Nat.pos_of_ne_zero hsize, hclient, List.Subset.refl _⟩ (by rw [hpc]; rfl)
          fun a => by rw [hpc]; rfl
    · cases hs
  | free t addr size =>
    rw [poolStep] at hs
    split at hs
    · next hpc =>
      obtain rfl := Option.some.inj hs
      obtain ⟨b, hb, rfl, hsize, hpos, hpast⟩ := hclient
      exact h.freeOwner hpc hb hsize hpos hpast
    · cases hs
  | found t startBit => exact h.found hs
  | step t => exact h.threadStep hs

theorem poolInv_init : PoolInv order ({} : PoolState τ) where
  chunk_le := by simp
  apart := List.Pairwise.nil
  pcOk _ := trivial
  live_nodup := List.nodup_nil
  liveOk := by simp
  tenancy := by
    have htaken : ({} : PoolState τ).taken = ∅ := by
      ext ⟨a, i⟩
      simp [PoolState.taken, bitsSet]
    rw [htaken]
    refine Tenancy.empty ?_
    rintro (t | b)
    · rfl
    · simp [PoolState.holds]
  avail := by simp

theorem poolInv_run {acts : List (PoolAct τ)} (hrun : runSchedule (poolStep order) acts {} = some s)
    (hclient : Along (poolStep order) (PoolClient order) acts {}) : PoolInv order s :=
  runSchedule_preserves_along (fun hs hclient h => h.step hs hclient) hrun hclient poolInv_init

end Steps

end KernelModules
