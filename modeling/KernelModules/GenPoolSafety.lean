import KernelModules.GenPoolSteps
import Mathlib.Tactic.Linarith

/-!
# The pool never hands out memory twice

Blocks that are live at the same time share no memory, no `BUG_ON` is hit, and `avail` accounts for
the blocks that are live and those that are being freed, at every moment of every schedule of any
number of threads (`genPool_safe`).

When no thread is in the allocator, the bits that are set are those of the live blocks, and
`gen_pool_destroy` finds a bit exactly if a block is live (`genPool_quiescent`).
-/

set_option linter.unusedSectionVars false

namespace KernelModules

open BitWords Interleaving

variable {τ : Type}

/-! ## What clients rely on -/

section Clients

variable {order : ℕ} [Fintype τ] [DecidableEq τ] {s : PoolState τ}

/-- No `BUG_ON` is hit. A live block is inside of its chunk and does not start at address 0, which
stands for a failure. Live blocks share no byte. `avail` counts the bytes that are neither in a live
block nor being freed. -/
structure PoolSafe (order : ℕ) (s : PoolState τ) : Prop where
  no_bug : ∀ t, s.pc t ≠ .bug
  inside : ∀ b ∈ s.live, b.chunk ∈ s.chunks ∧ b.chunk.startAddr ≤ b.first order ∧
    0 < b.first order ∧ b.first order < b.past order ∧ b.past order ≤ b.chunk.endAddr + 1
  apart : s.live.Pairwise fun b b' => b.past order ≤ b'.first order ∨ b'.past order ≤ b.first order
  avail : ∀ c ∈ s.chunks, s.avail c.addr + s.charged c.addr * 2 ^ order = chunkSize c

/-- Two live blocks of one chunk have no bit in common. -/
theorem PoolInv.bits_apart (h : PoolInv order s) {b b' : Block} (hb : b ∈ s.live) (hb' : b' ∈ s.live)
    (hne : b ≠ b') (hchunk : b.chunk = b'.chunk) :
    b.startBit + b.nr ≤ b'.startBit ∨ b'.startBit + b'.nr ≤ b.startBit := by
  have hpos := (h.liveOk b hb).nr_pos
  have hpos' := (h.liveOk b' hb').nr_pos
  have hdisj := h.tenancy.disjoint (.inr b) (.inr b') (by simpa using hne)
  by_contra hno
  -- the later one of the two first bits is in both
  refine hdisj.notMem_of_mem_left (a := (b.chunk.addr, max b.startBit b'.startBit))
    ⟨hb, rfl, ?_, ?_⟩ ⟨hb', by rw [hchunk]; rfl, ?_, ?_⟩ <;> dsimp only <;> omega

theorem PoolInv.safe (h : PoolInv order s) : PoolSafe order s where
  no_bug t hbug := by
    have hok := h.pcOk t
    rw [hbug] at hok
    exact hok
  inside b hb := by
    have hok := h.liveOk b hb
    have hc := h.chunk_le _ hok.chunk_mem
    have hstart : b.chunk.startAddr ≤ b.first order := Nat.le_add_right _ _
    exact ⟨hok.chunk_mem, hstart, hc.1.trans_le hstart, hok.first_lt_past, hok.past_le hc.2⟩
  apart := by
    refine h.live_nodup.pairwise_of_forall_ne fun b hb b' hb' hne => ?_
    have hok := h.liveOk b hb
    have hok' := h.liveOk b' hb'
    have hmul := fun {m n : ℕ} (hmn : m ≤ n) => Nat.mul_le_mul_right (2 ^ order) hmn
    by_cases hchunk : b.chunk = b'.chunk
    · rcases h.bits_apart hb hb' hne hchunk with hle | hle
      · left
        rw [Block.past, Block.first, hchunk]
        exact Nat.add_le_add_left (hmul hle) _
      · right
        rw [Block.past, Block.first, hchunk]
        exact Nat.add_le_add_left (hmul hle) _
    · have hapart := (h.apart.forall hok.chunk_mem hok'.chunk_mem hchunk).2
      have hpast := hok.past_le (h.chunk_le _ hok.chunk_mem).2
      have hpast' := hok'.past_le (h.chunk_le _ hok'.chunk_mem).2
      have hstart : b.chunk.startAddr ≤ b.first order := Nat.le_add_right _ _
      have hstart' : b'.chunk.startAddr ≤ b'.first order := Nat.le_add_right _ _
      omega
  avail := h.avail

/-- The pool is safe under every interleaving of allocations and frees. -/
theorem genPool_safe (order : ℕ) (acts : List (PoolAct τ))
    (hclient : Along (poolStep order) (PoolClient order) acts {}) :
    ∀ s, runSchedule (poolStep order) acts ({} : PoolState τ) = some s → PoolSafe order s :=
  fun _ hrun => (poolInv_run hrun hclient).safe

/-- A first thread allocates 70 units of 16 bytes. It has set the first word when a second one sets
a bit of the second word. The first thread undoes what it has set and finds another place. -/
def conflict : List (PoolAct (Fin 2)) :=
  [.add ⟨1, 0, 0, 4096, 8191⟩, .alloc 0 1120, .step 0, .found 0 0, .step 0, .step 0,
    .alloc 1 16, .step 1, .found 1 65, .step 1, .step 1, .step 0, .step 0, .step 0, .step 0,
    .step 1, .step 1, .found 0 66,
    .step 0, .step 0, .step 0, .step 0, .step 0, .step 0]

theorem genPool_safe_conflict : ∃ s, runSchedule (poolStep 4) conflict {} = some s ∧
    s.live = [⟨⟨1, 0, 0, 4096, 8191⟩, 66, 70⟩, ⟨⟨1, 0, 0, 4096, 8191⟩, 65, 1⟩] ∧ PoolSafe 4 s := by
  have hlive : (runSchedule (poolStep 4) conflict {}).map PoolState.live =
      some [⟨⟨1, 0, 0, 4096, 8191⟩, 66, 70⟩, ⟨⟨1, 0, 0, 4096, 8191⟩, 65, 1⟩] := by decide
  obtain ⟨s, hs, hlive⟩ := Option.map_eq_some_iff.1 hlive
  exact ⟨s, hs, hlive, genPool_safe 4 conflict (by decide) s hs⟩

/-! ## When nobody is in the allocator -/

theorem PoolInv.mem_bitsSet_iff (h : PoolInv order s) (hidle : ∀ t, s.pc t = .idle)
    {c : GenPoolChunk} (hc : c ∈ s.chunks) (i : ℕ) :
    i ∈ bitsSet (s.bits c.addr) ↔
      ∃ b ∈ s.live, b.chunk = c ∧ b.startBit ≤ i ∧ i < b.startBit + b.nr := by
  have htaken := h.tenancy.mem_taken_iff (c.addr, i)
  simp only [Sum.exists, PoolState.holds, hidle, PoolPc.held, Set.mem_empty_iff_false, exists_false,
    false_or] at htaken
  rw [show i ∈ bitsSet (s.bits c.addr) ↔ (c.addr, i) ∈ s.taken from Iff.rfl, htaken]
  constructor
  · rintro ⟨b, hb, haddr, hi⟩
    exact ⟨b, hb, h.chunk_inj (h.liveOk b hb).chunk_mem hc haddr.symm, hi⟩
  · rintro ⟨b, hb, rfl, hi⟩
    exact ⟨b, hb, rfl, hi⟩

theorem charged_of_idle (hidle : ∀ t, s.pc t = .idle) (a : ℕ) : s.charged a = s.liveBits a := by
  simp only [PoolState.charged, hidle, @PoolPc.charge_of_none .idle rfl,
    Finset.sum_const_zero, add_zero]

/-- One of the chunks of a pool is at the address of a chunk of the pool. -/
theorem sum_ite_addr {chunks : List GenPoolChunk} (h : chunks.Pairwise GenPoolChunk.Apart)
    {c : GenPoolChunk} (hc : c ∈ chunks) (n : ℕ) :
    (chunks.map fun c' => if c.addr = c'.addr then n else 0).sum = n := by
  induction chunks with
  | nil => cases hc
  | cons d chunks ih =>
    obtain ⟨hd, hchunks⟩ := List.pairwise_cons.1 h
    rw [List.map_cons, List.sum_cons]
    rcases List.mem_cons.1 hc with rfl | hc
    · rw [if_pos rfl, List.sum_eq_zero, add_zero]
      intro x hx
      obtain ⟨c', hc', rfl⟩ := List.mem_map.1 hx
      exact if_neg (hd c' hc').1
    · rw [if_neg (hd c hc).1.symm, zero_add, ih hchunks hc]

/-- Every live block is in one chunk of the pool. -/
theorem PoolInv.sum_liveBits (h : PoolInv order s) :
    (s.chunks.map fun c => s.liveBits c.addr).sum = (s.live.map Block.nr).sum := by
  have hlive := h.liveOk
  unfold PoolState.liveBits
  generalize s.live = live at hlive
  induction live with
  | nil => simp
  | cons b live ih =>
    simp only [List.map_cons, List.sum_cons, List.sum_map_add]
    rw [sum_ite_addr h.apart (hlive b List.mem_cons_self).chunk_mem,
      ih fun b' hb' => hlive b' (List.mem_cons_of_mem _ hb')]

/-- `gen_pool_avail` and `gen_pool_size` differ by the bytes of the live blocks. -/
theorem PoolInv.genPoolAvail_add (h : PoolInv order s) (hidle : ∀ t, s.pc t = .idle) :
    genPoolAvail s + ((s.live.map Block.nr).sum * 2 ^ order : ℕ) = genPoolSize s := by
  have havail := h.avail
  rw [← h.sum_liveBits]
  unfold genPoolAvail genPoolSize
  generalize s.chunks = chunks at havail
  induction chunks with
  | nil => simp
  | cons c chunks ih =>
    have hc := havail c List.mem_cons_self
    have hchunks := ih fun c' hc' => havail c' (List.mem_cons_of_mem _ hc')
    rw [charged_of_idle hidle] at hc
    simp only [List.map_cons, List.sum_cons]
    push_cast at hchunks ⊢
    linarith

/-- When every thread is out of the allocator, the bits that are set are those of the live blocks,
`avail` counts the rest, and the pool can be destroyed exactly if no block is live. -/
structure PoolQuiescent (order : ℕ) (s : PoolState τ) : Prop where
  bits : ∀ c ∈ s.chunks, ∀ i, i ∈ bitsSet (s.bits c.addr) ↔
    ∃ b ∈ s.live, b.chunk = c ∧ b.startBit ≤ i ∧ i < b.startBit + b.nr
  avail : genPoolAvail s + ((s.live.map Block.nr).sum * 2 ^ order : ℕ) = genPoolSize s
  destroy : genPoolDestroy order s = true ↔ s.live = []

theorem PoolInv.genPoolDestroy_iff (h : PoolInv order s) (hidle : ∀ t, s.pc t = .idle) :
    genPoolDestroy order s = true ↔ s.live = [] := by
  have hbit : genPoolDestroy order s = true ↔
      ∀ c ∈ s.chunks, ∀ i < endBit order c, i ∉ bitsSet (s.bits c.addr) := by
    simp [genPoolDestroy, bitsSet]
  rw [hbit]
  constructor
  · intro hfree
    by_contra hne
    obtain ⟨b, hb⟩ := List.exists_mem_of_ne_nil _ hne
    have hok := h.liveOk b hb
    have hbound := hok.bound
    have hpos := hok.nr_pos
    exact hfree b.chunk hok.chunk_mem b.startBit (by omega)
      ((h.mem_bitsSet_iff hidle hok.chunk_mem _).2 ⟨b, hb, rfl, le_rfl, by omega⟩)
  · intro hlive c hc i _ hi
    obtain ⟨b, hb, -⟩ := (h.mem_bitsSet_iff hidle hc i).1 hi
    rw [hlive] at hb
    cases hb

theorem genPool_quiescent (order : ℕ) (acts : List (PoolAct τ))
    (hclient : Along (poolStep order) (PoolClient order) acts {}) :
    ∀ s, runSchedule (poolStep order) acts ({} : PoolState τ) = some s → (∀ t, s.pc t = .idle) →
      PoolQuiescent order s := by
  intro s hrun hidle
  have h := poolInv_run hrun hclient
  exact ⟨fun c hc => h.mem_bitsSet_iff hidle hc, h.genPoolAvail_add hidle, h.genPoolDestroy_iff hidle⟩

/-- The threads of `conflict` have returned. -/
theorem genPool_quiescent_conflict : ∃ s, runSchedule (poolStep 4) conflict {} = some s ∧
    genPoolAvail s = 4096 - 71 * 16 ∧ genPoolDestroy 4 s = false ∧ PoolQuiescent 4 s := by
  have hsome : ((runSchedule (poolStep 4) conflict {}).map fun s =>
      (genPoolAvail s, genPoolDestroy 4 s, s.pc 0, s.pc 1)) =
      some (4096 - 71 * 16, false, .idle, .idle) := by decide +kernel
  obtain ⟨s, hs, heq⟩ := Option.map_eq_some_iff.1 hsome
  simp only [Prod.mk.injEq] at heq
  refine ⟨s, hs, heq.1, heq.2.1, genPool_quiescent 4 conflict (by decide) s hs fun t => ?_⟩
  obtain rfl | rfl : t = 0 ∨ t = 1 := by omega
  · exact heq.2.2.1
  · exact heq.2.2.2

end Clients

end KernelModules
