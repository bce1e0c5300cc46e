import KernelModules.GenPool
import KernelModules.Tenancy
import Mathlib.Order.Interval.Set.LinearOrder

/-!
# Who holds the bits of a pool

Every bit that is set in a bitmap has exactly one tenant : a thread that is setting or clearing it,
or a live block. What a thread holds is told by the place it is at. A loop over the words of a
bitmap is at a bit (`LlLoop.At`) : the bits before it are set, or cleared, and the mask for the next
word has the bits from it to the end of the word.

`PoolInv` says this of a pool, and that `avail` accounts for the blocks that are live and those that
are being freed.
-/

set_option linter.unusedSectionVars false

namespace KernelModules

open BitWords

/-! ## The loop over the words -/

/-- The loop is at the bit `pos` of the bits up to `stop`. -/
structure LlLoop.At (l : LlLoop) (pos stop : ℕ) : Prop where
  le : pos ≤ stop
  size_eq : l.size = stop
  nr_eq : l.nr = stop - pos
  bits_pos : 0 < l.bits
  word : pos < stop → l.p = pos / 64 ∧ l.bits = 64 - pos % 64 ∧ l.mask = firstWordMask pos

/-- The first bit after `pos` that is on another word, or the end. -/
def nextBit (pos stop : ℕ) : ℕ :=
  min stop (pos / 64 * 64 + 64)

namespace LlLoop

theorem at_init (start nr : ℕ) : (LlLoop.init start nr).At start (start + nr) where
  le := Nat.le_add_right _ _
  size_eq := rfl
  nr_eq := by simp [LlLoop.init]
  bits_pos := by
    have := Nat.mod_lt start (by decide : 0 < 64)
    simp only [LlLoop.init]
    omega
  word _ := ⟨rfl, rfl, rfl⟩

variable {l : LlLoop} {pos stop : ℕ} (h : l.At pos stop)

include h

/-- The bits that are done. -/
theorem At.done_eq : l.size - l.nr = pos := by
  have := h.le
  rw [h.size_eq, h.nr_eq]
  omega

theorem At.wordMask_eq_none (hm : l.wordMask = none) : pos = stop := by
  have hle := h.le
  have hnr := h.nr_eq
  unfold wordMask at hm
  split at hm
  · cases hm
  split at hm
  · cases hm
  omega

/-- A step of the loop does the bits up to the next word. -/
theorem At.wordMask_eq_some {mask : BitVec 64} (hm : l.wordMask = some mask) :
    pos < stop ∧ maskBits l.p mask = Set.Ico pos (nextBit pos stop) ∧
      l.advance.At (nextBit pos stop) stop := by
  have hle := h.le
  have hnr := h.nr_eq
  have hpos64 := Nat.mod_lt pos (by decide : 0 < 64)
  have hbits := h.bits_pos
  have hlt : pos < stop := by
    unfold wordMask at hm
    split at hm
    · omega
    split at hm
    · omega
    · cases hm
  obtain ⟨hp, hb, hmask⟩ := h.word hlt
  refine ⟨hlt, ?_⟩
  unfold wordMask at hm
  unfold advance nextBit
  split at hm
  · next hfull =>
    -- the word is used to its end
    obtain rfl := Option.some.inj hm
    rw [if_pos hfull, min_eq_right (by omega)]
    constructor
    · refine maskBits_eq_Ico (by omega) (by omega) fun j hj => ?_
      rw [hmask, getLsbD_firstWordMask _ hj]
      exact decide_eq_decide.2 (by omega)
    · refine ⟨by omega, h.size_eq, by dsimp only; omega, Nat.zero_lt_succ 63, fun _ => ⟨?_, ?_, ?_⟩⟩
      · dsimp only
        omega
      · dsimp only
        omega
      · rw [firstWordMask, show (pos / 64 * 64 + 64) % 64 = 0 by omega, BitVec.shiftLeft_zero]
  · next hpart =>
    -- the word is used to a bit before its end, and is the last one
    rw [if_neg hpart, min_eq_left (by omega)]
    split at hm
    · obtain rfl := Option.some.inj hm
      have hlast : stop % 64 ≠ 0 := by omega
      constructor
      · refine maskBits_eq_Ico (by omega) (by omega) fun j hj => ?_
        rw [BitVec.getLsbD_and, hmask, h.size_eq, getLsbD_firstWordMask _ hj,
          getLsbD_lastWordMask hlast hj, ← Bool.decide_and]
        exact decide_eq_decide.2 (by omega)
      · refine ⟨le_rfl, h.size_eq, ?_, hbits, fun h => absurd h (lt_irrefl _)⟩
        simp
    · cases hm

omit h in
theorem nextBit_le (pos stop : ℕ) : nextBit pos stop ≤ stop :=
  min_le_left _ _

omit h in
theorem lt_nextBit (hlt : pos < stop) : pos < nextBit pos stop := by
  have := Nat.mod_lt pos (by decide : 0 < 64)
  exact lt_min hlt (by omega)

end LlLoop

/-! ## Who holds which bits -/

/-- The bits a thread holds in the course of a call. -/
def Task.held (task : Task) (l : LlLoop) : Set ℕ :=
  match task.kind with
  | .set => Set.Ico task.startBit (l.size - l.nr)
  | .undo | .free => Set.Ico (l.size - l.nr) l.size

namespace Task

variable {task : Task} {l : LlLoop} {pos : ℕ} (hl : l.At pos (task.startBit + task.nr))

include hl

theorem held_of_set (hk : task.kind = .set) : task.held l = Set.Ico task.startBit pos := by
  rw [Task.held, hk, hl.done_eq]

theorem held_of_ne_set (hk : task.kind ≠ .set) :
    task.held l = Set.Ico pos (task.startBit + task.nr) := by
  unfold Task.held
  split
  · next h => exact absurd h hk
  · rw [hl.done_eq, hl.size_eq]
  · rw [hl.done_eq, hl.size_eq]

variable {mask : BitVec 64} (hm : l.wordMask = some mask)

include hm

/-- Setting a word adds its bits to those the thread holds. -/
theorem held_advance_of_set (hk : task.kind = .set) (hpos : task.startBit ≤ pos) :
    task.held l.advance = task.held l ∪ maskBits l.p mask := by
  obtain ⟨hlt, hbits, hadv⟩ := hl.wordMask_eq_some hm
  rw [held_of_set hadv hk, held_of_set hl hk, hbits,
    Set.Ico_union_Ico_eq_Ico hpos (LlLoop.lt_nextBit hlt).le]

/-- Clearing a word takes its bits from those the thread holds. -/
theorem held_advance_of_ne_set (hk : task.kind ≠ .set) :
    task.held l.advance = task.held l \ maskBits l.p mask := by
  obtain ⟨hlt, hbits, hadv⟩ := hl.wordMask_eq_some hm
  have hnext := LlLoop.lt_nextBit hlt
  rw [held_of_ne_set hadv hk, held_of_ne_set hl hk, hbits]
  ext i
  simp only [Set.mem_sdiff, Set.mem_Ico]
  omega

theorem maskBits_subset_held (hk : task.kind ≠ .set) : maskBits l.p mask ⊆ task.held l := by
  obtain ⟨hlt, hbits, -⟩ := hl.wordMask_eq_some hm
  rw [held_of_ne_set hl hk, hbits]
  exact Set.Ico_subset_Ico_right (LlLoop.nextBit_le _ _)

end Task

/-- A bit of the bitmap of a chunk. -/
abbrev Cell : Type := ℕ × ℕ

/-- The bits of a block. -/
def Block.cells (b : Block) : Set Cell :=
  {b.chunk.addr} ×ˢ Set.Ico b.startBit (b.startBit + b.nr)

/-- The bits a thread holds. -/
def PoolPc.held : PoolPc → Set Cell
  | .load task l | .cmpxchg task l _ => {task.chunk.addr} ×ˢ task.held l
  | .account task => if task.kind = .set then task.block.cells else ∅
  | _ => ∅

variable {τ : Type}

namespace PoolState

/-- The bits that threads and live blocks hold. -/
def holds (s : PoolState τ) : τ ⊕ Block → Set Cell
  | .inl t => (s.pc t).held
  | .inr b => {k | b ∈ s.live ∧ k ∈ b.cells}

/-- The bits that are set. -/
def taken (s : PoolState τ) : Set Cell :=
  {k | k.2 ∈ bitsSet (s.bits k.1)}

end PoolState

/-- The call a thread is in. -/
def PoolPc.task? : PoolPc → Option Task
  | .load task _ | .cmpxchg task _ _ | .account task => some task
  | _ => none

/-- The bits of a chunk that a thread has yet to give back to `avail`. -/
def PoolPc.charge (a : ℕ) (pc : PoolPc) : ℕ :=
  match pc.task? with
  | some task => if task.kind = .free ∧ task.chunk.addr = a then task.nr else 0
  | none => 0

theorem PoolPc.exists_of_mem_held {pc : PoolPc} {k : Cell} (hk : k ∈ pc.held) :
    ∃ task, pc.task? = some task ∧ task.chunk.addr = k.1 := by
  cases pc with
  | load task l => exact ⟨task, rfl, hk.1.symm⟩
  | cmpxchg task l val => exact ⟨task, rfl, hk.1.symm⟩
  | account task =>
    simp only [PoolPc.held] at hk
    split at hk
    · exact ⟨task, rfl, hk.1.symm⟩
    · exact hk.elim
  | _ => exact hk.elim

theorem PoolPc.charge_of_none {pc : PoolPc} (h : pc.task? = none) (a : ℕ) :
    pc.charge a = 0 := by
  rw [PoolPc.charge, h]

theorem PoolPc.charge_of_some {pc : PoolPc} {task : Task} (h : pc.task? = some task) (a : ℕ) :
    pc.charge a = if task.kind = .free ∧ task.chunk.addr = a then task.nr else 0 := by
  rw [PoolPc.charge, h]

/-- The bits of a chunk in live blocks. -/
def PoolState.liveBits (s : PoolState τ) (a : ℕ) : ℕ :=
  (s.live.map fun b => if b.chunk.addr = a then b.nr else 0).sum

/-- The bits of a chunk that `avail` does not count. -/
def PoolState.charged [Fintype τ] (s : PoolState τ) (a : ℕ) : ℕ :=
  s.liveBits a + ∑ t, (s.pc t).charge a

/-! ## The invariant -/

section Invariant

variable (order : ℕ)

instance : Std.Symm GenPoolChunk.Apart where
  symm _ _ h := ⟨h.1.symm, h.2.symm⟩

/-- The block of a task is inside of its chunk. -/
structure Task.Ok (chunks : List GenPoolChunk) (task : Task) : Prop where
  chunk_mem : task.chunk ∈ chunks
  rest_subset : task.rest ⊆ chunks
  bound : task.startBit + task.nr ≤ endBit order task.chunk
  size_pos : 0 < task.size
  allocSize : task.kind ≠ .free → AllocSize order task.size
  nr_pos : task.kind ≠ .undo → 0 < task.nr

/-- What is known of a thread by the place it is at. The bits it clears are set in every value it
has read. -/
def PoolPc.Ok (chunks : List GenPoolChunk) : PoolPc → Prop
  | .idle => True
  | .walk size rest => 0 < size ∧ AllocSize order size ∧ rest ⊆ chunks
  | .search size c rest _ => 0 < size ∧ AllocSize order size ∧ c ∈ chunks ∧ rest ⊆ chunks
  | .load task l => task.Ok order chunks ∧
    ∃ pos, task.startBit ≤ pos ∧ l.At pos (task.startBit + task.nr)
  | .cmpxchg task l val => task.Ok order chunks ∧
    (∃ pos, task.startBit ≤ pos ∧ l.At pos (task.startBit + task.nr)) ∧
    ∀ mask, l.wordMask = some mask → if task.kind = .set then val &&& mask = 0#64 else val &&& mask = mask
  | .account task => task.Ok order chunks ∧ task.kind ≠ .undo
  | .bug => False

theorem PoolPc.Ok.task {order : ℕ} {chunks : List GenPoolChunk} {pc : PoolPc}
    (h : pc.Ok order chunks) {task : Task} (ht : pc.task? = some task) : task.Ok order chunks := by
  cases pc with
  | load _ l => exact Option.some.inj ht ▸ h.1
  | cmpxchg _ l val => exact Option.some.inj ht ▸ h.1
  | account _ => exact Option.some.inj ht ▸ h.1
  | _ => cases ht

/-- A live block is inside of its chunk. -/
structure Block.Ok (chunks : List GenPoolChunk) (b : Block) : Prop where
  chunk_mem : b.chunk ∈ chunks
  nr_pos : 0 < b.nr
  bound : b.startBit + b.nr ≤ endBit order b.chunk

theorem Task.Ok.mono {order : ℕ} {chunks chunks' : List GenPoolChunk} {task : Task} (h : task.Ok order chunks)
    (hsub : chunks ⊆ chunks') : task.Ok order chunks' :=
  ⟨hsub h.chunk_mem, List.Subset.trans h.rest_subset hsub, h.bound, h.size_pos, h.allocSize, h.nr_pos⟩

theorem PoolPc.Ok.mono {order : ℕ} {chunks chunks' : List GenPoolChunk} {pc : PoolPc} (h : pc.Ok order chunks)
    (hsub : chunks ⊆ chunks') : pc.Ok order chunks' := by
  cases pc with
  | idle => trivial
  | walk size rest => exact ⟨h.1, h.2.1, List.Subset.trans h.2.2 hsub⟩
  | search size c rest startBit => exact ⟨h.1, h.2.1, hsub h.2.2.1, List.Subset.trans h.2.2.2 hsub⟩
  | load task l => exact ⟨h.1.mono hsub, h.2⟩
  | cmpxchg task l val => exact ⟨h.1.mono hsub, h.2⟩
  | account task => exact ⟨h.1.mono hsub, h.2⟩
  | bug => exact h

/-- What holds between the steps. -/
structure PoolInv [Fintype τ] (s : PoolState τ) : Prop where
  chunk_le : ∀ c ∈ s.chunks, 0 < c.startAddr ∧ c.startAddr ≤ c.endAddr
  apart : s.chunks.Pairwise GenPoolChunk.Apart
  pcOk : ∀ t, (s.pc t).Ok order s.chunks
  live_nodup : s.live.Nodup
  liveOk : ∀ b ∈ s.live, b.Ok order s.chunks
  tenancy : Tenancy s.taken s.holds
  avail : ∀ c ∈ s.chunks, s.avail c.addr + s.charged c.addr * 2 ^ order = chunkSize c

end Invariant

end KernelModules
