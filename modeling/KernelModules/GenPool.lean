import KernelModules.BitWords
import KernelModules.Interleaving
import Mathlib.Algebra.Order.Ring.Int
import Mathlib.Data.Fintype.BigOperators

/-!
# The pool allocator

`genalloc.c` hands out blocks of special memory. A chunk of memory has a bitmap with a bit for
every `2 ^ min_alloc_order` bytes. Nothing is locked : `set_bits_ll` and `clear_bits_ll` read a
word and replace it by `cmpxchg`, and an allocation that meets a bit another one has set clears
what it has set itself and searches again.

The parties of the interleaving are threads that allocate and free. Their steps are the accesses
to shared memory : one load or one `cmpxchg` of a word of a bitmap, one access to `avail`. The
search of `algo` reads the bitmap while others change it, so it may return any place that is
inside of the bitmap.

`avail` is changed after the bits, so it may say less than there is, and more : while a block is
freed, two allocations may both pass the test on `avail` and bring it below zero. An allocation that
reads it then takes it for a large number.

A block is live from the step in which `gen_pool_alloc_algo_owner` returns it to the step in which
`gen_pool_free_owner` is called with it.
-/

namespace KernelModules

open BitWords

/-! ## Pools -/

/-- `struct gen_pool_chunk` at the address `addr`, without its bitmap and `avail`. -/
structure GenPoolChunk where
  addr : ℕ
  physAddr : ℕ
  owner : ℕ
  startAddr : ℕ
  endAddr : ℕ
deriving DecidableEq, Repr

/-- `chunk_size` -/
def chunkSize (c : GenPoolChunk) : ℕ :=
  c.endAddr - c.startAddr + 1

/-- The `end_bit` of a chunk. -/
def endBit (order : ℕ) (c : GenPoolChunk) : ℕ :=
  chunkSize c / 2 ^ order

/-- The `nbits` of an allocation of `size` bytes, `(size + (1UL << order) - 1) >> order`. -/
def nbitsOf (order size : ℕ) : ℕ :=
  (size + 2 ^ order - 1) % 2 ^ 64 / 2 ^ order

/-- `nr` bits of the bitmap of a chunk from `startBit`. -/
structure Block where
  chunk : GenPoolChunk
  startBit : ℕ
  nr : ℕ
deriving DecidableEq, Repr

namespace Block

/-- The first byte of a block. -/
def first (order : ℕ) (b : Block) : ℕ :=
  b.chunk.startAddr + b.startBit * 2 ^ order

/-- The first byte after a block. -/
def past (order : ℕ) (b : Block) : ℕ :=
  b.chunk.startAddr + (b.startBit + b.nr) * 2 ^ order

end Block

/-! ## Words of a bitmap -/

/-- The variables of `bitmap_set_ll` and `bitmap_clear_ll` at the head of the loop. `bits` is
`bits_to_set` or `bits_to_clear`, `mask` is `mask_to_set` or `mask_to_clear`. -/
structure LlLoop where
  p : ℕ
  nr : ℕ
  size : ℕ
  bits : ℕ
  mask : BitVec 64
deriving DecidableEq, Repr

/-- The loop before its first word. -/
def LlLoop.init (start nr : ℕ) : LlLoop :=
  ⟨start / 64, nr, start + nr, 64 - start % 64, firstWordMask start⟩

/-- The mask for the word at `p`. `none` if no bits remain. -/
def LlLoop.wordMask (l : LlLoop) : Option (BitVec 64) :=
  if l.bits ≤ l.nr then some l.mask
  else if l.nr ≠ 0 then some (l.mask &&& lastWordMask l.size)
  else none

/-- The loop after the word at `p`. Nothing remains after a word that is not used to its end. -/
def LlLoop.advance (l : LlLoop) : LlLoop :=
  if l.bits ≤ l.nr then
    { l with p := l.p + 1, nr := l.nr - l.bits, bits := 64, mask := BitVec.allOnes 64 }
  else { l with nr := 0 }

/-! ## Threads -/

/-- What a thread does to the bits of its block. -/
inductive TaskKind where
  | set
  | undo
  | free
deriving DecidableEq, Repr

/-- A call of `bitmap_set_ll`, or one of `bitmap_clear_ll` to undo it or to free, with `start_bit`
and the number of bits. An allocation also keeps its size and the chunks it has not tried. -/
structure Task where
  kind : TaskKind
  size : ℕ
  chunk : GenPoolChunk
  rest : List GenPoolChunk
  startBit : ℕ
  nr : ℕ
deriving DecidableEq, Repr

/-- Where a thread is. `bug` is a `BUG_ON` that was hit. -/
inductive PoolPc where
  | idle
  | walk (size : ℕ) (rest : List GenPoolChunk)
  | search (size : ℕ) (chunk : GenPoolChunk) (rest : List GenPoolChunk) (startBit : ℕ)
  | load (task : Task) (l : LlLoop)
  | cmpxchg (task : Task) (l : LlLoop) (val : BitVec 64)
  | account (task : Task)
  | bug
deriving DecidableEq, Repr

/-- The test of `set_bits_ll` and `clear_bits_ll` on the value they have read. If the bits cannot
be set, those that are set so far are cleared. -/
def Task.test (task : Task) (l : LlLoop) (mask val : BitVec 64) : PoolPc :=
  match task.kind with
  | .set =>
    if val &&& mask ≠ 0#64 then
      .load { task with kind := .undo, nr := task.nr - l.nr }
        (LlLoop.init task.startBit (task.nr - l.nr))
    else .cmpxchg task l val
  | .undo | .free => if val &&& mask ≠ mask then .bug else .cmpxchg task l val

/-- The value `cmpxchg` writes. -/
def Task.newVal (task : Task) (mask val : BitVec 64) : BitVec 64 :=
  match task.kind with
  | .set => val ||| mask
  | .undo | .free => val &&& ~~~mask

/-- Where a thread goes on when no bits remain. -/
def Task.return (task : Task) : PoolPc :=
  match task.kind with
  | .set | .free => .account task
  | .undo => .search task.size task.chunk task.rest task.startBit

/-- The block of the task. -/
def Task.block (task : Task) : Block :=
  ⟨task.chunk, task.startBit, task.nr⟩

variable {τ : Type}

/-- A pool, its threads, and the blocks that are live. Bitmaps and `avail` are kept by the address
of their chunk. -/
structure PoolState (τ : Type) where
  chunks : List GenPoolChunk := []
  bits : ℕ → Words := fun _ _ => 0#64
  avail : ℕ → ℤ := fun _ => 0
  pc : τ → PoolPc := fun _ => .idle
  live : List Block := []

variable [DecidableEq τ]

/-- A thread goes on. -/
def PoolState.setPc (s : PoolState τ) (t : τ) (pc : PoolPc) : PoolState τ :=
  { s with pc := Function.update s.pc t pc }

/-- `cmpxchg` succeeds. -/
def PoolState.write (s : PoolState τ) (t : τ) (task : Task) (l : LlLoop) (val : BitVec 64) :
    PoolState τ :=
  { s with
    bits := Function.update s.bits task.chunk.addr
      (Function.update (s.bits task.chunk.addr) l.p val)
    pc := Function.update s.pc t (.load task l.advance) }

/-- `gen_pool_add_owner` -/
def genPoolAddOwner (c : GenPoolChunk) (s : PoolState τ) : PoolState τ :=
  { s with
    chunks := c :: s.chunks
    bits := Function.update s.bits c.addr fun _ => 0#64
    avail := Function.update s.avail c.addr (chunkSize c) }

variable (order : ℕ)

/-- `gen_pool_free_owner` up to `bitmap_clear_ll`. -/
def genPoolFreeOwner (t : τ) (addr size : ℕ) (s : PoolState τ) : PoolState τ :=
  match s.chunks.find? fun c => c.startAddr ≤ addr && addr ≤ c.endAddr with
  | none => s.setPc t .bug
  | some c =>
    if c.endAddr < addr + size - 1 then s.setPc t .bug
    else
      let startBit := (addr - c.startAddr) / 2 ^ order
      let nbits := nbitsOf order size
      { s with
        pc := Function.update s.pc t
          (.load ⟨.free, size, c, [], startBit, nbits⟩ (LlLoop.init startBit nbits))
        live := s.live.erase ⟨c, startBit, nbits⟩ }

/-- The bits of an allocation of `size` bytes are searched from `startBit` on. -/
def genPoolFound (t : τ) (startBit : ℕ) (s : PoolState τ) : Option (PoolState τ) :=
  match s.pc t with
  | .search size c rest _ =>
    let nbits := nbitsOf order size
    -- `algo` gets an `unsigned int`, and keeps inside of the bitmap
    if startBit < endBit order c → startBit + nbits % 2 ^ 32 ≤ endBit order c then
      some (s.setPc t
        (if endBit order c ≤ startBit then .walk size rest
        else .load ⟨.set, size, c, rest, startBit, nbits⟩ (LlLoop.init startBit nbits)))
    else none
  | _ => none

/-- `atomic_long_sub` at the end of an allocation. The block is live. -/
def genPoolAllocEnd (t : τ) (task : Task) (s : PoolState τ) : PoolState τ :=
  let a := task.chunk.addr
  { s with
    avail := Function.update s.avail a (s.avail a - task.nr * 2 ^ order)
    pc := Function.update s.pc t .idle
    live := task.block :: s.live }

/-- `atomic_long_add` at the end of a free. -/
def genPoolFreeEnd (t : τ) (task : Task) (s : PoolState τ) : PoolState τ :=
  let a := task.chunk.addr
  { s with
    avail := Function.update s.avail a (s.avail a + task.nr * 2 ^ order)
    pc := Function.update s.pc t .idle }

/-- The next step of a thread. -/
def threadStep (t : τ) (s : PoolState τ) : Option (PoolState τ) :=
  match s.pc t with
  | .walk _ [] => some (s.setPc t .idle)
  | .walk size (c :: rest) =>
    some (s.setPc t
      (if (s.avail c.addr % 2 ^ 64).toNat < size then .walk size rest else .search size c rest 0))
  | .load task l =>
    match l.wordMask with
    | none => some (s.setPc t task.return)
    | some mask => some (s.setPc t (task.test l mask (s.bits task.chunk.addr l.p)))
  | .cmpxchg task l val =>
    match l.wordMask with
    | none => none
    | some mask =>
      if s.bits task.chunk.addr l.p = val then some (s.write t task l (task.newVal mask val))
      else some (s.setPc t (task.test l mask (s.bits task.chunk.addr l.p)))
  | .account task =>
    match task.kind with
    | .set => some (genPoolAllocEnd order t task s)
    | .free => some (genPoolFreeEnd order t task s)
    | .undo => none
  | .idle | .search _ _ _ _ | .bug => none

/-! ## Schedules -/

/-- Memory is added, a thread calls `gen_pool_alloc_algo_owner` or `gen_pool_free_owner`, its search
returns, or it takes its next step. -/
inductive PoolAct (τ : Type) where
  | add (c : GenPoolChunk)
  | alloc (t : τ) (size : ℕ)
  | free (t : τ) (addr size : ℕ)
  | found (t : τ) (startBit : ℕ)
  | step (t : τ)

/-- A step of the pool; none if the thread is elsewhere. -/
def poolStep : PoolAct τ → PoolState τ → Option (PoolState τ)
  | .add c, s => some (genPoolAddOwner c s)
  | .alloc t size, s =>
    if s.pc t = .idle then some (s.setPc t (if size = 0 then .idle else .walk size s.chunks)) else none
  | .free t addr size, s =>
    if s.pc t = .idle then some (genPoolFreeOwner order t addr size s) else none
  | .found t startBit, s => genPoolFound order t startBit s
  | .step t, s => threadStep order t s

/-- `gen_pool_destroy` finds no bit that is set. -/
def genPoolDestroy (s : PoolState τ) : Bool :=
  s.chunks.all fun c => (List.range (endBit order c)).all fun i =>
    !(s.bits c.addr (i / 64)).getLsbD (i % 64)

/-- `gen_pool_avail` -/
def genPoolAvail (s : PoolState τ) : ℤ :=
  (s.chunks.map fun c => s.avail c.addr).sum

/-- `gen_pool_size` -/
def genPoolSize (s : PoolState τ) : ℕ :=
  (s.chunks.map chunkSize).sum

/-- A size that can be asked for : rounding it up does not overflow, and its bits are counted by an
`unsigned int`. -/
structure AllocSize (size : ℕ) : Prop where
  add_le : size + 2 ^ order ≤ 2 ^ 64
  bits_lt : nbitsOf order size < 2 ^ 32

/-- The memory of two chunks is apart. -/
def GenPoolChunk.Apart (c c' : GenPoolChunk) : Prop :=
  c.addr ≠ c'.addr ∧ (c.endAddr < c'.startAddr ∨ c'.endAddr < c.startAddr)

/-- What the callers of the pool keep to. Memory that is added is apart from the memory of the pool
and does not start at address 0. What is freed is a live block. -/
def PoolClient : PoolAct τ → PoolState τ → Prop
  | .add c, s => (0 < c.startAddr ∧ c.startAddr ≤ c.endAddr) ∧ ∀ c' ∈ s.chunks, c.Apart c'
  | .alloc _ size, _ => AllocSize order size
  | .free _ addr size, s => ∃ b ∈ s.live, addr = b.first order ∧ nbitsOf order size = b.nr ∧
    0 < size ∧ addr + size ≤ b.past order
  | .found _ _, _ | .step _, _ => True

instance (size : ℕ) : Decidable (AllocSize order size) :=
  decidable_of_iff (size + 2 ^ order ≤ 2 ^ 64 ∧ nbitsOf order size < 2 ^ 32)
    ⟨fun h => ⟨h.1, h.2⟩, fun h => ⟨h.add_le, h.bits_lt⟩⟩

instance (c c' : GenPoolChunk) : Decidable (c.Apart c') :=
  inferInstanceAs (Decidable (_ ∧ (_ ∨ _)))

instance (a : PoolAct τ) (s : PoolState τ) : Decidable (PoolClient order a s) :=
  match a with
  | .add c => inferInstanceAs (Decidable ((_ ∧ _) ∧ ∀ c' ∈ s.chunks, c.Apart c'))
  | .alloc _ size => inferInstanceAs (Decidable (AllocSize order size))
  | .free _ addr size => inferInstanceAs (Decidable (∃ b ∈ s.live, addr = b.first order ∧
      nbitsOf order size = b.nr ∧ 0 < size ∧ addr + size ≤ b.past order))
  | .found _ _ | .step _ => isTrue trivial

end KernelModules
