import KernelModules.Errno
import Mathlib.Algebra.Order.Ring.Int
import Mathlib.Data.List.Basic

/-!
# The virtio shim

`linux_virtio.c` gives a Linux driver the virtqueue interface of Linux on top of FreeBSD's.
`lkpi_virtqueue_add_sgs` takes an array of scatterlist chains, the readable ones first, and
flattens it into the one segment list `virtqueue_enqueue` takes. The list was allocated by
`lkpi_virtio_find_vqs` with room for a full ring, or for the largest indirect list if that is
longer.

FreeBSD's virtqueue is outside : `BsdVirtqueue` is its interface, and
`BsdVirtqueue.Documented` what is documented about `virtqueue_enqueue`.
-/

namespace KernelModules

/-- `VIRTIO_MAX_INDIRECT` : one page of descriptors. -/
def VIRTIO_MAX_INDIRECT : ℕ := 256

/-- An entry of a scatterlist chain : the address it was mapped to, zero until it is, its
physical address, and its length. -/
structure Scatterlist where
  dmaAddress : ℕ
  phys : ℕ
  length : ℕ
deriving DecidableEq, Repr

/-- A segment of FreeBSD's `struct sglist`. -/
structure SglistSeg where
  ssPaddr : ℕ
  ssLen : ℕ
deriving DecidableEq, Repr

/-- `lkpi_sg_paddr` -/
def lkpiSgPaddr (sg : Scatterlist) : ℕ :=
  if sg.dmaAddress ≠ 0 then sg.dmaAddress else sg.phys

/-! ## FreeBSD's virtqueue -/

/-- The interface of FreeBSD's virtqueue. `onRing` are the cookies of the commands on it. -/
structure BsdVirtqueue (β : Type) where
  virtqueueSize : β → ℕ
  virtqueueNfree : β → ℕ
  virtqueueEnqueue (cookie : ℕ) (segs : List SglistSeg) (readable writable : ℕ) : β → Int × β
  onRing : β → List ℕ

/-- The descriptors `n` segments take. -/
def descriptorsFor (indirect : Bool) (n : ℕ) : ℕ :=
  if indirect = true ∧ 2 ≤ n ∧ n ≤ VIRTIO_MAX_INDIRECT then 1 else n

/-- What is documented of `virtqueue_enqueue` : without a free descriptor it fails with
`ENOSPC`, with too few for the segments with `EMSGSIZE`, and otherwise it puts the command
on the ring. -/
structure BsdVirtqueue.Documented {β : Type} (V : BsdVirtqueue β) (indirect : Bool) : Prop where
  nfree_le : ∀ v, V.virtqueueNfree v ≤ V.virtqueueSize v
  full : ∀ {v cookie segs readable writable}, segs ≠ [] → V.virtqueueNfree v = 0 →
    V.virtqueueEnqueue cookie segs readable writable v = (ENOSPC, v)
  short : ∀ {v cookie segs readable writable}, segs ≠ [] → V.virtqueueNfree v ≠ 0 →
    V.virtqueueNfree v < descriptorsFor indirect segs.length →
    V.virtqueueEnqueue cookie segs readable writable v = (EMSGSIZE, v)
  fits : ∀ {v cookie segs readable writable}, segs ≠ [] → V.virtqueueNfree v ≠ 0 →
    descriptorsFor indirect segs.length ≤ V.virtqueueNfree v →
    (V.virtqueueEnqueue cookie segs readable writable v).1 = 0 ∧
      V.onRing (V.virtqueueEnqueue cookie segs readable writable v).2 = V.onRing v ++ [cookie]

/-! ## The shim -/

/-- The wrapper of a virtqueue : its index, and the capacity of its segment list. -/
structure LkpiVirtqueue where
  index : ℕ
  vqSgmax : ℕ
deriving DecidableEq, Repr

/-- `vq_sgmax` as `lkpi_virtio_find_vqs` sets it : the ring size, or the indirect limit if
indirect descriptors are negotiated and it is larger. -/
def vqSgmaxFor (indirect : Bool) (size : ℕ) : ℕ :=
  let limit := if indirect then VIRTIO_MAX_INDIRECT else 0
  if limit ≠ 0 ∧ limit > size then limit else size

/-- `lkpi_virtio_find_vqs`, given what the transport returns and the sizes of the rings it
allocated. -/
def lkpiVirtioFindVqs (indirect : Bool) (allocError setupError : Int) (sizes : List ℕ) :
    Except Int (List LkpiVirtqueue) :=
  if allocError ≠ 0 ∨ setupError ≠ 0 then .error (-ENODEV)
  else .ok (sizes.mapIdx fun i size => ⟨i, vqSgmaxFor indirect size⟩)

/-- The segments written so far, and how many of them are readable. -/
structure SegFill where
  segs : List SglistSeg := []
  readable : ℕ := 0
deriving DecidableEq, Repr

/-- The inner loop of `lkpi_virtqueue_add_sgs`, over one chain. `none` if the list is full. -/
def addChain (sgmax : ℕ) (out : Bool) : List Scatterlist → SegFill → Option SegFill
  | [], acc => some acc
  | s :: chain, acc =>
    if acc.segs.length ≥ sgmax then none
    else addChain sgmax out chain
      ⟨acc.segs ++ [⟨lkpiSgPaddr s, s.length⟩], if out then acc.readable + 1 else acc.readable⟩

/-- The outer loop, over the chains from index `i` on. -/
def addChains (sgmax outSgs : ℕ) : ℕ → List (List Scatterlist) → SegFill → Option SegFill
  | _, [], acc => some acc
  | i, chain :: chains, acc =>
    (addChain sgmax (i < outSgs) chain acc).bind (addChains sgmax outSgs (i + 1) chains)

/-- `lkpi_virtqueue_add_sgs`. The array has `out_sgs + in_sgs` chains. -/
def lkpiVirtqueueAddSgs {β : Type} (V : BsdVirtqueue β) (vq : LkpiVirtqueue)
    (sgs : List (List Scatterlist)) (outSgs : ℕ) (data : ℕ) (v : β) : Int × β :=
  match addChains vq.vqSgmax outSgs 0 sgs {} with
  | none => (-ENOSPC, v)
  | some acc =>
    let r := V.virtqueueEnqueue data acc.segs acc.readable (acc.segs.length - acc.readable) v
    if r.1 ≠ 0 then (-r.1, r.2) else (0, r.2)

/-- The number of entries of an array of chains. -/
def chainEntries (sgs : List (List Scatterlist)) : ℕ :=
  (sgs.map List.length).sum

theorem chainEntries_concat (sgs : List (List Scatterlist)) (chain : List Scatterlist) :
    chainEntries (sgs ++ [chain]) = chainEntries sgs + chain.length := by
  simp [chainEntries]

/-! ## Flattening -/

theorem addChain_eq_some {sgmax : ℕ} {out : Bool} :
    ∀ {chain : List Scatterlist} {acc acc' : SegFill}, addChain sgmax out chain acc = some acc' →
      acc'.segs.length = acc.segs.length + chain.length
  | [], acc, acc', h => by
    obtain rfl := Option.some.inj h
    rfl
  | s :: chain, acc, acc', h => by
    rw [addChain] at h
    split at h
    · simp at h
    · have hlen := addChain_eq_some h
      simp only [List.length_append, List.length_cons, List.length_nil] at hlen ⊢
      omega

/-- A chain fits exactly if its entries do. -/
theorem addChain_isSome (sgmax : ℕ) (out : Bool) : ∀ (chain : List Scatterlist) (acc : SegFill),
    acc.segs.length ≤ sgmax →
      ((addChain sgmax out chain acc).isSome ↔ acc.segs.length + chain.length ≤ sgmax)
  | [], acc, h => by simpa [addChain] using h
  | s :: chain, acc, h => by
    rw [addChain]
    split
    · next hfull =>
      simp only [Option.isSome_none, Bool.false_eq_true, List.length_cons, false_iff]
      omega
    · next hroom =>
      rw [addChain_isSome sgmax out chain _ (by
        simp only [List.length_append, List.length_singleton]
        omega)]
      simp only [List.length_append, List.length_cons, List.length_nil]
      omega

/-- The chains fit exactly if all their entries do, and then there is a segment for each. -/
theorem addChains_cases (sgmax outSgs : ℕ) :
    ∀ (sgs : List (List Scatterlist)) (i : ℕ) (acc : SegFill), acc.segs.length ≤ sgmax →
      (acc.segs.length + chainEntries sgs ≤ sgmax ∧ ∃ acc',
        addChains sgmax outSgs i sgs acc = some acc' ∧
          acc'.segs.length = acc.segs.length + chainEntries sgs) ∨
      (sgmax < acc.segs.length + chainEntries sgs ∧ addChains sgmax outSgs i sgs acc = none)
  | [], i, acc, h => by
    exact Or.inl ⟨by simpa [chainEntries] using h, acc, rfl, by simp [chainEntries]⟩
  | chain :: sgs, i, acc, h => by
    have hsum : chainEntries (chain :: sgs) = chain.length + chainEntries sgs := by
      simp [chainEntries]
    have hfits := addChain_isSome sgmax (i < outSgs) chain acc h
    rw [addChains, hsum]
    cases hc : addChain sgmax (i < outSgs) chain acc with
    | none =>
      rw [hc] at hfits
      simp only [Option.isSome_none, Bool.false_eq_true, false_iff, Nat.not_le] at hfits
      exact Or.inr ⟨by omega, rfl⟩
    | some acc₁ =>
      have hlen := addChain_eq_some hc
      rw [hc] at hfits
      simp only [Option.isSome_some, true_iff] at hfits
      rcases addChains_cases sgmax outSgs sgs (i + 1) acc₁ (by omega) with
        ⟨hle, acc₂, he, hlen₂⟩ | ⟨hlt, he⟩
      · exact Or.inl ⟨by omega, acc₂, he, by omega⟩
      · exact Or.inr ⟨by omega, he⟩

/-! ## What reaches the ring -/

variable {β : Type} {V : BsdVirtqueue β}

theorem descriptorsFor_pos (indirect : Bool) {n : ℕ} (hn : 0 < n) :
    0 < descriptorsFor indirect n := by
  unfold descriptorsFor
  split
  · exact Nat.one_pos
  · exact hn

/-- The shim puts a command on the ring exactly if its entries fit into the segment list and
FreeBSD finds the descriptors for them. -/
theorem lkpiVirtqueueAddSgs_iff {indirect : Bool} (hV : V.Documented indirect) (vq : LkpiVirtqueue)
    {sgs : List (List Scatterlist)} (hpos : 0 < chainEntries sgs) (outSgs data : ℕ) (v : β) :
    (lkpiVirtqueueAddSgs V vq sgs outSgs data v).1 = 0 ∧
        V.onRing (lkpiVirtqueueAddSgs V vq sgs outSgs data v).2 = V.onRing v ++ [data] ↔
      chainEntries sgs ≤ vq.vqSgmax ∧
        descriptorsFor indirect (chainEntries sgs) ≤ V.virtqueueNfree v := by
  have hdesc := descriptorsFor_pos indirect hpos
  rcases addChains_cases vq.vqSgmax outSgs sgs 0 {} (Nat.zero_le _) with
    ⟨hle, acc, he, hlen⟩ | ⟨hlt, he⟩
  · simp only [List.length_nil, Nat.zero_add] at hle hlen
    have hne : acc.segs ≠ [] := List.ne_nil_of_length_pos (hlen ▸ hpos)
    rw [← hlen] at hdesc hle ⊢
    simp only [lkpiVirtqueueAddSgs, he]
    by_cases hfree : V.virtqueueNfree v = 0
    · rw [hV.full hne hfree, if_pos (by decide : ENOSPC ≠ 0)]
      refine iff_of_false (fun h => absurd h.1 (by decide : -ENOSPC ≠ 0)) (fun h => ?_)
      omega
    · rcases Nat.lt_or_ge (V.virtqueueNfree v) (descriptorsFor indirect acc.segs.length) with
        hlt | hge
      · rw [hV.short hne hfree hlt, if_pos (by decide : EMSGSIZE ≠ 0)]
        refine iff_of_false (fun h => absurd h.1 (by decide : -EMSGSIZE ≠ 0)) (fun h => ?_)
        omega
      · obtain ⟨hret, hring⟩ := hV.fits hne hfree hge
        rw [if_neg (not_not.2 hret)]
        exact iff_of_true ⟨rfl, hring⟩ ⟨hle, hge⟩
  · simp only [List.length_nil, Nat.zero_add] at hlt
    simp only [lkpiVirtqueueAddSgs, he]
    refine iff_of_false (fun h => absurd h.1 (by decide : -ENOSPC ≠ 0)) (fun h => ?_)
    omega

/-! ## A counted ring -/

/-- A ring as a count of free descriptors and the cookies on it. -/
structure CountedRing where
  size : ℕ
  free : ℕ
  cookies : List ℕ := []
  free_le : free ≤ size
deriving DecidableEq

/-- `virtqueue_enqueue` on a counted ring. -/
def CountedRing.enqueue (indirect : Bool) (cookie : ℕ) (segs : List SglistSeg) (v : CountedRing) :
    Int × CountedRing :=
  if segs = [] then (EINVAL, v)
  else if v.free = 0 then (ENOSPC, v)
  else if v.free < descriptorsFor indirect segs.length then (EMSGSIZE, v)
  else (0, { size := v.size
             free := v.free - descriptorsFor indirect segs.length
             cookies := v.cookies ++ [cookie]
             free_le := Nat.le_trans (Nat.sub_le _ _) v.free_le })

/-- The functions of a ring that counts its descriptors. -/
def countedVirtqueue (indirect : Bool) : BsdVirtqueue CountedRing where
  virtqueueSize := CountedRing.size
  virtqueueNfree := CountedRing.free
  virtqueueEnqueue := fun cookie segs _ _ v => v.enqueue indirect cookie segs
  onRing := CountedRing.cookies

theorem countedVirtqueue_documented (indirect : Bool) :
    (countedVirtqueue indirect).Documented indirect where
  nfree_le v := v.free_le
  full hne hfree := by
    have hfree' : CountedRing.free _ = 0 := hfree
    simp only [countedVirtqueue, CountedRing.enqueue, if_neg hne, if_pos hfree']
  short hne hfree hlt := by
    have hfree' : ¬ CountedRing.free _ = 0 := hfree
    have hlt' : CountedRing.free _ < _ := hlt
    simp only [countedVirtqueue, CountedRing.enqueue, if_neg hne, if_neg hfree', if_pos hlt']
  fits hne hfree hge := by
    have hfree' : ¬ CountedRing.free _ = 0 := hfree
    have hge' : ¬ CountedRing.free _ < _ := Nat.not_lt.2 hge
    simp only [countedVirtqueue, CountedRing.enqueue, if_neg hne, if_neg hfree', if_neg hge']
    exact ⟨trivial, trivial⟩

end KernelModules
