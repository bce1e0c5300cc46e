import KernelModules.VirtioShim

/-!
# Queueing virtio-gpu control commands

`virtgpu_vq.c` : `virtio_gpu_queue_fenced_ctrl_buffer` makes up to three scatterlist chains of
a command (the command, its data, the response) and counts their entries;
`virtio_gpu_queue_ctrl_sgs` waits until as many descriptors are free and hands the chains to
the shim. With indirect descriptors it waits for one only, whatever the count. The shim and
FreeBSD take a command of more than `VIRTIO_MAX_INDIRECT` segments directly, one descriptor
per segment, so a long command can get past the wait and be refused
(`ctrlCommand_on_ring_iff`). The driver only warns about that.
-/

namespace KernelModules

/-- `PAGE_SIZE` -/
def PAGE_SIZE : ℕ := 4096

/-- What the driver asks about memory, and which allocations succeed. -/
structure GpuMemory where
  isVmallocAddr : ℕ → Bool
  /-- The physical address behind a buffer. -/
  phys : ℕ → ℕ
  /-- The physical address of the page an address is in, if there is one. -/
  vmallocToPage : ℕ → Option ℕ
  kmallocOk : Bool
  sgAllocTable : ℕ → Int

/-- `struct virtio_gpu_vbuffer`, at the address `addr`. -/
structure VirtioGpuVbuffer where
  addr : ℕ
  buf : ℕ
  size : ℕ
  dataBuf : ℕ
  dataSize : ℕ
  respBuf : ℕ
  respSize : ℕ
deriving DecidableEq, Repr

/-- The value of a 32-bit pattern as an `int`. -/
def toInt32 (n : ℕ) : Int :=
  if n % 2 ^ 32 < 2 ^ 31 then (n % 2 ^ 32 : ℕ) else (n % 2 ^ 32 : ℕ) - 2 ^ 32

/-- `DIV_ROUND_UP(offset + size, PAGE_SIZE)` in 32 bits, for the offset of `data`. -/
def sgEnts (data size : ℕ) : ℕ :=
  ((data % PAGE_SIZE + size) % 2 ^ 32 + (PAGE_SIZE - 1)) % 2 ^ 32 / PAGE_SIZE

/-- The loop of `vmalloc_to_sgt` over the `n` entries that are left. -/
def fillSgt (mem : GpuMemory) : ℕ → ℕ → ℕ → ℕ → Option (List Scatterlist)
  | 0, _, _, _ => some []
  | n + 1, data, offset, size =>
    match mem.vmallocToPage data with
    | none => none
    | some pg =>
      let s := min ((PAGE_SIZE - offset : ℕ) : Int) (toInt32 size)
      (fillSgt mem n ((data + s) % 2 ^ 64).toNat 0 ((size - s) % 2 ^ 32).toNat).map
        (⟨0, pg + offset, (s % 2 ^ 32).toNat⟩ :: ·)

/-- `vmalloc_to_sgt` : the number of entries and the table. -/
def vmallocToSgt (mem : GpuMemory) (data size : ℕ) : Option (ℕ × List Scatterlist) :=
  if mem.kmallocOk = false then none
  else if mem.sgAllocTable (sgEnts data size) ≠ 0 then none
  else (fillSgt mem (sgEnts data size) data (data % PAGE_SIZE) size).map (sgEnts data size, ·)

/-- `sg_init_one` -/
def sgInitOne (mem : GpuMemory) (buf len : ℕ) : List Scatterlist :=
  [⟨0, mem.phys buf, len⟩]

/-- The chains of a command, readable ones first, and the count of their entries. -/
structure CtrlSgs where
  elemcnt : ℕ
  sgs : List (List Scatterlist)
  outcnt : ℕ
  incnt : ℕ

/-- The data of a command is set up. -/
def CtrlSgs.addOut (c : CtrlSgs) (elems : ℕ) (chain : List Scatterlist) : CtrlSgs :=
  ⟨c.elemcnt + elems, c.sgs ++ [chain], c.outcnt + 1, c.incnt⟩

/-- The response of a command is set up. -/
def CtrlSgs.addIn (c : CtrlSgs) (elems : ℕ) (chain : List Scatterlist) : CtrlSgs :=
  ⟨c.elemcnt + elems, c.sgs ++ [chain], c.outcnt, c.incnt + 1⟩

/-- `set up vcmd`, `set up vout`, `set up vresp` -/
def setUpCtrlSgs (mem : GpuMemory) (vbuf : VirtioGpuVbuffer) : Option CtrlSgs :=
  let c : CtrlSgs := ⟨1, [sgInitOne mem vbuf.buf vbuf.size], 1, 0⟩
  let c := if vbuf.dataSize ≠ 0 then
      if mem.isVmallocAddr vbuf.dataBuf then
        (vmallocToSgt mem vbuf.dataBuf vbuf.dataSize).map fun r => c.addOut r.1 r.2
      else some (c.addOut 1 (sgInitOne mem vbuf.dataBuf vbuf.dataSize))
    else some c
  c.map fun c => if vbuf.respSize ≠ 0 then
    c.addIn 1 (sgInitOne mem vbuf.respBuf vbuf.respSize) else c

/-- The control queue : the ring, the sequence number, the commands not yet notified, the
fences emitted, and the values warned about. -/
structure GpuCtrlq (β : Type) where
  ring : β
  seqno : ℕ := 0
  pendingCommands : ℕ := 0
  fences : List ℕ := []
  warned : List Int := []

variable {β : Type} (V : BsdVirtqueue β) (vq : LkpiVirtqueue)

/-- `virtio_gpu_queue_ctrl_sgs` once it is past the wait, with the ring `v`. -/
def submitCtrlSgs (vbuf : VirtioGpuVbuffer) (fence : Option ℕ) (c : CtrlSgs) (q : GpuCtrlq β)
    (v : β) : GpuCtrlq β :=
  let r := lkpiVirtqueueAddSgs V vq c.sgs c.outcnt vbuf.addr v
  { ring := r.2
    seqno := q.seqno + 1
    pendingCommands := q.pendingCommands + 1
    fences := q.fences ++ fence.toList
    warned := if r.1 ≠ 0 then q.warned ++ [r.1] else q.warned }

/-- The descriptors `virtio_gpu_queue_ctrl_sgs` waits for. -/
def waitedFor (hasIndirect : Bool) (elemcnt : ℕ) : ℕ :=
  if hasIndirect then 1 else elemcnt

/-- `virtio_gpu_queue_ctrl_sgs`. `rings` is the ring at each test of the wait; with none left
the driver is still asleep. -/
def virtioGpuQueueCtrlSgs (hasIndirect entered : Bool) (vbuf : VirtioGpuVbuffer)
    (fence : Option ℕ) (c : CtrlSgs) (q : GpuCtrlq β) (rings : List β) :
    Option (Int × GpuCtrlq β) :=
  if entered = false then some (-ENODEV, q)
  else
    (rings.find? fun v => waitedFor hasIndirect c.elemcnt ≤ V.virtqueueNfree v).map fun v =>
      (0, submitCtrlSgs V vq vbuf fence c q v)

/-- `virtio_gpu_queue_fenced_ctrl_buffer`. `entered` is what `drm_dev_enter` returns. -/
def virtioGpuQueueFencedCtrlBuffer (hasIndirect entered : Bool) (mem : GpuMemory)
    (vbuf : VirtioGpuVbuffer) (fence : Option ℕ) (q : GpuCtrlq β) (rings : List β) :
    Option (Int × GpuCtrlq β) :=
  match setUpCtrlSgs mem vbuf with
  | none => some (-ENOMEM, q)
  | some c => virtioGpuQueueCtrlSgs V vq hasIndirect entered vbuf fence c q rings

/-! ## Segments -/

/-- The segments of a command : one for the command, those of its data, one for the
response if it has one. -/
def segmentsOf (mem : GpuMemory) (vbuf : VirtioGpuVbuffer) : ℕ :=
  1 + (if vbuf.dataSize = 0 then 0
    else if mem.isVmallocAddr vbuf.dataBuf then sgEnts vbuf.dataBuf vbuf.dataSize else 1) +
    if vbuf.respSize = 0 then 0 else 1

theorem length_fillSgt {mem : GpuMemory} : ∀ {n data offset size : ℕ} {chain : List Scatterlist},
    fillSgt mem n data offset size = some chain → chain.length = n
  | 0, _, _, _, chain, h => by
    obtain rfl := Option.some.inj h
    rfl
  | n + 1, data, offset, size, chain, h => by
    rw [fillSgt] at h
    split at h
    · simp at h
    · obtain ⟨rest, hrest, rfl⟩ := Option.map_eq_some_iff.1 h
      rw [List.length_cons, length_fillSgt hrest]

theorem vmallocToSgt_eq_some {mem : GpuMemory} {data size : ℕ} {r : ℕ × List Scatterlist}
    (h : vmallocToSgt mem data size = some r) :
    r.1 = sgEnts data size ∧ r.2.length = sgEnts data size := by
  unfold vmallocToSgt at h
  split at h
  · simp at h
  split at h
  · simp at h
  obtain ⟨chain, hchain, rfl⟩ := Option.map_eq_some_iff.1 h
  exact ⟨rfl, length_fillSgt hchain⟩

/-- The count and the chains agree on `n` entries. -/
def CtrlSgs.Counts (c : CtrlSgs) (n : ℕ) : Prop :=
  c.elemcnt = n ∧ chainEntries c.sgs = n

theorem CtrlSgs.Counts.addOut {c : CtrlSgs} {n : ℕ} (h : c.Counts n) {elems : ℕ}
    {chain : List Scatterlist} (hchain : chain.length = elems) :
    (c.addOut elems chain).Counts (n + elems) := by
  obtain ⟨rfl, hsgs⟩ := h
  exact ⟨rfl, by simp only [CtrlSgs.addOut, chainEntries_concat, hsgs, hchain]⟩

theorem CtrlSgs.Counts.addIn {c : CtrlSgs} {n : ℕ} (h : c.Counts n) {elems : ℕ}
    {chain : List Scatterlist} (hchain : chain.length = elems) :
    (c.addIn elems chain).Counts (n + elems) := by
  obtain ⟨rfl, hsgs⟩ := h
  exact ⟨rfl, by simp only [CtrlSgs.addIn, chainEntries_concat, hsgs, hchain]⟩

/-- The driver counts the entries of its chains right. -/
theorem setUpCtrlSgs_counts {mem : GpuMemory} {vbuf : VirtioGpuVbuffer} {c : CtrlSgs}
    (h : setUpCtrlSgs mem vbuf = some c) : c.Counts (segmentsOf mem vbuf) := by
  obtain ⟨c₁, h₁, rfl⟩ := Option.map_eq_some_iff.1 h
  have hout : c₁.Counts (1 + if vbuf.dataSize = 0 then 0
      else if mem.isVmallocAddr vbuf.dataBuf then sgEnts vbuf.dataBuf vbuf.dataSize else 1) := by
    have hcmd : CtrlSgs.Counts ⟨1, [sgInitOne mem vbuf.buf vbuf.size], 1, 0⟩ 1 := ⟨rfl, rfl⟩
    by_cases hdata : vbuf.dataSize = 0
    · rw [if_neg (not_not.2 hdata)] at h₁
      obtain rfl := Option.some.inj h₁
      rwa [if_pos hdata]
    · rw [if_pos hdata] at h₁
      rw [if_neg hdata]
      split at h₁
      · next hvm =>
        obtain ⟨r, hr, rfl⟩ := Option.map_eq_some_iff.1 h₁
        obtain ⟨hents, hlen⟩ := vmallocToSgt_eq_some hr
        rw [if_pos hvm, ← hents]
        exact hcmd.addOut (hlen.trans hents.symm)
      · next hvm =>
        obtain rfl := Option.some.inj h₁
        rw [if_neg hvm]
        exact hcmd.addOut rfl
  unfold segmentsOf
  by_cases hresp : vbuf.respSize = 0
  · rwa [if_neg (not_not.2 hresp), if_pos hresp]
  · rw [if_pos hresp, if_neg hresp]
    exact hout.addIn rfl

theorem segmentsOf_pos (mem : GpuMemory) (vbuf : VirtioGpuVbuffer) : 0 < segmentsOf mem vbuf := by
  unfold segmentsOf
  omega

/-! ## Descriptors -/

/-- The segment list holds a full ring, and the largest indirect list. -/
theorem vqSgmaxFor_eq_max (indirect : Bool) (size : ℕ) :
    vqSgmaxFor indirect size = max (if indirect then VIRTIO_MAX_INDIRECT else 0) size := by
  unfold vqSgmaxFor
  generalize (if indirect then VIRTIO_MAX_INDIRECT else 0) = limit
  dsimp only
  split <;> omega

/-- A command that got past the wait fits exactly if it is not both described directly and
waited for as if it were not. -/
theorem fits_iff_of_waitedFor {indirect : Bool} {n free size : ℕ}
    (hfree : free ≤ size) (hwait : waitedFor indirect n ≤ free) :
    n ≤ vqSgmaxFor indirect size ∧ descriptorsFor indirect n ≤ free ↔
      indirect = false ∨ n ≤ VIRTIO_MAX_INDIRECT ∨ n ≤ free := by
  rw [vqSgmaxFor_eq_max]
  cases indirect with
  | false =>
    have hdesc : descriptorsFor false n = n := if_neg (by simp)
    have hle : n ≤ free := hwait
    exact iff_of_true ⟨by omega, by omega⟩ (Or.inl rfl)
  | true =>
    have hone : 1 ≤ free := hwait
    simp only [if_true]
    by_cases hle : n ≤ VIRTIO_MAX_INDIRECT
    · have hdesc : descriptorsFor true n ≤ 1 := by
        simp only [descriptorsFor, true_and]
        split <;> omega
      exact iff_of_true ⟨by omega, by omega⟩ (Or.inr (Or.inl hle))
    · have hdesc : descriptorsFor true n = n := if_neg fun h => hle h.2.2
      rw [hdesc]
      constructor
      · exact fun h => Or.inr (Or.inr h.2)
      · rintro (h | h | h)
        · exact absurd h (by decide)
        · exact absurd h hle
        · exact ⟨by omega, h⟩

theorem vqSgmax_of_findVqs {indirect : Bool} {allocError setupError : Int} {sizes : List ℕ}
    {vqs : List LkpiVirtqueue}
    (h : lkpiVirtioFindVqs indirect allocError setupError sizes = .ok vqs) {i size : ℕ}
    {vq : LkpiVirtqueue} (hvq : vqs[i]? = some vq) (hsize : sizes[i]? = some size) :
    vq.vqSgmax = vqSgmaxFor indirect size := by
  unfold lkpiVirtioFindVqs at h
  split at h
  · simp at h
  · obtain rfl := Except.ok.inj h
    rw [List.getElem?_mapIdx, hsize] at hvq
    obtain rfl := Option.some.inj hvq
    rfl

/-! ## Queueing -/

variable {V} {vq}

/-- A command that gets past the wait is on the ring exactly if indirect descriptors are off,
or it has at most `VIRTIO_MAX_INDIRECT` segments, or there is a free descriptor for each. -/
theorem ctrlCommand_on_ring_iff {indirect : Bool} (hV : V.Documented indirect)
    {allocError setupError : Int} {sizes : List ℕ} {vqs : List LkpiVirtqueue}
    (hvqs : lkpiVirtioFindVqs indirect allocError setupError sizes = .ok vqs) {i : ℕ}
    (hvq : vqs[i]? = some vq) {mem : GpuMemory} {vbuf : VirtioGpuVbuffer} {c : CtrlSgs}
    (hc : setUpCtrlSgs mem vbuf = some c) {rings : List β} {v : β}
    (hpast : rings.find? (fun v => waitedFor indirect c.elemcnt ≤ V.virtqueueNfree v) = some v)
    (hsize : sizes[i]? = some (V.virtqueueSize v)) (fence : Option ℕ) (q : GpuCtrlq β) :
    virtioGpuQueueFencedCtrlBuffer V vq indirect true mem vbuf fence q rings =
        some (0, submitCtrlSgs V vq vbuf fence c q v) ∧
      ((lkpiVirtqueueAddSgs V vq c.sgs c.outcnt vbuf.addr v).1 = 0 ∧
          V.onRing (submitCtrlSgs V vq vbuf fence c q v).ring = V.onRing v ++ [vbuf.addr] ↔
        indirect = false ∨ segmentsOf mem vbuf ≤ VIRTIO_MAX_INDIRECT ∨
          segmentsOf mem vbuf ≤ V.virtqueueNfree v) := by
  obtain ⟨hcount, hentries⟩ := setUpCtrlSgs_counts hc
  have hpos := segmentsOf_pos mem vbuf
  have hwait : waitedFor indirect (segmentsOf mem vbuf) ≤ V.virtqueueNfree v := by
    simpa [hcount] using List.find?_some hpast
  refine ⟨?_, ?_⟩
  · simp [virtioGpuQueueFencedCtrlBuffer, hc, virtioGpuQueueCtrlSgs, hpast]
  · rw [← fits_iff_of_waitedFor (hV.nfree_le v) hwait,
      ← vqSgmax_of_findVqs hvqs hvq hsize, ← hentries]
    exact lkpiVirtqueueAddSgs_iff hV vq (hentries ▸ hpos) c.outcnt vbuf.addr v

/-! ## A command too long for an indirect list -/

/-- Memory in which every page is its own, with `vmalloc` addresses from `2 ^ 40` on. -/
def flatMemory : GpuMemory where
  isVmallocAddr a := decide (2 ^ 40 ≤ a)
  phys a := a
  vmallocToPage a := some (a / PAGE_SIZE * PAGE_SIZE)
  kmallocOk := true
  sgAllocTable _ := 0

/-- A command with `pages` pages of `vmalloc` data and a response. -/
def pagesCommand (pages : ℕ) : VirtioGpuVbuffer :=
  ⟨0x1000, 0x1080, 32, 2 ^ 40, pages * PAGE_SIZE, 0x10a0, 24⟩

/-- A ring of 64 descriptors, `free` of them free. -/
def ring64 (free : Fin 65) : CountedRing :=
  ⟨64, free, [], Nat.lt_succ_iff.1 free.2⟩

/-- With one free descriptor, a command of 256 segments still goes on the ring. -/
theorem ctrlCommand_on_ring_pagesCommand :
    ∃ c, setUpCtrlSgs flatMemory (pagesCommand 254) = some c ∧
      (lkpiVirtqueueAddSgs (countedVirtqueue true) ⟨0, 256⟩ c.sgs c.outcnt 0x1000
        (ring64 1)).1 = 0 ∧
      (countedVirtqueue true).onRing (submitCtrlSgs (countedVirtqueue true) ⟨0, 256⟩
        (pagesCommand 254) (some 1) c { ring := ring64 1 } (ring64 1)).ring = [0x1000] := by
  obtain ⟨c, hc⟩ := Option.isSome_iff_exists.1
    (by decide +kernel : (setUpCtrlSgs flatMemory (pagesCommand 254)).isSome)
  have hvqs : lkpiVirtioFindVqs true 0 0 [64, 16] = .ok [⟨0, 256⟩, ⟨1, 256⟩] := rfl
  have hpast : [ring64 0, ring64 1].find? (fun v => waitedFor true c.elemcnt ≤
      (countedVirtqueue true).virtqueueNfree v) = some (ring64 1) := rfl
  have h := ctrlCommand_on_ring_iff (countedVirtqueue_documented true) hvqs (i := 0) rfl hc hpast
    rfl (some 1) { ring := ring64 1 }
  exact ⟨c, hc, h.2.2 (Or.inr (Or.inl (by decide +kernel)))⟩

/-- With all 64 descriptors free, a command of 257 segments is past the wait and refused. -/
theorem ctrlCommand_not_on_ring :
    ∃ c, setUpCtrlSgs flatMemory (pagesCommand 255) = some c ∧
      [ring64 64].find? (fun v => waitedFor true c.elemcnt ≤
        (countedVirtqueue true).virtqueueNfree v) = some (ring64 64) ∧
      lkpiVirtioFindVqs true 0 0 [64, 16] = .ok [⟨0, 256⟩, ⟨1, 256⟩] ∧
      ¬ ((lkpiVirtqueueAddSgs (countedVirtqueue true) ⟨0, 256⟩ c.sgs c.outcnt 0x1000
          (ring64 64)).1 = 0 ∧
        (countedVirtqueue true).onRing (submitCtrlSgs (countedVirtqueue true) ⟨0, 256⟩
          (pagesCommand 255) (some 1) c { ring := ring64 64 } (ring64 64)).ring =
            (countedVirtqueue true).onRing (ring64 64) ++ [0x1000]) := by
  refine ⟨(setUpCtrlSgs flatMemory (pagesCommand 255)).get (by decide +kernel),
    (Option.some_get _).symm, rfl, rfl, ?_⟩
  decide +kernel

end KernelModules
