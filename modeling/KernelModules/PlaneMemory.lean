import KernelModules.BitFields
import KernelModules.Errno
import KernelModules.Interleaving
import KernelModules.Regions
import KernelModules.Vc4Drv
import Mathlib.Algebra.BigOperators.Fin
import Mathlib.Data.Fintype.Pi
import Mathlib.Data.Multiset.AddSub

/-!
# The memory of planes in the HVS

A plane that is scaled vertically needs line buffers (LBM); on a BCM2712 each plane of its
framebuffer needs a buffer to prefetch to (UPM). A plane state has handles for them. A state that is
duplicated shares its handles with its copy, and the entry of a handle counts those that have it
(`vc4_plane.c`).

DRM makes, checks and destroys plane states in any order. Which handle `ida_alloc_range` gives and
where `drm_mm` puts a node is up to them.
-/

namespace KernelModules

open Interleaving Regions

/-! ## Handles -/

/-- The size of the table of LBM handles. -/
def VC4_NUM_LBM_HANDLES : ℕ := 64

/-- The size of the table of UPM handles. -/
def VC4_NUM_UPM_HANDLES : ℕ := 32

/-- The unit of the places in the UPM. -/
def HVS_UBM_WORD_SIZE : ℕ := 256

/-- `struct drm_mm_node` -/
structure MmNode where
  start : ℕ
  size : ℕ
deriving DecidableEq, Repr

/-- `struct vc4_lbm_refcounts`, `struct vc4_upm_refcounts`. There is a node while it is in the
`drm_mm`. -/
structure HandleRefcounts where
  refcount : ℤ := 0
  size : ℕ := 0
  node : Option MmNode := none
deriving DecidableEq, Repr

/-- An `ida` and the entries of its handles. `dangling` is whether a state was ever left with a
handle that it had dropped. -/
structure HandleTable where
  handles : Finset ℕ := ∅
  refcounts : ℕ → HandleRefcounts := fun _ => {}
  dangling : Bool := false

/-- `drm_mm` can put a node there. -/
def HandleTable.HasRoomAt (t : HandleTable) (total align size start : ℕ) : Prop :=
  align ∣ start ∧ start + size ≤ total ∧
    ∀ h ∈ t.handles, ∀ n ∈ (t.refcounts h).node, Regions.Apart n.start n.size start size

instance (t : HandleTable) (total align size start : ℕ) :
    Decidable (t.HasRoomAt total align size start) :=
  inferInstanceAs (Decidable (_ ∧ _ ∧ ∀ h ∈ t.handles, ∀ n ∈ (t.refcounts h).node,
    Regions.Apart n.start n.size start size))

/-- `ida_alloc_range` for the handles from 1 to `num`, and `drm_mm_insert_node_generic` for a
memory. They give what is free, or fail. -/
structure HandleAllocator (num total align : ℕ) where
  idaAllocRange : Finset ℕ → Except Int ℕ
  insertNode : HandleTable → ℕ → Except Int ℕ
  idaAllocRange_ok : ∀ {used h}, idaAllocRange used = .ok h → 1 ≤ h ∧ h ≤ num ∧ h ∉ used
  idaAllocRange_error : ∀ {used e}, idaAllocRange used = .error e → e < 0
  insertNode_ok : ∀ {t size start}, insertNode t size = .ok start →
    t.HasRoomAt total align size start
  insertNode_error : ∀ {t size e}, insertNode t size = .error e → e < 0

namespace HandleTable

/-- The entry of a handle is changed. -/
def modify (h : ℕ) (f : HandleRefcounts → HandleRefcounts) (t : HandleTable) : HandleTable :=
  { t with refcounts := Function.update t.refcounts h (f (t.refcounts h)) }

/-- The start of the node. -/
def start (t : HandleTable) (h : ℕ) : ℕ :=
  ((t.refcounts h).node.map MmNode.start).getD 0

/-- `refcount_inc`, if there is a handle. -/
def inc (h : ℕ) (t : HandleTable) : HandleTable :=
  if h = 0 then t else t.modify h fun r => { r with refcount := r.refcount + 1 }

/-- `vc4_plane_release_lbm_ida`, `vc4_plane_release_upm_ida` -/
def release (h : ℕ) (t : HandleTable) : HandleTable :=
  let t := t.modify h fun r => { r with node := none, size := 0 }
  { t with handles := t.handles.erase h }

/-- `refcount_dec_and_test`, and the release if it was the last one. -/
def decAndTest (h : ℕ) (t : HandleTable) : Bool × HandleTable :=
  let t := t.modify h fun r => { r with refcount := r.refcount - 1 }
  if (t.refcounts h).refcount = 0 then (true, t.release h) else (false, t)

/-- A state drops its handle, if there is one. -/
def drop (h : ℕ) (t : HandleTable) : HandleTable :=
  if h = 0 then t else (t.decAndTest h).2

/-- A state drops its handle to get another one. A handle that others have is left in the state. -/
def giveUp (h : ℕ) (t : HandleTable) : ℕ × HandleTable :=
  if h = 0 then (h, t)
  else
    let (last, t) := t.decAndTest h
    (if last then 0 else h, t)

/-- A handle from the `ida` gets its entry and a node. -/
def setUp {num total align : ℕ} (alloc : HandleAllocator num total align) (size h : ℕ)
    (t : HandleTable) : Int × ℕ × HandleTable :=
  let t := { t with handles := insert h t.handles }
  let t := t.modify h fun r => { r with refcount := 1, size }
  match alloc.insertNode t size with
  | .error e =>
    let t := t.modify h fun r => { r with refcount := 0 }
    (e, 0, { t with handles := t.handles.erase h })
  | .ok start => (0, h, t.modify h fun r => { r with node := some ⟨start, size⟩ })

/-- What `vc4_plane_allocate_lbm` and `vc6_plane_allocate_upm` do for a handle of the state. -/
def allocate {num total align : ℕ} (alloc : HandleAllocator num total align) (size h : ℕ)
    (t : HandleTable) : Int × ℕ × HandleTable :=
  if h ≠ 0 ∧ (t.refcounts h).size = size then (0, h, t)
  else
    let (h, t) := t.giveUp h
    match alloc.idaAllocRange t.handles with
    | .error e => (e, h, { t with dangling := t.dangling || h ≠ 0 })
    | .ok h => t.setUp alloc size h

end HandleTable

/-! ## Framebuffers and states -/

/-- `enum vc4_scaling_mode` -/
inductive ScalingMode where
  | none
  | tpz
  | ppf
deriving DecidableEq, Repr

/-- `fourcc_code` -/
def fourccCode (a b c d : Char) : ℕ :=
  a.toNat ||| (b.toNat <<< 8) ||| (c.toNat <<< 16) ||| (d.toNat <<< 24)

/-- `DRM_FORMAT_P030`, and the formats with chroma planes of full size. -/
def DRM_FORMAT_P030 : ℕ := fourccCode 'P' '0' '3' '0'

def DRM_FORMAT_YUV444 : ℕ := fourccCode 'Y' 'U' '2' '4'

def DRM_FORMAT_YVU444 : ℕ := fourccCode 'Y' 'V' '2' '4'

/-- The modifier, with its parameter 0. -/
def DRM_FORMAT_MOD_BROADCOM_SAND128 : UInt64 := 0x0700000000000004

/-- `fourcc_mod_broadcom_mod` : the modifier without its parameter. -/
def fourccModBroadcomMod (m : UInt64) : UInt64 :=
  m &&& 0xff000000000000ff

/-- The alpha of a plane that hides what is below. -/
def DRM_BLEND_ALPHA_OPAQUE : ℕ := 0xffff

/-- `struct drm_format_info` -/
structure DrmFormatInfo where
  format : ℕ
  numPlanes : ℕ
  hsub : UInt32 := 1
  isYuv : Bool := false
  hasAlpha : Bool := false
deriving DecidableEq, Repr

/-- `struct drm_framebuffer` -/
structure DrmFramebuffer where
  format : DrmFormatInfo
  width : UInt32
  pitches : Fin 4 → UInt32
  modifier : UInt64 := 0
deriving DecidableEq

/-- The index for RGB or Y. -/
def CH0 : Fin 2 := ⟨0, Nat.zero_lt_two⟩

/-- The index for Cb and Cr. -/
def CH1 : Fin 2 := ⟨1, Nat.one_lt_two⟩

/-- `struct drm_plane_state`. `crtc` is whether there is one. -/
structure DrmPlaneState where
  fb : Option DrmFramebuffer := none
  crtc : Bool := false
  srcW : UInt32 := 0
  crtcW : UInt32 := 0
  alpha : ℕ := DRM_BLEND_ALPHA_OPAQUE
deriving DecidableEq

/-- What `vc4_plane_mode_set` sets of a `struct vc4_plane_state`. `dlist` is the memory for the
list; one that is `NULL` is empty. -/
structure PlaneSetup where
  dlist : List ℕ := []
  dlistCount : ℕ := 0
  ptr0Offset : Fin 4 → ℕ := fun _ => 0
  lbmOffset : ℕ := 0
  crtcW : UInt32 := 0
  crtcH : UInt32 := 0
  srcW : Fin 2 → UInt32 := fun _ => 0
  srcH : Fin 2 → UInt32 := fun _ => 0
  xScaling : Fin 2 → ScalingMode := fun _ => .none
  yScaling : Fin 2 → ScalingMode := fun _ => .none
  isYuv : Bool := false
deriving DecidableEq

/-- `struct vc4_plane_state` -/
structure Vc4PlaneMem extends PlaneSetup where
  base : DrmPlaneState := {}
  lbmHandle : ℕ := 0
  upmHandle : Fin 4 → ℕ := fun _ => 0
  upmBufferLines : ℕ := 0
  dlistInitialized : Bool := false
deriving DecidableEq

/-- The handles of `struct vc4_hvs`. -/
structure HvsHandles where
  lbm : HandleTable := {}
  upm : HandleTable := {}

/-- The size of the LBM, as `__vc4_hvs_alloc` sets it. -/
def lbmTotal : Vc4Gen → ℕ
  | .gen4 => 48 * 1024
  | .gen5 => 60 * 1024
  | .gen6C | .gen6D => 1024

/-- The size of the UPM. -/
def upmTotal : ℕ := 1024 * HVS_UBM_WORD_SIZE

/-- The ida and the `drm_mm` of the LBM. -/
abbrev LbmAllocator (gen : Vc4Gen) := HandleAllocator VC4_NUM_LBM_HANDLES (lbmTotal gen) 1

/-- The ida and the `drm_mm` of the UPM. -/
abbrev UpmAllocator := HandleAllocator VC4_NUM_UPM_HANDLES upmTotal HVS_UBM_WORD_SIZE

/-- `gen >= VC4_GEN_6_C` -/
def Vc4Gen.isGen6 : Vc4Gen → Bool
  | .gen4 | .gen5 => false
  | .gen6C | .gen6D => true

/-! ## Sizes -/

/-- `ALIGN` and `round_up`, for powers of two. -/
def align (x a : UInt32) : UInt32 :=
  (x + (a - 1)) &&& ~~~(a - 1)

/-- `roundup` -/
def roundup (x y : UInt32) : UInt32 :=
  (x + (y - 1)) / y * y

section Sizes

variable (gen : Vc4Gen) (fb : DrmFramebuffer) (st : Vc4PlaneMem)

/-- `__vc4_lbm_size` -/
def vc4LbmSizeGen4 : UInt32 :=
  if st.yScaling CH0 = .none ∧ st.yScaling CH1 = .none then 0
  else
    let pixPerLine := if st.xScaling CH0 = .tpz then st.crtcW else st.srcW CH0 >>> 16
    let lbm := if !st.isYuv && st.yScaling CH0 = .tpz then pixPerLine * 8 else pixPerLine * 16
    let lbm := roundup lbm (if gen = .gen5 then 128 else 64)
    lbm / (if gen = .gen5 then 4 else 2)

/-- `vc4_lbm_words_per_component` -/
def vc4LbmWordsPerComponent (channel : Fin 2) : UInt32 :=
  match st.yScaling channel with
  | .ppf => 4
  | .tpz => 2
  | .none => 0

/-- `vc4_lbm_components` -/
def vc4LbmComponents (channel : Fin 2) : UInt32 :=
  if st.yScaling channel = .none then 0
  else if fb.format.isYuv then (if channel = CH0 then 1 else 2)
  else if st.yScaling channel = .tpz then 4
  else if fb.format.hasAlpha && st.base.alpha = DRM_BLEND_ALPHA_OPAQUE then 4
  else 3

/-- `vc4_lbm_channel_size` -/
def vc4LbmChannelSize (channel : Fin 2) : UInt32 :=
  let hsub := fb.format.hsub
  let srcW := st.base.srcW >>> 16
  let width := if 1 < hsub ∧ channel = CH1 then srcW else min srcW st.base.crtcW
  let width := align (width / hsub) 4
  let wpc := vc4LbmWordsPerComponent st channel
  let components := vc4LbmComponents fb st channel
  if wpc = 0 ∨ components = 0 then 0
  else
    let words := width * wpc * components
    (words + 128 / hsub - 1) / (128 / hsub)

/-- `__vc6_lbm_size` -/
def vc6LbmSize : UInt32 :=
  if 1 < fb.format.hsub then max (vc4LbmChannelSize fb st CH0) (vc4LbmChannelSize fb st CH1)
  else vc4LbmChannelSize fb st CH0

/-- `vc4_lbm_size` -/
def vc4LbmSize : UInt32 :=
  if st.yScaling CH0 = .none ∧ st.yScaling CH1 = .none then 0
  else if gen.isGen6 then vc6LbmSize fb st
  else vc4LbmSizeGen4 gen st

/-- `lbm_size` as `vc4_plane_allocate_lbm` aligns it. -/
def lbmAllocSize : UInt32 :=
  match gen with
  | .gen4 => align (vc4LbmSize gen fb st) 32
  | .gen5 => align (vc4LbmSize gen fb st) 64
  | .gen6C | .gen6D => vc4LbmSize gen fb st

/-- `vc6_upm_size` -/
def vc6UpmSize (plane : Fin 4) : ℕ :=
  let stride :=
    if fourccModBroadcomMod fb.modifier = DRM_FORMAT_MOD_BROADCOM_SAND128 then
      if fb.format.format = DRM_FORMAT_P030 then roundup fb.width 96 * 4 / 3 else align fb.width 128
    else fb.pitches plane
  let yuv444 := fb.format.format = DRM_FORMAT_YUV444 ∨ fb.format.format = DRM_FORMAT_YVU444
  let stride := if plane = 0 ∧ yuv444 then stride <<< 1 else stride
  let wordsPerLine := (stride + 62) / 32
  let fetchRegionSize := wordsPerLine * 32
  let bufferLines := 2 <<< st.upmBufferLines.toUInt32
  let bufferSize := fetchRegionSize * bufferLines
  (align bufferSize 256).toNat

end Sizes

/-! ## The functions -/

/-- `VC4_MASK` -/
def VC4_MASK (high low : ℕ) : BitField :=
  ⟨low, high - low + 1⟩

/-- The fields of a pointer word that say where the memory in the UPM is. -/
def SCALER6_PTR0_UPM_BASE : BitField := VC4_MASK 28 16

def SCALER6_PTR0_UPM_HANDLE : BitField := VC4_MASK 14 10

def SCALER6_PTR0_UPM_BUFF_SIZE : BitField := VC4_MASK 9 8

def SCALER6_PTR0_UPM_BUFF_SIZE_2_LINES : ℕ := 0

/-- `vc4_plane_duplicate_state`. `copied` and `dlistCopied` are whether the two calls of `kmemdup`
succeed. -/
def vc4PlaneDuplicateState (copied dlistCopied : Bool) (st : Vc4PlaneMem) (hvs : HvsHandles) :
    Option Vc4PlaneMem × HvsHandles :=
  if !copied then (none, hvs)
  else
    let upm := (List.finRange 4).foldl (fun t i => t.inc (st.upmHandle i)) hvs.upm
    let lbm := hvs.lbm.inc st.lbmHandle
    let hvs := { lbm, upm }
    if st.dlist ≠ [] ∧ !dlistCopied then (none, hvs)
    else (some { st with dlistInitialized := false, dlist := st.dlist.take st.dlistCount }, hvs)

/-- The planes of a framebuffer. -/
def fbPlanes (numPlanes : ℕ) : List (Fin 4) :=
  (List.finRange 4).take numPlanes

/-- The handles that a state drops when it goes, or when its plane is disabled. -/
def dropUpm (st : Vc4PlaneMem) (t : HandleTable) : HandleTable :=
  (List.finRange 4).foldl (fun t i => t.drop (st.upmHandle i)) t

/-- `vc4_plane_destroy_state` -/
def vc4PlaneDestroyState (st : Vc4PlaneMem) (hvs : HvsHandles) : HvsHandles :=
  { lbm := hvs.lbm.drop st.lbmHandle, upm := dropUpm st hvs.upm }

/-- `vc4_plane_free_lbm` -/
def vc4PlaneFreeLbm (st : Vc4PlaneMem) (hvs : HvsHandles) : Vc4PlaneMem × HvsHandles :=
  ({ st with lbmHandle := 0 }, { hvs with lbm := hvs.lbm.drop st.lbmHandle })

/-- `vc6_plane_free_upm` -/
def vc6PlaneFreeUpm (st : Vc4PlaneMem) (hvs : HvsHandles) : Vc4PlaneMem × HvsHandles :=
  ({ st with upmHandle := fun _ => 0 }, { hvs with upm := dropUpm st hvs.upm })

/-- `vc4_plane_allocate_lbm` -/
def vc4PlaneAllocateLbm (gen : Vc4Gen) (alloc : LbmAllocator gen) (fb : DrmFramebuffer)
    (st : Vc4PlaneMem) (hvs : HvsHandles) : Int × Vc4PlaneMem × HvsHandles :=
  if vc4LbmSize gen fb st = 0 then (0, st, hvs)
  else if st.lbmOffset = 0 then (-EINVAL, st, hvs)
  else
    let (ret, h, t) := hvs.lbm.allocate alloc (lbmAllocSize gen fb st).toNat st.lbmHandle
    let st := { st with lbmHandle := h }
    let hvs := { hvs with lbm := t }
    if ret ≠ 0 then (ret, st, hvs)
    else (0, { st with dlist := st.dlist.set st.lbmOffset (t.start h) }, hvs)

/-- What `vc6_plane_allocate_upm` sets in the pointer word of a plane. -/
def upmWord (start h lines : ℕ) : ℕ :=
  SCALER6_PTR0_UPM_BASE.prep (start / HVS_UBM_WORD_SIZE) |||
    SCALER6_PTR0_UPM_HANDLE.prep (h - 1) ||| SCALER6_PTR0_UPM_BUFF_SIZE.prep lines

/-- A pass of the loop of `vc6_plane_allocate_upm`. -/
def upmPass (alloc : UpmAllocator) (fb : DrmFramebuffer) (i : Fin 4) (st : Vc4PlaneMem)
    (t : HandleTable) : Int × Vc4PlaneMem × HandleTable :=
  if vc6UpmSize fb st i = 0 then (-EINVAL, st, t)
  else
    let (ret, h, t) := t.allocate alloc (vc6UpmSize fb st i) (st.upmHandle i)
    let st := { st with upmHandle := Function.update st.upmHandle i h }
    if ret ≠ 0 then (ret, st, t)
    else
      let word := upmWord (t.start h) h st.upmBufferLines
      (0, { st with dlist := st.dlist.modify (st.ptr0Offset i) (· ||| word) }, t)

/-- The loop of `vc6_plane_allocate_upm`. -/
def upmLoop (alloc : UpmAllocator) (fb : DrmFramebuffer) :
    List (Fin 4) → Vc4PlaneMem → HandleTable → Int × Vc4PlaneMem × HandleTable
  | [], st, t => (0, st, t)
  | i :: is, st, t =>
    let (ret, st, t) := upmPass alloc fb i st t
    if ret ≠ 0 then (ret, st, t) else upmLoop alloc fb is st t

/-- `vc6_plane_allocate_upm` -/
def vc6PlaneAllocateUpm (alloc : UpmAllocator) (fb : DrmFramebuffer) (st : Vc4PlaneMem)
    (hvs : HvsHandles) : Int × Vc4PlaneMem × HvsHandles :=
  let st := { st with upmBufferLines := SCALER6_PTR0_UPM_BUFF_SIZE_2_LINES }
  let (ret, st, t) := upmLoop alloc fb (fbPlanes fb.format.numPlanes) st hvs.upm
  (ret, st, { hvs with upm := t })

/-- A check of a plane : what DRM asks for, whether the plane was enabled, what
`vc4_plane_mode_set` or `vc6_plane_mode_set` returns and sets, and the allocators. -/
structure PlaneCheck (gen : Vc4Gen) where
  base : DrmPlaneState
  oldEnabled : Bool := false
  modeSetRet : Int := 0
  modeSet : PlaneSetup := {}
  lbmAlloc : LbmAllocator gen
  upmAlloc : UpmAllocator

/-- `plane_enabled` : the framebuffer, if so. -/
def planeEnabled (base : DrmPlaneState) : Option DrmFramebuffer :=
  if base.crtc then base.fb else none

/-- `vc4_plane_mode_set`, `vc6_plane_mode_set`. A list that is set up is left as it is. -/
def PlaneCheck.modeSetState {gen : Vc4Gen} (c : PlaneCheck gen) (st : Vc4PlaneMem) :
    Int × Vc4PlaneMem :=
  if st.dlistInitialized then (0, st)
  else
    let dlistInitialized := decide (c.modeSetRet = 0)
    (c.modeSetRet, { st with toPlaneSetup := c.modeSet, dlistInitialized })

/-- Nothing of the plane is on the screen. -/
def PlaneSetup.offScreen (st : PlaneSetup) : Bool :=
  st.srcW CH0 = 0 || st.srcH CH0 = 0 || st.crtcW = 0 || st.crtcH = 0

/-- The allocations of `vc4_plane_atomic_check`. -/
def PlaneCheck.allocate {gen : Vc4Gen} (c : PlaneCheck gen) (fb : DrmFramebuffer) (st : Vc4PlaneMem)
    (hvs : HvsHandles) : Int × Vc4PlaneMem × HvsHandles :=
  let (ret, st, hvs) := vc4PlaneAllocateLbm gen c.lbmAlloc fb st hvs
  if ret ≠ 0 then (ret, st, hvs)
  else if gen.isGen6 then vc6PlaneAllocateUpm c.upmAlloc fb st hvs
  else (0, st, hvs)

/-- `vc4_plane_atomic_check` -/
def vc4PlaneAtomicCheck (gen : Vc4Gen) (c : PlaneCheck gen) (st : Vc4PlaneMem) (hvs : HvsHandles) :
    Int × Vc4PlaneMem × HvsHandles :=
  let st := { st with base := c.base, dlistCount := 0 }
  match planeEnabled st.base with
  | none =>
    if c.oldEnabled then
      let (st, hvs) := if gen.isGen6 then vc6PlaneFreeUpm st hvs else (st, hvs)
      (0, vc4PlaneFreeLbm st hvs)
    else (0, st, hvs)
  | some fb =>
    let (ret, st) := c.modeSetState st
    if ret ≠ 0 then (ret, st, hvs)
    else if st.offScreen then (0, st, hvs)
    else c.allocate fb st hvs

/-! ## Runs -/

/-- A state, and whether a check that set up its list accepted it. -/
structure LivePlane where
  st : Vc4PlaneMem := {}
  checked : Bool := false
deriving DecidableEq

/-- The states that are alive, and those whose copies could not be finished : the references that
were taken for these copies are not given back. -/
structure PlaneStates where
  hvs : HvsHandles := {}
  states : Multiset LivePlane := 0
  lost : Multiset Vc4PlaneMem := 0

/-- What DRM does with a plane state. The flags of a copy are those of `vc4_plane_duplicate_state`. -/
inductive PlaneAct (gen : Vc4Gen) where
  | reset
  | duplicate (x : LivePlane) (copied dlistCopied : Bool)
  | check (x : LivePlane) (c : PlaneCheck gen)
  | destroy (x : LivePlane)

/-- A step of DRM; none if there is no such state. -/
def planeStep (gen : Vc4Gen) : PlaneAct gen → PlaneStates → Option PlaneStates
  | .reset, s => some { s with states := {} ::ₘ s.states }
  | .duplicate x copied dlistCopied, s =>
    if x ∈ s.states then
      match vc4PlaneDuplicateState copied dlistCopied x.st s.hvs with
      | (some st, hvs) => some { s with hvs, states := { x with st } ::ₘ s.states }
      | (none, hvs) => some { s with hvs, lost := if copied then x.st ::ₘ s.lost else s.lost }
    else none
  | .check x c, s =>
    if x ∈ s.states then
      let (ret, st, hvs) := vc4PlaneAtomicCheck gen c x.st s.hvs
      let checked := ret = 0 && !x.st.dlistInitialized
      some { s with hvs, states := ⟨st, checked⟩ ::ₘ s.states.erase x }
    else none
  | .destroy x, s =>
    if x ∈ s.states then
      some { s with hvs := vc4PlaneDestroyState x.st s.hvs, states := s.states.erase x }
    else none

end KernelModules
