import KernelModules.FixedWidth
import KernelModules.Hvs
import KernelModules.Interleaving
import KernelModules.Regions

/-!
# The display lists of the HVS

A channel of the HVS reads a list of dwords for each frame. A CRTC state has memory for its list from
`vc4_hvs_atomic_check` on; `vc4_hvs_atomic_flush` writes the list and tells the channel where it is,
but the channel goes on reading the list before it until the frame ends. So the memory of a CRTC
state that is destroyed is put on a list of stale entries, with the number of the next frame, and is
given back when that frame is reached (`vc4_hvs_dlist_free_work`).

The parties are the threads that commit and destroy CRTC states, the channels, the interrupt handler
and the work function. A channel takes the list that `DISPLIST` names whenever it starts a frame, and
counts the frames. Where `drm_mm_insert_node` puts a node is up to it.
-/

namespace KernelModules

open Interleaving Regions

/-! ## Data -/

/-- `SCALER_CTL0_END` -/
def SCALER_CTL0_END : ℕ := 2 ^ 31

/-- `VC4_LINEAR_PHASE_KERNEL_DWORDS` -/
def VC4_LINEAR_PHASE_KERNEL_DWORDS : ℕ := 6

/-- `VC4_KERNEL_DWORDS` -/
def VC4_KERNEL_DWORDS : ℕ := VC4_LINEAR_PHASE_KERNEL_DWORDS * 2 - 1

/-- A plane of a CRTC, with its part of the list. -/
structure PlaneDlist where
  normalizedZpos : ℕ
  dlist : List ℕ
deriving DecidableEq, Repr

/-- Where an allocation is : a filter kernel has it, a CRTC state has it, the state is being
destroyed, or it is on `stale_dlist_entries`. -/
inductive DlistOwner where
  | kernel
  | crtcState
  | destroying
  | stale
deriving DecidableEq, Repr

/-- `struct vc4_hvs_dlist_allocation`, with the planes of the CRTC state, what was written to the
memory, and the number of the frame in which the state was destroyed. `start` and `size` are those
of the `drm_mm_node`. A filter kernel has a node only. `serial` tells the allocations apart : it is
the number of those made before. -/
structure DlistAlloc where
  serial : ℕ
  start : ℕ
  size : ℕ
  channel : ℕ
  planes : List PlaneDlist := []
  owner : DlistOwner := .crtcState
  words : List ℕ := []
  dlistProgrammed : Bool := false
  targetFrameCount : ℕ := 0
  markedAt : ℕ := 0
deriving DecidableEq, Repr

/-- The nodes of `dlist_mm`, the interrupts, and the memory; then, for each channel, what it does :
`displist` is the register, `displact` the list of the frame. `frames` counts the frames; the
register has the six last bits. `allocs` counts the allocations, and `installed` and `shown` say of
which one the two lists of a channel are. -/
structure HvsDlists where
  nodes : List DlistAlloc := []
  allocs : ℕ := 0
  eofIrq : ℕ → Bool := fun _ => false
  workQueued : Bool := false
  dlist : ℕ → ℕ := fun _ => 0
  enabled : ℕ → Bool := fun _ => false
  displist : ℕ → ℕ := fun _ => 0
  installed : ℕ → ℕ := fun _ => 0
  displact : ℕ → Option ℕ := fun _ => none
  shown : ℕ → ℕ := fun _ => 0
  frames : ℕ → ℕ := fun _ => 0

/-- The entry whose node starts at a place. -/
def HvsDlists.node (s : HvsDlists) (start : ℕ) : Option DlistAlloc :=
  s.nodes.find? fun d => d.start = start

/-- The entry at a place is changed. -/
def HvsDlists.modify (s : HvsDlists) (start : ℕ) (f : DlistAlloc → DlistAlloc) : HvsDlists :=
  { s with nodes := s.nodes.map fun d => if d.start = start then f d else d }

/-! ## What a list is made of -/

/-- The loop of `vc4_hvs_atomic_check` over the planes, and `SCALER_CTL0_END`. -/
def dlistCount (planes : List PlaneDlist) : ℕ :=
  (planes.map fun p => p.dlist.length).sum + 1

/-- The loop of `vc4_hvs_atomic_flush` : the planes at a `zpos`, until there is none. -/
def flushFrom (planes : List PlaneDlist) : ℕ → ℕ → List ℕ
  | 0, _ => []
  | n + 1, zpos =>
    let found := planes.filter fun p => p.normalizedZpos = zpos
    if found.isEmpty then [] else found.flatMap PlaneDlist.dlist ++ flushFrom planes n (zpos + 1)

/-- What `vc4_hvs_atomic_flush` writes. -/
def flushWords (planes : List PlaneDlist) : List ℕ :=
  flushFrom planes (planes.length + 1) 0 ++ [SCALER_CTL0_END]

/-- What `vc4_hvs_upload_linear_kernel` writes. -/
def kernelWords (kernel : ℕ → ℕ) : List ℕ :=
  (List.range VC4_KERNEL_DWORDS).map fun i =>
    if i < VC4_LINEAR_PHASE_KERNEL_DWORDS then kernel i else kernel (VC4_KERNEL_DWORDS - i - 1)

/-! ## The functions -/

/-- `vc4_hvs_upload_linear_kernel` -/
def vc4HvsUploadLinearKernel (kernel : ℕ → ℕ) (start : Option ℕ) (s : HvsDlists) : HvsDlists :=
  match start with
  | none => s
  | some start =>
    { s with
      nodes := s.nodes ++ [
        { serial := s.allocs, start, size := VC4_KERNEL_DWORDS, channel := VC4_HVS_CHANNEL_DISABLED,
          owner := .kernel, words := kernelWords kernel }]
      allocs := s.allocs + 1
      dlist := store (kernelWords kernel) s.dlist start }

/-- The memory is the new node's, for the planes of a CRTC state. -/
def HvsDlists.addEntry (s : HvsDlists) (start size channel : ℕ) (planes : List PlaneDlist) :
    HvsDlists :=
  { s with
    nodes := s.nodes ++ [{ serial := s.allocs, start, size, channel, planes }]
    allocs := s.allocs + 1 }

/-- `vc4_hvs_alloc_dlist_entry`. `first` and `second` are what `drm_mm_insert_node` gives; if it
fails, the stale entries are freed and it is called once more. -/
def vc4HvsAllocDlistEntry (channel : ℕ) (planes : List PlaneDlist) (dlistCount : ℕ)
    (first second : Option ℕ) (s : HvsDlists) : HvsDlists :=
  if channel = VC4_HVS_CHANNEL_DISABLED then s
  else
    match first with
    | some start => s.addEntry start dlistCount channel planes
    | none =>
      let s := { s with nodes := s.nodes.filter fun cur => cur.owner ≠ .stale }
      match second with
      | some start => s.addEntry start dlistCount channel planes
      | none => s

/-- `vc4_hvs_atomic_check` -/
def vc4HvsAtomicCheck (channel : ℕ) (planes : List PlaneDlist) (first second : Option ℕ)
    (s : HvsDlists) : HvsDlists :=
  vc4HvsAllocDlistEntry channel planes (dlistCount planes) first second s

/-- `vc4_hvs_install_dlist` -/
def vc4HvsInstallDlist (mm : DlistAlloc) (s : HvsDlists) : HvsDlists :=
  { s.modify mm.start fun d => { d with dlistProgrammed := true } with
    displist := Function.update s.displist mm.channel mm.start
    installed := Function.update s.installed mm.channel mm.serial }

/-- `vc4_hvs_atomic_flush`. `running` is whether the CRTC was active and still is. -/
def vc4HvsAtomicFlush (mm : DlistAlloc) (running : Bool) (s : HvsDlists) : HvsDlists :=
  let words := flushWords mm.planes
  let s := { s.modify mm.start fun d => { d with words } with
    dlist := store words s.dlist mm.start }
  if running then vc4HvsInstallDlist mm s else s

/-- `vc4_plane_async_set_fb` for a dword of the list. -/
def vc4PlaneAsyncSetFb (mm : DlistAlloc) (offset value : ℕ) (s : HvsDlists) : HvsDlists :=
  { s.modify mm.start fun d => { d with words := mm.words.set offset value } with
    dlist := Function.update s.dlist (mm.start + offset) value }

/-- `vc4_hvs_atomic_enable`. The channel is reset, and waits for the first frame; `count` is what
its frame count is then. -/
def vc4HvsAtomicEnable (mm : DlistAlloc) (count : ℕ) (s : HvsDlists) : HvsDlists :=
  let s := vc4HvsInstallDlist mm s
  { s with
    enabled := Function.update s.enabled mm.channel true
    displact := Function.update s.displact mm.channel none
    frames := Function.update s.frames mm.channel count }

/-- `vc4_hvs_stop_channel` -/
def vc4HvsStopChannel (chan : ℕ) (s : HvsDlists) : HvsDlists :=
  { s with enabled := Function.update s.enabled chan false }

/-- A channel starts a frame. -/
def startFrame (chan : ℕ) (s : HvsDlists) : HvsDlists :=
  { s with
    displact := Function.update s.displact chan (some (s.displist chan))
    shown := Function.update s.shown chan (s.installed chan)
    frames := Function.update s.frames chan (s.frames chan + 1) }

/-- `vc4_hvs_get_fifo_frame_count` -/
def vc4HvsGetFifoFrameCount (s : HvsDlists) (fifo : ℕ) : ℕ :=
  s.frames fifo % 2 ^ 6

/-- `vc4_hvs_mark_dlist_entry_stale` up to the lock. -/
def vc4HvsMarkDlistEntryStale (alloc : DlistAlloc) (s : HvsDlists) : HvsDlists :=
  if alloc.dlistProgrammed = false then
    { s with nodes := s.nodes.filter fun d => d.start ≠ alloc.start }
  else
    s.modify alloc.start fun d =>
      { d with
        owner := .destroying
        targetFrameCount := (vc4HvsGetFifoFrameCount s alloc.channel + 1) % 2 ^ 6
        markedAt := s.frames alloc.channel }

/-- The rest of `vc4_hvs_mark_dlist_entry_stale`, with `vc4_hvs_irq_enable_eof`. -/
def addStaleDlistEntry (alloc : DlistAlloc) (s : HvsDlists) : HvsDlists :=
  { s.modify alloc.start fun d => { d with owner := .stale } with
    eofIrq := Function.update s.eofIrq alloc.channel true }

/-- `vc4_hvs_schedule_dlist_sweep` -/
def vc4HvsScheduleDlistSweep (channel : ℕ) (s : HvsDlists) : HvsDlists :=
  if s.nodes.any fun d => d.owner = .stale then { s with workQueued := true }
  else { s with eofIrq := Function.update s.eofIrq channel false }

/-- Conversion to `s8`. -/
def s8 (x : ℤ) : ℤ :=
  x.bmod (2 ^ 8)

/-- `vc4_hvs_frcnt_lte` -/
def vc4HvsFrcntLte (cnt1 cnt2 : ℕ) : Bool :=
  decide (s8 ((cnt1 * 2 ^ 2 : ℕ) - (cnt2 * 2 ^ 2 : ℕ)) ≤ 0)

/-- `vc4_hvs_dlist_free_work` -/
def vc4HvsDlistFreeWork (s : HvsDlists) : HvsDlists :=
  { s with
    workQueued := false
    nodes := s.nodes.filter fun cur =>
      cur.owner ≠ .stale ∨ (s.enabled cur.channel ∧
        vc4HvsFrcntLte cur.targetFrameCount (vc4HvsGetFifoFrameCount s cur.channel) = false) }

/-! ## The interleaving -/

/-- What the threads, the channels, the interrupt handler and the work function do. -/
inductive DlistAct where
  | upload (kernel : ℕ → ℕ) (start : Option ℕ)
  | check (channel : ℕ) (planes : List PlaneDlist) (first second : Option ℕ)
  | flush (start : ℕ) (running : Bool)
  | asyncSetFb (start offset value : ℕ)
  | enable (start count : ℕ)
  | stop (channel : ℕ)
  | frame (channel : ℕ)
  | destroy (start : ℕ)
  | addStale (start : ℕ)
  | eof (channel : ℕ)
  | freeWork

/-- A step of one of them; none if it is not possible. -/
def dlistStep : DlistAct → HvsDlists → Option HvsDlists
  | .upload kernel start, s => some (vc4HvsUploadLinearKernel kernel start s)
  | .check channel planes first second, s =>
    some (vc4HvsAtomicCheck channel planes first second s)
  | .flush start running, s => (s.node start).map fun mm => vc4HvsAtomicFlush mm running s
  | .asyncSetFb start offset value, s =>
    (s.node start).map fun mm => vc4PlaneAsyncSetFb mm offset value s
  | .enable start count, s => (s.node start).map fun mm => vc4HvsAtomicEnable mm count s
  | .stop channel, s => some (vc4HvsStopChannel channel s)
  | .frame channel, s => if s.enabled channel then some (startFrame channel s) else none
  | .destroy start, s => (s.node start).map fun mm => vc4HvsMarkDlistEntryStale mm s
  | .addStale start, s => (s.node start).map fun mm => addStaleDlistEntry mm s
  | .eof channel, s => some (vc4HvsScheduleDlistSweep channel s)
  | .freeWork, s => if s.workQueued then some (vc4HvsDlistFreeWork s) else none

/-- `drm_mm_insert_node` puts a node inside of the memory, where no other one is. -/
def NodeFree (lo hi start size : ℕ) (nodes : List DlistAlloc) : Prop :=
  lo ≤ start ∧ start + size ≤ hi ∧ ∀ d ∈ nodes, Apart d.start d.size start size

instance (lo hi start size : ℕ) (nodes : List DlistAlloc) :
    Decidable (NodeFree lo hi start size nodes) :=
  inferInstanceAs (Decidable (_ ∧ _ ∧ ∀ d ∈ nodes, Apart d.start d.size start size))

/-- There is a plane at each `zpos` up to that of any plane. -/
def Normalized (planes : List PlaneDlist) : Prop :=
  ∀ p ∈ planes, ∀ z < p.normalizedZpos, ∃ q ∈ planes, q.normalizedZpos = z

instance (planes : List PlaneDlist) : Decidable (Normalized planes) :=
  inferInstanceAs (Decidable (∀ p ∈ planes, ∀ z < p.normalizedZpos, ∃ q ∈ planes, _ = z))

/-- The stale entries that `vc4_hvs_alloc_dlist_entry` would free when there is no room : a channel
that is on reads none of them. -/
def StaleUnread (s : HvsDlists) : Prop :=
  ∀ d ∈ s.nodes, d.owner = .stale → s.enabled d.channel = true →
    s.displact d.channel ≠ some d.start

instance (s : HvsDlists) : Decidable (StaleUnread s) :=
  inferInstanceAs (Decidable (∀ d ∈ s.nodes, _ → _ → _ ≠ _))

/-- What the others are relied on for. No check finds that there is no room while a channel still
reads a stale entry. A CRTC state is flushed before its channel is enabled. When it is destroyed,
its channel is off or another list was installed. -/
def DlistClient (lo hi : ℕ) : DlistAct → HvsDlists → Prop
  | .upload _ start, s => ∀ x ∈ start, NodeFree lo hi x VC4_KERNEL_DWORDS s.nodes
  | .check _ planes first second, s =>
    Normalized planes ∧ (∀ x ∈ first, NodeFree lo hi x (dlistCount planes) s.nodes) ∧
      (first = none → StaleUnread s ∧ ∀ x ∈ second,
        NodeFree lo hi x (dlistCount planes) (s.nodes.filter fun cur => cur.owner ≠ .stale))
  | .flush start _, s => ∀ mm ∈ s.node start, mm.owner = .crtcState
  | .asyncSetFb start offset _, s =>
    ∀ mm ∈ s.node start, mm.owner = .crtcState ∧ offset < mm.words.length
  | .enable start _, s => ∀ mm ∈ s.node start, mm.owner = .crtcState ∧ mm.words.length = mm.size
  | .destroy start, s => ∀ mm ∈ s.node start, mm.owner = .crtcState ∧
      (s.enabled mm.channel = true → s.displist mm.channel ≠ start)
  | .addStale start, s => ∀ mm ∈ s.node start, mm.owner = .destroying
  | .stop _, _ | .frame _, _ | .eof _, _ | .freeWork, _ => True

instance (lo hi : ℕ) (a : DlistAct) (s : HvsDlists) : Decidable (DlistClient lo hi a s) :=
  match a with
  | .upload _ start => inferInstanceAs (Decidable (∀ x ∈ start, NodeFree lo hi x _ s.nodes))
  | .check _ planes first second => inferInstanceAs (Decidable (Normalized planes ∧
      (∀ x ∈ first, NodeFree lo hi x _ s.nodes) ∧ (first = none → StaleUnread s ∧
        ∀ x ∈ second, NodeFree lo hi x _ (s.nodes.filter _))))
  | .flush start _ | .addStale start =>
    inferInstanceAs (Decidable (∀ mm ∈ s.node start, mm.owner = _))
  | .asyncSetFb start _ _ => inferInstanceAs (Decidable (∀ mm ∈ s.node start, mm.owner = _ ∧ _ < _))
  | .enable start _ =>
    inferInstanceAs (Decidable (∀ mm ∈ s.node start, mm.owner = _ ∧ mm.words.length = mm.size))
  | .destroy start => inferInstanceAs (Decidable (∀ mm ∈ s.node start, mm.owner = _ ∧
      (s.enabled mm.channel = true → s.displist mm.channel ≠ start)))
  | .stop _ | .frame _ | .eof _ | .freeWork => isTrue trivial

end KernelModules
