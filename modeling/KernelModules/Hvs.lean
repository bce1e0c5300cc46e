import KernelModules.GreedyMatching
import Mathlib.Data.BitVec

/-!
# The channels of the HVS

The display controllers (CRTCs) of vc4 get their pixels from the three channels of the compositor
(HVS). `vc4_atomic_check` gives a free channel to every CRTC that a commit enables, takes it back
when the CRTC is disabled, and accounts for the load of planes and CRTCs (`vc4_kms.c`). The tail of
the commit sets the muxes of the hardware.

A commit is one step here : the locks of the objects order the checks, and the tail of a commit,
which may run later, is taken to follow its check.
-/

namespace KernelModules

/-! ## The objects -/

/-- `HVS_NUM_CHANNELS` : the channels of the HVS. -/
def HVS_NUM_CHANNELS : ℕ := 3

/-- `(unsigned int)-1` -/
def VC4_HVS_CHANNEL_DISABLED : ℕ := 2 ^ 32 - 1

/-- `struct vc4_crtc_data`, and whether the CRTC feeds the transposer. -/
structure Vc4CrtcData where
  hvsAvailableChannels : ℕ
  hvsOutput : ℕ
  feedsTxp : Bool := false
deriving DecidableEq, Repr

/-- `struct vc4_crtc_state`, with the fields of `struct drm_crtc_state` that are read. -/
structure Vc4CrtcState where
  enable : Bool := false
  active : Bool := false
  assignedChannel : ℕ := VC4_HVS_CHANNEL_DISABLED
  hvsLoad : ℕ := 0
  updateMuxing : Bool := false
deriving DecidableEq, Repr

/-- `fb` is whether there is one. -/
structure Vc4PlaneState (ι : Type) where
  fb : Bool := false
  crtc : Option ι := none
  hvsLoad : BitVec 64 := 0
  membusLoad : BitVec 64 := 0

/-- An element of `fifo_state`. -/
structure FifoState where
  inUse : Bool := false
  fifoLoad : ℕ := 0

/-- `struct vc4_hvs_state` -/
structure Vc4HvsState where
  fifoState : ℕ → FifoState := fun _ => {}
  coreClockRate : ℕ := 0

/-- `struct vc4_load_tracker_state` -/
structure Vc4LoadTrackerState where
  hvsLoad : BitVec 64 := 0
  membusLoad : BitVec 64 := 0

/-- The registers with the muxes of the outputs, and whether a `WARN_ON` about them was hit. -/
structure HvsRegs where
  dispectrl : BitVec 32
  dispctrl : BitVec 32
  dispeoln : BitVec 32
  dispdither : BitVec 32
  warned : Bool := false

/-- The CRTCs in the order of the device, and in that of their outputs. -/
structure Vc4Dev (ι π : Type) where
  crtc : ι → Vc4CrtcData
  crtcs : List ι
  sortedCrtcs : List ι
  planes : List π
  nodup : crtcs.Nodup
  mem_crtcs : ∀ c, c ∈ crtcs
  perm : sortedCrtcs.Perm crtcs
  sorted : sortedCrtcs.Pairwise fun c d => (crtc c).hvsOutput ≤ (crtc d).hvsOutput
  planes_nodup : planes.Nodup
  mem_planes : ∀ p, p ∈ planes

/-- The state of the device : of each CRTC and plane, of the private objects, and the registers. -/
structure KmsState (ι π : Type) where
  crtc : ι → Vc4CrtcState := fun _ => {}
  plane : π → Vc4PlaneState ι := fun _ => {}
  hvs : Vc4HvsState := {}
  load : Vc4LoadTrackerState := {}
  regs : HvsRegs

/-- What a commit asks of a CRTC. DRM rejects an active CRTC that is not enabled. -/
structure CrtcRequest where
  enable : Bool
  active : Bool
  hvsLoad : ℕ
  enable_of_active : active = true → enable = true

/-- The CRTCs and planes of a commit with their new states. `helpers` is whether
`vc4_ctm_atomic_check` and `drm_atomic_helper_check` accept it, `loadTrackerEnabled` the setting of
the device at that time. -/
structure AtomicState (ι π : Type) where
  crtc : ι → Option CrtcRequest := fun _ => none
  plane : π → Option (Vc4PlaneState ι) := fun _ => none
  helpers : Bool := true
  loadTrackerEnabled : Bool := false

/-- Why a check fails. `outOfRange` is an access to `fifo_state` at an index that it does not have. -/
inductive CheckErr where
  | einval
  | enospc
  | outOfRange
deriving DecidableEq, Repr

variable {ι π : Type} [DecidableEq ι]

/-! ## Channels -/

/-- `ffs` -/
def ffs (x : ℕ) : ℕ :=
  match (List.range 32).find? x.testBit with
  | none => 0
  | some i => i + 1

/-- The channels that are not in use, as bits. -/
def unassignedChannels (fifoState : ℕ → FifoState) : ℕ :=
  (List.range HVS_NUM_CHANNELS).foldl
    (fun u i => if (fifoState i).inUse = true then u else u ||| 2 ^ i) 0

/-- What the check of the muxing changes. A CRTC has its old state until it is its turn. -/
structure MuxState (ι : Type) where
  crtc : ι → Vc4CrtcState
  fifoState : ℕ → FifoState
  unassigned : ℕ

/-- `vc4_crtc_duplicate_state`, with what the commit asks for. -/
def vc4CrtcDuplicateState (old : Vc4CrtcState) (r : CrtcRequest) : Vc4CrtcState where
  enable := r.enable
  active := r.active
  assignedChannel := old.assignedChannel
  hvsLoad := r.hvsLoad

/-- `fifo_state[channel].in_use = in_use` -/
def setInUse (fifoState : ℕ → FifoState) (channel : ℕ) (inUse : Bool) :
    Except CheckErr (ℕ → FifoState) :=
  if channel < HVS_NUM_CHANNELS then
    .ok (Function.update fifoState channel { fifoState channel with inUse })
  else .error .outOfRange

/-- The body of the loop of `vc4_pv_muxing_atomic_check`. -/
def pvMuxingCrtc (data : Vc4CrtcData) (c : ι) (r : CrtcRequest) (m : MuxState ι) :
    Except CheckErr (MuxState ι) :=
  let old := m.crtc c
  let new := vc4CrtcDuplicateState old r
  if old.enable = new.enable then .ok { m with crtc := Function.update m.crtc c new }
  else
    let new := { new with updateMuxing := true }
    if new.enable = false then
      (setInUse m.fifoState old.assignedChannel false).map fun fifoState =>
        { m with
          crtc := Function.update m.crtc c { new with assignedChannel := VC4_HVS_CHANNEL_DISABLED }
          fifoState }
    else
      let matchingChannels := m.unassigned &&& data.hvsAvailableChannels
      if matchingChannels = 0 then .error .einval
      else
        let channel := ffs matchingChannels - 1
        (setInUse m.fifoState channel true).map fun fifoState =>
          { crtc := Function.update m.crtc c { new with assignedChannel := channel }
            fifoState
            unassigned := m.unassigned &&& (2 ^ 32 - (2 ^ channel + 1)) }

/-- The loop of `vc4_pv_muxing_atomic_check`. CRTCs that are not in the commit are skipped. -/
def pvMuxingLoop (data : ι → Vc4CrtcData) (req : ι → Option CrtcRequest) :
    List ι → MuxState ι → Except CheckErr (MuxState ι)
  | [], m => .ok m
  | c :: l, m =>
    match req c with
    | none => pvMuxingLoop data req l m
    | some r => (pvMuxingCrtc (data c) c r m).bind (pvMuxingLoop data req l)

/-- `vc4_pv_muxing_atomic_check` -/
def vc4PvMuxingAtomicCheck (dev : Vc4Dev ι π) (req : AtomicState ι π) (s : KmsState ι π) :
    Except CheckErr (MuxState ι) :=
  pvMuxingLoop dev.crtc req.crtc dev.sortedCrtcs
    { crtc := s.crtc
      fifoState := s.hvs.fifoState
      unassigned := unassignedChannels s.hvs.fifoState }

/-! ## Loads -/

/-- The plane is on a CRTC that is not the transposer's. -/
def Vc4PlaneState.counts (data : ι → Vc4CrtcData) (p : Vc4PlaneState ι) : Bool :=
  p.fb && p.crtc.any fun c => !(data c).feedsTxp

/-- One plane of `vc4_load_tracker_atomic_check`. -/
def loadTrackerPlane (data : ι → Vc4CrtcData) (old new : Vc4PlaneState ι)
    (load : Vc4LoadTrackerState) : Vc4LoadTrackerState :=
  let load :=
    if old.counts data then
      { hvsLoad := load.hvsLoad - old.hvsLoad, membusLoad := load.membusLoad - old.membusLoad }
    else load
  if new.counts data then
    { hvsLoad := load.hvsLoad + new.hvsLoad, membusLoad := load.membusLoad + new.membusLoad }
  else load

/-- The loop of `vc4_load_tracker_atomic_check`. -/
def loadTrackerLoop (data : ι → Vc4CrtcData) (old : π → Vc4PlaneState ι)
    (req : π → Option (Vc4PlaneState ι)) : List π → Vc4LoadTrackerState → Vc4LoadTrackerState
  | [], load => load
  | p :: l, load =>
    loadTrackerLoop data old req l
      (match req p with
        | none => load
        | some new => loadTrackerPlane data (old p) new load)

/-- `vc4_load_tracker_atomic_check` -/
def vc4LoadTrackerAtomicCheck (dev : Vc4Dev ι π) (req : AtomicState ι π) (s : KmsState ι π) :
    Except CheckErr Vc4LoadTrackerState :=
  let load := loadTrackerLoop dev.crtc s.plane req.plane dev.planes s.load
  if req.loadTrackerEnabled = false then .ok load
  else if 2 ^ 30 + 2 ^ 29 < load.membusLoad.toNat then .error .enospc
  else if 240000000 < load.hvsLoad.toNat then .error .enospc
  else .ok load

/-- `fifo_state[channel].fifo_load = load` -/
def setFifoLoad (fifoState : ℕ → FifoState) (channel load : ℕ) : Except CheckErr (ℕ → FifoState) :=
  if channel < HVS_NUM_CHANNELS then
    .ok (Function.update fifoState channel { fifoState channel with fifoLoad := load })
  else .error .outOfRange

/-- One CRTC of `vc4_core_clock_atomic_check`. -/
def coreClockCrtc (old new : Vc4CrtcState) (fifoState : ℕ → FifoState) :
    Except CheckErr (ℕ → FifoState) :=
  (if old.active then setFifoLoad fifoState old.assignedChannel 0 else .ok fifoState).bind
    fun fifoState =>
      if new.active then setFifoLoad fifoState new.assignedChannel new.hvsLoad else .ok fifoState

/-- The first loop of `vc4_core_clock_atomic_check`. -/
def coreClockLoop (old new : ι → Vc4CrtcState) (req : ι → Option CrtcRequest) :
    List ι → (ℕ → FifoState) → Except CheckErr (ℕ → FifoState)
  | [], fifoState => .ok fifoState
  | c :: l, fifoState =>
    match req c with
    | none => coreClockLoop old new req l fifoState
    | some _ => (coreClockCrtc (old c) (new c) fifoState).bind (coreClockLoop old new req l)

/-- The second loop of `vc4_core_clock_atomic_check` : the channels in use, and the highest load of
them. -/
def cobRate (fifoState : ℕ → FifoState) : ℕ × ℕ :=
  (List.range HVS_NUM_CHANNELS).foldl
    (fun (numOutputs, cobRate) i =>
      if (fifoState i).inUse = false then (numOutputs, cobRate)
      else (numOutputs + 1, max (fifoState i).fifoLoad cobRate))
    (0, 0)

/-- `vc4_core_clock_atomic_check` -/
def vc4CoreClockAtomicCheck (dev : Vc4Dev ι π) (req : AtomicState ι π) (old : ι → Vc4CrtcState)
    (m : MuxState ι) (load : Vc4LoadTrackerState) : Except CheckErr Vc4HvsState :=
  (coreClockLoop old m.crtc req.crtc dev.crtcs m.fifoState).map fun fifoState =>
    let (numOutputs, cobRate) := cobRate fifoState
    let pixelRate :=
      if 1 < numOutputs then load.hvsLoad * 40 / 100 else load.hvsLoad * 60 / 100
    { fifoState, coreClockRate := max cobRate pixelRate.toNat }

/-- `vc4_atomic_check`. The new state of all objects. -/
def vc4AtomicCheck (dev : Vc4Dev ι π) (req : AtomicState ι π) (s : KmsState ι π) :
    Except CheckErr (KmsState ι π) := do
  let m ← vc4PvMuxingAtomicCheck dev req s
  if req.helpers = false then .error .einval else
  let load ← vc4LoadTrackerAtomicCheck dev req s
  let hvs ← vc4CoreClockAtomicCheck dev req s.crtc m load
  return { s with crtc := m.crtc, plane := fun p => (req.plane p).getD (s.plane p), hvs, load }

/-! ## Muxes -/

/-- `VC4_MASK` of the `width` bits from `shift` on. -/
def fieldMask (shift width : ℕ) : BitVec 32 :=
  BitVec.ofNat 32 (2 ^ width - 1) <<< shift

/-- `VC4_GET_FIELD` -/
def fieldGet (shift width : ℕ) (reg : BitVec 32) : ℕ :=
  ((reg &&& fieldMask shift width) >>> shift).toNat

/-- The register with the field set, `FIELD_PREP` and what goes with it. -/
def fieldSet (shift width : ℕ) (reg : BitVec 32) (value : ℕ) : BitVec 32 :=
  (reg &&& ~~~ fieldMask shift width) ||| (BitVec.ofNat 32 value <<< shift &&& fieldMask shift width)

/-- The `WARN_ON` of `VC4_SET_FIELD`. -/
def fieldWarns (width value : ℕ) : Bool :=
  decide (2 ^ width ≤ value)

/-- The muxes in `vc4_hvs_hw_init`. -/
def vc4HvsHwInit (regs : HvsRegs) : HvsRegs where
  dispectrl := fieldSet 31 1 regs.dispectrl 0
  dispctrl := fieldSet 18 2 regs.dispctrl 3
  dispeoln := fieldSet 30 2 regs.dispeoln 3
  dispdither := fieldSet 30 2 regs.dispdither 3
  warned := fieldWarns 1 0 || fieldWarns 2 3

/-- One CRTC of `vc5_hvs_pv_muxing_commit`. -/
def vc5PvMuxingCrtc (data : Vc4CrtcData) (c : Vc4CrtcState) (regs : HvsRegs) : HvsRegs :=
  let channel := c.assignedChannel
  let mux := if channel = VC4_HVS_CHANNEL_DISABLED then 3 else channel
  if c.updateMuxing = false then regs
  else match data.hvsOutput with
    | 2 =>
      let mux := if channel = 2 then 0 else 1
      { regs with
        dispectrl := fieldSet 31 1 regs.dispectrl mux
        warned := regs.warned || fieldGet 18 2 regs.dispctrl == channel || fieldWarns 1 mux }
    | 3 => { regs with
        dispctrl := fieldSet 18 2 regs.dispctrl mux
        warned := regs.warned || fieldWarns 2 mux }
    | 4 => { regs with
        dispeoln := fieldSet 30 2 regs.dispeoln mux
        warned := regs.warned || fieldWarns 2 mux }
    | 5 => { regs with
        dispdither := fieldSet 30 2 regs.dispdither mux
        warned := regs.warned || fieldWarns 2 mux }
    | _ => regs

/-- `vc5_hvs_pv_muxing_commit` -/
def vc5HvsPvMuxingCommit (data : ι → Vc4CrtcData) (req : ι → Option CrtcRequest)
    (new : ι → Vc4CrtcState) : List ι → HvsRegs → HvsRegs
  | [], regs => regs
  | c :: l, regs =>
    vc5HvsPvMuxingCommit data req new l
      (if (req c).isSome then vc5PvMuxingCrtc (data c) (new c) regs else regs)

/-- `vc4_hvs_get_fifo_from_output` of the generation that `vc5_hvs_pv_muxing_commit` is for. `none`
is `-EPIPE`. -/
def vc5HvsGetFifoFromOutput (regs : HvsRegs) (output : ℕ) : Option ℕ :=
  let mux (ret : ℕ) : Option ℕ := if ret = 3 then none else some ret
  match output with
  | 0 => some 0
  | 1 => some 1
  | 2 => if fieldGet 31 1 regs.dispectrl = 0 then some 2 else some 0
  | 3 => mux (fieldGet 18 2 regs.dispctrl)
  | 4 => mux (fieldGet 30 2 regs.dispeoln)
  | 5 => mux (fieldGet 30 2 regs.dispdither)
  | _ => none

/-! ## Commits -/

/-- A commit : the check, and if it accepts, the new states and the muxes. -/
def vc4AtomicCommit (dev : Vc4Dev ι π) (s : KmsState ι π) (req : AtomicState ι π) : KmsState ι π :=
  match vc4AtomicCheck dev req s with
  | .ok s' => { s' with regs := vc5HvsPvMuxingCommit dev.crtc req.crtc s'.crtc dev.crtcs s'.regs }
  | .error _ => s

/-- The commits of a run, from the state that `vc4_kms_load` leaves. -/
def kmsRun (dev : Vc4Dev ι π) (regs : HvsRegs) (reqs : List (AtomicState ι π)) : KmsState ι π :=
  reqs.foldl (vc4AtomicCommit dev) { regs := vc4HvsHwInit regs }

/-! ## The pixelvalves -/

/-- The pixelvalves of a BCM2835, as the driver has them. -/
def bcm2835Pv0Data : Vc4CrtcData := ⟨2 ^ 0, 0, false⟩

def bcm2835Pv1Data : Vc4CrtcData := ⟨2 ^ 0 ||| 2 ^ 1 ||| 2 ^ 2, 2, false⟩

def bcm2835Pv2Data : Vc4CrtcData := ⟨2 ^ 1, 1, false⟩

/-- Those of a BCM2711. -/
def bcm2711Pv0Data : Vc4CrtcData := ⟨2 ^ 0, 0, false⟩

def bcm2711Pv1Data : Vc4CrtcData := ⟨2 ^ 0 ||| 2 ^ 1 ||| 2 ^ 2, 3, false⟩

def bcm2711Pv2Data : Vc4CrtcData := ⟨2 ^ 0 ||| 2 ^ 1 ||| 2 ^ 2, 4, false⟩

def bcm2711Pv3Data : Vc4CrtcData := ⟨2 ^ 1, 1, false⟩

def bcm2711Pv4Data : Vc4CrtcData := ⟨2 ^ 0 ||| 2 ^ 1 ||| 2 ^ 2, 5, false⟩

/-- Those of a BCM2712. -/
def bcm2712Pv0Data : Vc4CrtcData := ⟨2 ^ 0, 0, false⟩

def bcm2712Pv1Data : Vc4CrtcData := ⟨2 ^ 1, 1, false⟩

/-- The pixelvalves of the BCM2711. -/
def bcm2711Pixelvalves : List Vc4CrtcData :=
  [bcm2711Pv0Data, bcm2711Pv1Data, bcm2711Pv2Data, bcm2711Pv3Data, bcm2711Pv4Data]

/-- The pixelvalves of each chip. -/
def pixelvalves : List (List Vc4CrtcData) :=
  [[bcm2835Pv0Data, bcm2835Pv1Data, bcm2835Pv2Data], bcm2711Pixelvalves,
    [bcm2712Pv0Data, bcm2712Pv1Data]]

end KernelModules
