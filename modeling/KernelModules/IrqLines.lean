import KernelModules.IrqBalance
import KernelModules.OfMatch
import KernelModules.OfStrings

/-!
# The interrupts of a device

A device asks for its interrupts by index (`lkpi_platform_get_irq`) or by name
(`lkpi_platform_get_irq_byname`). Both give the resource id with the tag of `Irq`, as an `int`,
and a request takes the id out of it again.

For a device with several interrupts and a name for each, the two give the same number for the
same line, a request on it allocates that line, and every other index or name gives an error
(`OfIrqDevice.irq_line`). An index of 2³¹ or more is negative as an `int` and passes the test
against the number of interrupts. It keeps its sign when the tag is set, so it is an error too.
-/

namespace KernelModules

open CStrings

/-- The type of a resource. -/
inductive ResourceType where
  | irq
  | memory
  | ioport
deriving DecidableEq, Repr

/-- `struct resource_list_entry` -/
structure ResourceListEntry where
  type : ResourceType
  rid : ℕ
deriving DecidableEq, Repr

/-- What attach put on the devices. -/
structure PlatformBus where
  /-- `BUS_GET_RESOURCE_LIST`, by newbus device. -/
  resourceList : Ptr → Option (List ResourceListEntry)
  /-- `dev->irq` -/
  irq : Ptr → UInt32
  /-- `LINUX_IRQ_INVALID` -/
  irqInvalid : UInt32

section Source

variable (N : Newbus) (B : PlatformBus)

/-- `lkpi_of_irq_count` -/
def lkpiOfIrqCount (pdev : Ptr) : ℕ :=
  if N.bsddev (pdevDev pdev) = NULL then 0
  else
    match B.resourceList (N.bsddev (pdevDev pdev)) with
    | none => 0
    | some rl => rl.countP (·.type == .irq)

/-- `lkpi_platform_get_irq` -/
def lkpiPlatformGetIrq (pdev : Ptr) (num : UInt32) : Int32 :=
  if pdev = NULL then .ofInt (- ENXIO)
  else if num = 0 ∧ lkpiOfIrqCount N B pdev ≤ 1 then
    if B.irq (pdevDev pdev) = B.irqInvalid then .ofInt (- ENXIO)
    else (B.irq (pdevDev pdev)).toInt32
  else if Int32.ofNat (lkpiOfIrqCount N B pdev) ≤ num.toInt32 then .ofInt (- ENXIO)
  else (lkpiIrqOf num).toInt32

/-- `lkpi_platform_get_irq_byname` -/
def lkpiPlatformGetIrqByname (F : OpenFirmware) (P : OfProperties) (l : List LkpiOfEnt) (h : OfHeap)
    (fuel : ℕ) (pdev : Ptr) (name : Option CString) : Option Int32 :=
  match name with
  | none => some (.ofInt (- ENXIO))
  | some name =>
    let dn := devOfNode (pdevDev pdev) l
    if pdev = NULL ∨ dn = NULL ∨ h.node F dn = 0 then some (.ofInt (- ENXIO))
    else if P.ofGetprop (h.node F dn) "interrupt-names" = [] then some (.ofInt (- ENXIO))
    else (matchProperty P fuel (h.node F dn) "interrupt-names" name).map fun r =>
      match r.1 with
      | none => .ofInt (- ENXIO)
      | some i =>
        if lkpiOfIrqCount N B pdev ≤ i then .ofInt (- ENXIO)
        else (lkpiIrqOf (.ofNat i)).toInt32

end Source

/-! ## The tag -/

section Tag

variable {num : UInt32}

theorem toNat_lkpiIrqOf (h : num.toNat < 2 ^ 30) : (lkpiIrqOf num).toNat = 2 ^ 30 + num.toNat := by
  rw [lkpiIrqOf, UInt32.toNat_or]
  simpa using (Nat.two_pow_add_eq_or_of_lt h 1).symm

theorem lkpiIrqIsOf_lkpiIrqOf (num : UInt32) : lkpiIrqIsOf (lkpiIrqOf num) = true := by
  rw [lkpiIrqIsOf, bne_iff_ne]
  intro h
  have htag : (0x40000000 : ℕ).testBit 30 = true := by decide
  have hbit := congrArg (fun x => x.toNat.testBit 30) h
  rw [lkpiIrqOf] at hbit
  simp [htag] at hbit

theorem lkpiIrqOfRid_lkpiIrqOf (h : num.toNat < 2 ^ 16) :
    lkpiIrqOfRid (lkpiIrqOf num) = num.toNat := by
  rw [lkpiIrqOfRid, UInt32.toNat_and, toNat_lkpiIrqOf (by omega),
    show (0xffff : UInt32).toNat = 2 ^ 16 - 1 from rfl, Nat.and_two_pow_sub_one_eq_mod]
  omega

/-- As an `int`, an unsigned value is negative from 2³¹ on. -/
theorem toInt32_lt_zero_iff : num.toInt32 < 0 ↔ 2 ^ 31 ≤ num.toNat := by
  rw [Int32.lt_iff_toInt_lt]
  change num.toBitVec.toInt < 0 ↔ _
  rw [BitVec.toInt_neg_iff]
  change 2 ^ 32 ≤ 2 * num.toNat ↔ _
  omega

theorem toInt_toInt32 (h : num.toNat < 2 ^ 31) : num.toInt32.toInt = num.toNat := by
  refine BitVec.toInt_eq_toNat_of_lt ?_
  change 2 * num.toNat < 2 ^ 32
  omega

end Tag

/-! ## Requests -/

/-- A request on `irq` asks newbus for the resource `rid` of the device. It fails if there is none.
Else it holds the resource, unless its handler cannot be set up. -/
def RequestsRid {σ : Type} (K : IrqKernel σ) (N : Newbus) (dev : Ptr) (irq : UInt32) (rid : ℕ) :
    Prop :=
  ∀ (handler : Ptr) (flags : ℕ) (arg : Ptr) (s : IrqState σ),
    match N.busAllocResourceAny s.held (N.bsddev dev) rid (flags &&& IRQF_SHARED != 0) with
    | none => lkpiOfRequestIrq K N dev irq handler NULL flags arg s = (- ENXIO, s)
    | some res =>
      let setup := (N.busSetupIntr s.handlers (N.bsddev dev) res).1
      (lkpiOfRequestIrq K N dev irq handler NULL flags arg s).1 = -setup ∧
      (lkpiOfRequestIrq K N dev irq handler NULL flags arg s).2.held =
        if setup = 0 then ⟨N.bsddev dev, rid, res⟩ :: s.held else s.held

theorem requestsRid_of_lkpiIrqIsOf {σ : Type} (K : IrqKernel σ) {N : Newbus} {dev : Ptr}
    {irq : UInt32} (htag : lkpiIrqIsOf irq = true) (hdev : dev ≠ NULL)
    (hbsddev : N.bsddev dev ≠ NULL) : RequestsRid K N dev irq (lkpiIrqOfRid irq) := by
  intro handler flags arg s
  cases halloc : N.busAllocResourceAny s.held (N.bsddev dev) (lkpiIrqOfRid irq)
      (flags &&& IRQF_SHARED != 0) with
  | none => simp [lkpiOfRequestIrq, htag, hdev, hbsddev, halloc]
  | some res =>
    rcases hsetup : N.busSetupIntr s.handlers (N.bsddev dev) res with ⟨error, cookie⟩
    by_cases h0 : error = 0
    · simp [lkpiOfRequestIrq, htag, hdev, hbsddev, halloc, hsetup, h0]
    · simp [lkpiOfRequestIrq, htag, hdev, hbsddev, halloc, hsetup, h0]

/-! ## A device with named interrupts -/

/-- A device-tree device with an interrupt for each of the names, two at least, whose resource ids
are 0, 1, 2, … -/
structure OfIrqDevice (N : Newbus) (B : PlatformBus) (F : OpenFirmware) (P : OfProperties)
    (l : List LkpiOfEnt) (h : OfHeap) (pdev : Ptr) (rl : List ResourceListEntry)
    (names : List CString) : Prop where
  pdev_ne : pdev ≠ NULL
  bsddev_ne : N.bsddev (pdevDev pdev) ≠ NULL
  resourceList : B.resourceList (N.bsddev (pdevDev pdev)) = some rl
  rids : ((rl.filter (·.type == .irq)).map ResourceListEntry.rid).Perm (List.range names.length)
  two_le : 2 ≤ names.length
  le : names.length ≤ 65536
  devOfNode_ne : devOfNode (pdevDev pdev) l ≠ NULL
  node_ne : h.node F (devOfNode (pdevDev pdev) l) ≠ 0
  interruptNames : P.ofGetprop (h.node F (devOfNode (pdevDev pdev) l)) "interrupt-names" =
    joinNul (names.map CString.bytes)
  nodup : (names.map CString.bytes).Nodup

namespace OfIrqDevice

variable {N : Newbus} {B : PlatformBus} {F : OpenFirmware} {P : OfProperties} {l : List LkpiOfEnt}
  {h : OfHeap} {pdev : Ptr} {rl : List ResourceListEntry} {names : List CString}

theorem lkpiOfIrqCount_eq (D : OfIrqDevice N B F P l h pdev rl names) :
    lkpiOfIrqCount N B pdev = names.length := by
  have hlen := D.rids.length_eq
  rw [List.length_map, List.length_range] at hlen
  rw [lkpiOfIrqCount, if_neg D.bsddev_ne, D.resourceList]
  exact List.countP_eq_length_filter.trans hlen

theorem lkpiPlatformGetIrq_eq (D : OfIrqDevice N B F P l h pdev rl names) {num : UInt32}
    (hlt : num.toNat < names.length) :
    lkpiPlatformGetIrq N B pdev num = (lkpiIrqOf num).toInt32 := by
  have := D.two_le
  have := D.le
  have hcount : ¬Int32.ofNat names.length ≤ num.toInt32 := by
    rw [Int32.le_iff_toInt_le, toInt_toInt32 (by omega), Int32.toInt_ofNat_of_lt (by omega)]
    omega
  rw [lkpiPlatformGetIrq, if_neg D.pdev_ne, D.lkpiOfIrqCount_eq, if_neg (by omega), if_neg hcount]

/-- An index without an interrupt gives an error : from 2³¹ on its sign is the error. -/
theorem lkpiPlatformGetIrq_lt_zero (D : OfIrqDevice N B F P l h pdev rl names) {num : UInt32}
    (hle : names.length ≤ num.toNat) : lkpiPlatformGetIrq N B pdev num < 0 := by
  have := D.two_le
  have := D.le
  rw [lkpiPlatformGetIrq, if_neg D.pdev_ne, D.lkpiOfIrqCount_eq, if_neg (by omega)]
  split
  · decide
  · next hcount =>
    rw [toInt32_lt_zero_iff, lkpiIrqOf, UInt32.toNat_or]
    refine Nat.le_trans ?_ Nat.right_le_or
    by_contra hlt
    rw [Int32.le_iff_toInt_le, toInt_toInt32 (by omega), Int32.toInt_ofNat_of_lt (by omega)]
      at hcount
    omega

theorem matchProperty_eq (D : OfIrqDevice N B F P l h pdev rl names) (name : CString) {fuel : ℕ}
    (hfuel : (joinNul (names.map CString.bytes)).length < fuel) :
    ∃ reads, matchProperty P fuel (h.node F (devOfNode (pdevDev pdev) l)) "interrupt-names" name =
      some ((names.map CString.bytes).idxOf? name.bytes, reads) := by
  have hat := at_layout (joinNul (names.map CString.bytes))
    (P.behind (h.node F (devOfNode (pdevDev pdev) l)) "interrupt-names")
  rw [← List.append_nil (joinNul (names.map CString.bytes))] at hat hfuel
  obtain ⟨reads, hsearch, -⟩ := matchStrings_spec name.nul_notMem hat
    (by simpa using fun s _ => s.nul_notMem) (.inl rfl) (i := 0) (Nat.zero_add _) hfuel
  refine ⟨reads, ?_⟩
  rw [matchProperty, D.interruptNames]
  simpa using hsearch

theorem lkpiPlatformGetIrqByname_eq (D : OfIrqDevice N B F P l h pdev rl names) (name : CString)
    {fuel : ℕ} (hfuel : (joinNul (names.map CString.bytes)).length < fuel) :
    lkpiPlatformGetIrqByname N B F P l h fuel pdev (some name) =
      some (match (names.map CString.bytes).idxOf? name.bytes with
        | none => .ofInt (- ENXIO)
        | some i => (lkpiIrqOf (.ofNat i)).toInt32) := by
  obtain ⟨reads, hsearch⟩ := D.matchProperty_eq name hfuel
  have hne : joinNul (names.map CString.bytes) ≠ [] := by
    cases hnames : names with
    | nil => exact absurd (hnames ▸ D.two_le) (by decide)
    | cons s names => simp
  rw [lkpiPlatformGetIrqByname, if_neg (by simp [D.pdev_ne, D.devOfNode_ne, D.node_ne]),
    if_neg (D.interruptNames ▸ hne), hsearch, Option.map_some]
  cases hidx : (names.map CString.bytes).idxOf? name.bytes with
  | none => rfl
  | some i =>
    obtain ⟨hi, -, -⟩ := List.idxOf?_eq_some_iff.1 hidx
    rw [List.length_map] at hi
    rw [D.lkpiOfIrqCount_eq]
    dsimp only
    rw [if_neg (Nat.not_le.2 hi)]

theorem idxOf?_bytes (D : OfIrqDevice N B F P l h pdev rl names) {i : ℕ} {name : CString}
    (hi : names[i]? = some name) : (names.map CString.bytes).idxOf? name.bytes = some i := by
  rw [idxOf?_eq_some_iff_getElem?]
  have hbytes : (names.map CString.bytes)[i]? = some name.bytes := by simp [hi]
  refine ⟨hbytes, fun j hj hjn => ?_⟩
  have hlt := (List.getElem?_eq_some_iff.1 hbytes).1
  have hij := (List.getElem?_inj (Nat.lt_trans hj hlt) D.nodup).1 (hjn.trans hbytes.symm)
  exact Nat.ne_of_lt hj hij

/-- An interrupt has one number, by index and by name. A request on it allocates the interrupt's
resource. Different interrupts have different numbers, and every other index or name gives an
error. -/
theorem irq_line {σ : Type} (K : IrqKernel σ) (D : OfIrqDevice N B F P l h pdev rl names) :
    (∀ i name, names[i]? = some name → ∃ irq : Int32,
      lkpiPlatformGetIrq N B pdev (.ofNat i) = irq ∧
      (∀ fuel > (joinNul (names.map CString.bytes)).length,
        lkpiPlatformGetIrqByname N B F P l h fuel pdev (some name) = some irq) ∧
      0 ≤ irq ∧ lkpiIrqIsOf irq.toUInt32 = true ∧
      RequestsRid K N (pdevDev pdev) irq.toUInt32 i) ∧
    (∀ i < names.length, ∀ j < names.length, i ≠ j →
      lkpiPlatformGetIrq N B pdev (.ofNat i) ≠ lkpiPlatformGetIrq N B pdev (.ofNat j)) ∧
    (∀ num : UInt32, names.length ≤ num.toNat → lkpiPlatformGetIrq N B pdev num < 0) ∧
    ∀ name : CString, name.bytes ∉ names.map CString.bytes →
      ∀ fuel > (joinNul (names.map CString.bytes)).length, ∃ ret < 0,
        lkpiPlatformGetIrqByname N B F P l h fuel pdev (some name) = some ret := by
  have hle := D.le
  -- an index below the number of interrupts fits in the 16 bits of the resource id
  have htoNat : ∀ i < names.length, (UInt32.ofNat i).toNat = i := fun i hi =>
    UInt32.toNat_ofNat_of_lt' (Nat.lt_of_lt_of_le hi (Nat.le_trans hle (by decide)))
  have hrid : ∀ i < names.length, (UInt32.ofNat i).toNat < 2 ^ 16 := fun i hi => by
    rw [htoNat i hi]
    omega
  have htagged : ∀ i < names.length, (lkpiIrqOf (.ofNat i)).toNat = 2 ^ 30 + i := fun i hi => by
    rw [toNat_lkpiIrqOf (Nat.lt_trans (hrid i hi) (by decide)), htoNat i hi]
  have hget : ∀ i < names.length,
      lkpiPlatformGetIrq N B pdev (.ofNat i) = (lkpiIrqOf (.ofNat i)).toInt32 := fun i hi =>
    D.lkpiPlatformGetIrq_eq (by rwa [htoNat i hi])
  refine ⟨fun i name hi => ?_, fun i hi j hj hne heq => hne ?_,
    fun num => D.lkpiPlatformGetIrq_lt_zero, fun name hmem fuel hfuel => ?_⟩
  · have hlt := (List.getElem?_eq_some_iff.1 hi).1
    have htag := lkpiIrqIsOf_lkpiIrqOf (UInt32.ofNat i)
    refine ⟨_, hget i hlt, fun fuel hfuel => ?_, ?_, htag, ?_⟩
    · rw [D.lkpiPlatformGetIrqByname_eq name hfuel, D.idxOf?_bytes hi]
    · refine Int32.not_lt.1 (mt toInt32_lt_zero_iff.1 ?_)
      rw [htagged i hlt]
      omega
    · have hreq := requestsRid_of_lkpiIrqIsOf K htag (pdevDev_ne_null pdev) D.bsddev_ne
      rwa [lkpiIrqOfRid_lkpiIrqOf (hrid i hlt), htoNat i hlt] at hreq
  · rw [hget i hi, hget j hj] at heq
    have hnat : (lkpiIrqOf (.ofNat i)).toNat = (lkpiIrqOf (.ofNat j)).toNat :=
      congrArg (fun x => x.toUInt32.toNat) heq
    rw [htagged i hi, htagged j hj] at hnat
    exact Nat.add_left_cancel hnat
  · refine ⟨.ofInt (- ENXIO), by decide, ?_⟩
    rw [D.lkpiPlatformGetIrqByname_eq name hfuel, List.idxOf?_eq_none_iff.2 hmem]

end OfIrqDevice

/-- Newbus devices with a memory resource and two interrupts. -/
def twoLinesBus : PlatformBus where
  resourceList _ := some [⟨.irq, 0⟩, ⟨.memory, 0⟩, ⟨.irq, 1⟩]
  irq _ := 65535
  irqInvalid := 65535

/-- `"cec-rx"` -/
def cecRx : CString :=
  ⟨[99, 101, 99, 45, 114, 120], by decide⟩

/-- `"cec-tx"` -/
def cecTx : CString :=
  ⟨[99, 101, 99, 45, 116, 120], by decide⟩

/-- The second line of a device with the names `cec-rx` and `cec-tx`. -/
theorem irq_line_cecTx : ∃ irq : Int32,
    lkpiPlatformGetIrq exclusiveNewbus twoLinesBus 32 1 = irq ∧
    (∀ fuel > 14, lkpiPlatformGetIrqByname exclusiveNewbus twoLinesBus (claiming [])
      (.single [99, 101, 99, 45, 114, 120, 0, 99, 101, 99, 45, 116, 120, 0] (by decide))
      [⟨48, 64, 80⟩] { nodes := [(64, 5)] } fuel 32 (some cecTx) = some irq) ∧
    0 ≤ irq ∧ lkpiIrqIsOf irq.toUInt32 = true ∧
    RequestsRid listKernel exclusiveNewbus 48 irq.toUInt32 1 :=
  (OfIrqDevice.irq_line listKernel
    (⟨by decide, by decide, rfl, by decide, by decide, by decide, by decide, by decide, rfl,
      by decide⟩ : OfIrqDevice _ _ _ _ _ _ _ _ [cecRx, cecTx])).1 1 cecTx rfl

end KernelModules
