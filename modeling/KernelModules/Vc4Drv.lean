import KernelModules.Platform

/-!
# The vc4 driver and its newbus glue

`vc4_drv.c` : the master's probe asks the platform-device registry for the devices of each
driver of `component_drivers`, in order, and registers a match list that names them. Its
bind callback `vc4_drm_bind` sets up the drm device, calls `component_bind_all`, and goes
on to register the device. What the other calls of `vc4_drm_bind` return is given
(`Vc4DrmBindCalls`).

`vc4_newbus.c` : newbus attaches each block through `vc4_newbus_attach`, which records the
block in the device-to-node table and in the platform-device registry and calls the
driver's probe.
-/

namespace KernelModules

/-! ## The master's bind callback -/

/-- `enum vc4_gen` -/
inductive Vc4Gen where
  | gen4
  | gen5
  | gen6C
  | gen6D
deriving DecidableEq, Repr

/-- What the calls in a run of `vc4_drm_bind` return. -/
structure Vc4DrmBindCalls where
  gen : Vc4Gen
  /-- `of_dma_configure`, if there is a node with dma ranges. -/
  ofDmaConfigure : Option Int
  /-- `devm_drm_dev_alloc` : an error, or the new drm device. -/
  drmDevAlloc : Except Int Ptr
  mutexInit : Int
  boCacheInit : Int
  modeConfigInit : Int
  gemInit : Int
  /-- Whether `rpi_firmware_get` finds the firmware, if there is a node for it. -/
  firmwareGet : Option Bool
  removeFramebuffers : Int
  addAction : Int
  /-- `vc4->firmware_kms`, once the components are bound. -/
  firmwareKms : Bool
  createAdditionalPlanes : Int
  kmsLoad : Int
  devRegister : Int

/-- `if (ret) goto err;` -/
def check (ret : Int) : Except Int Unit :=
  if ret ≠ 0 then .error ret else .ok ()

/-- `vc4_drm_bind` up to its call of `component_bind_all` : an error, or the drm device. -/
def Vc4DrmBindCalls.prepare (v : Vc4DrmBindCalls) : Except Int Ptr := do
  check (v.ofDmaConfigure.getD 0)
  let drm ← v.drmDevAlloc
  if v.gen = .gen4 then
    check v.mutexInit
    check v.boCacheInit
  check v.modeConfigInit
  if v.gen = .gen4 then
    check v.gemInit
  if v.firmwareGet = some false then
    throw (-EPROBE_DEFER)
  check v.removeFramebuffers
  return drm

/-- `vc4_drm_bind` once the unbind action is added. -/
def Vc4DrmBindCalls.finish (v : Vc4DrmBindCalls) : Int :=
  if !v.firmwareKms && v.createAdditionalPlanes != 0 then v.createAdditionalPlanes
  else if v.kmsLoad < 0 then v.kmsLoad
  else if v.devRegister < 0 then v.devRegister
  else 0

/-- `vc4_drm_bind`. The action that unbinds the components is added after they are all
bound; when adding it fails it is run at once. -/
def vc4DrmBind (v : Vc4DrmBindCalls) (dev : Ptr) : Script :=
  match v.prepare with
  | .error ret => .done ret
  | .ok drm => .bindAll dev drm fun ret =>
      if ret ≠ 0 then .done ret
      else if v.addAction ≠ 0 then .unbindAll dev drm (.done v.addAction)
      else .done v.finish

/-- All calls of `vc4_drm_bind` succeed, with the drm device `drm`. -/
def vc4CallsOk (drm : Ptr) : Vc4DrmBindCalls where
  gen := .gen6C
  ofDmaConfigure := some 0
  drmDevAlloc := .ok drm
  mutexInit := 0
  boCacheInit := 0
  modeConfigInit := 0
  gemInit := 0
  firmwareGet := some true
  removeFramebuffers := 0
  addAction := 0
  firmwareKms := false
  createAdditionalPlanes := 0
  kmsLoad := 0
  devRegister := 0

/-! ## Drivers -/

/-- The drivers of `component_drivers`. -/
inductive Vc4Component where
  | hvs
  | hdmi
  | crtc
deriving DecidableEq, Repr

/-- `&vc4_hvs_driver.driver`, `&vc4_hdmi_driver.driver`, `&vc4_crtc_driver.driver` -/
def Vc4Component.driver : Vc4Component → Ptr
  | .hvs => 1
  | .hdmi => 2
  | .crtc => 3

/-- `&vc4_hvs_ops`, `&vc4_hdmi_ops`, `&vc4_crtc_ops` -/
def Vc4Component.ops : Vc4Component → Ptr
  | .hvs => 11
  | .hdmi => 12
  | .crtc => 13

/-- `vc4_hvs_dt_match`, `vc4_hdmi_dt_match`, `vc4_crtc_dt_match` -/
def Vc4Component.ofMatchTable : Vc4Component → Ptr
  | .hvs => 21
  | .hdmi => 22
  | .crtc => 23

/-- `component_drivers` -/
def componentDrivers : List Vc4Component :=
  [.hvs, .hdmi, .crtc]

/-- `&vc4_platform_driver.driver` -/
def vc4MasterDriver : Ptr := 4

/-- `&vc4_drm_ops` -/
def vc4DrmOps : Ptr := 14

/-- `vc4_of_match` -/
def vc4OfMatch : Ptr := 24

/-- `vc4_match_add_drivers` : for each driver in turn, one match entry per device. -/
def vc4MatchAddDrivers (env : Env) (pdevs : List LkpiPdevEnt) (fuel : ℕ) :
    List Ptr → Option ComponentMatch × Registry → Option (Option ComponentMatch × Registry)
  | [], r => some r
  | drv :: drivers, r =>
    (enumerate drv pdevs (fun r d => componentMatchAdd env r.1 componentCompareDev d r.2)
      fuel NULL r).bind (vc4MatchAddDrivers env pdevs fuel drivers)

/-- If no device of a driver is recorded before, the requests are for the devices of the
drivers, driver by driver, in attach order within a driver. -/
theorem vc4MatchAddDrivers_eq (env : Env) {pdevs : List LkpiPdevEnt}
    (hnull : ∀ e ∈ pdevs, e.drv ≠ NULL) {fuel : ℕ} (hfuel : pdevs.length < fuel) :
    ∀ (drivers : List Ptr) (r : Option ComponentMatch × Registry),
      (∀ drv ∈ drivers, FirstOfDevice drv pdevs) →
      vc4MatchAddDrivers env pdevs fuel drivers r =
        some (componentMatchAddDevs env (drivers.flatMap (devsOf · pdevs)) r)
  | [], _, _ => rfl
  | drv :: drivers, r, hfirst => by
    obtain ⟨hdrv, hfirst⟩ := List.forall_mem_cons.1 hfirst
    have hone : enumerate drv pdevs
        (fun r d => componentMatchAdd env r.1 componentCompareDev d r.2) fuel NULL r =
          some (componentMatchAddDevs env (devsOf drv pdevs) r) := by
      by_cases h : drv = NULL
      · have hnil : devsOf NULL pdevs = [] := by
          rw [devsOf, List.filter_eq_nil_iff.2 fun e he => by simpa using hnull e he, List.map_nil]
        rw [h, enumerate_null _ _ (Nat.lt_of_le_of_lt (Nat.zero_le _) hfuel), hnil]
        rfl
      · exact enumerate_eq h hdrv _ hfuel r
    rw [vc4MatchAddDrivers, hone, Option.bind_some,
      vc4MatchAddDrivers_eq env hnull hfuel drivers _ hfirst]
    simp [componentMatchAddDevs]

/-- The callbacks of the vc4 module. All component operations have both callbacks, and the
master's unbind callback unbinds no components. -/
def vc4Env (bind : Ptr → List Event → Ptr → Ptr → Ptr → Int)
    (calls : List Event → Vc4DrmBindCalls) (mallocOk : ℕ → Bool) : Env where
  componentOps ops := ⟨true, bind ops, true⟩
  masterOps _ := ⟨true, fun tr dev => vc4DrmBind (calls tr) dev, true, fun _ _ => .done 0⟩
  mallocOk := mallocOk

/-! ## Attaching -/

/-- `struct lkpi_of_ent` -/
structure LkpiOfEnt where
  dev : Ptr
  node : Ptr
  matchTable : Ptr
deriving DecidableEq, Repr

/-- `lkpi_set_of_node` -/
def lkpiSetOfNode (dev node matchTable : Ptr) (l : List LkpiOfEnt) : List LkpiOfEnt :=
  if dev = NULL then l else l ++ [⟨dev, node, matchTable⟩]

/-- `lkpi_clear_of_node` -/
def lkpiClearOfNode (dev : Ptr) (l : List LkpiOfEnt) : List LkpiOfEnt :=
  l.eraseP (·.dev == dev)

/-- The lists of the module : the component framework, `lkpi_pdevs` and `lkpi_of_nodes`. -/
structure Vc4System where
  registry : Registry := {}
  pdevs : List LkpiPdevEnt := []
  ofNodes : List LkpiOfEnt := []

/-- `struct platform_driver`. A probe may run out of fuel. -/
structure PlatformDriver where
  driver : Ptr
  ofMatchTable : Ptr
  probe : Option (Ptr → Vc4System → Option (Int × Vc4System))
  removeNew : Option (Ptr → Vc4System → Vc4System)
  remove : Option (Ptr → Vc4System → Vc4System)

/-- A block newbus attaches : its platform device and its node, both part of its softc. -/
structure NewbusDevice where
  pdev : Ptr
  node : Ptr
  pdev_ne : pdev ≠ NULL
deriving DecidableEq, Repr

/-- `vc4_newbus_attach`. `dmaPrivInit` is what `linux_dma_priv_init` returns. Reading the
interrupt number changes none of the lists. -/
def vc4NewbusAttach (dmaPrivInit : Int) (drv : PlatformDriver) (d : NewbusDevice)
    (sys : Vc4System) : Option (Int × Vc4System) :=
  let sys := { sys with
    ofNodes := lkpiSetOfNode (pdevDev d.pdev) d.node drv.ofMatchTable sys.ofNodes
    pdevs := lkpiPlatformDeviceRegister d.pdev drv.driver sys.pdevs }
  if dmaPrivInit ≠ 0 then some (dmaPrivInit, sys)
  else
    match drv.probe with
    | none => some ( ENXIO, sys)
    | some probe =>
      (probe d.pdev sys).map fun r => if r.1 ≠ 0 then ( ENXIO, r.2) else (0, r.2)

/-- `vc4_newbus_detach` -/
def vc4NewbusDetach (drv : PlatformDriver) (d : NewbusDevice) (sys : Vc4System) : Vc4System :=
  let sys := match drv.removeNew with
    | some remove => remove d.pdev sys
    | none => match drv.remove with
      | some remove => remove d.pdev sys
      | none => sys
  { sys with
    pdevs := lkpiPlatformDeviceUnregister d.pdev sys.pdevs
    ofNodes := lkpiClearOfNode (pdevDev d.pdev) sys.ofNodes }

/-- Run a function of the component framework. -/
def Vc4System.withRegistry (sys : Vc4System) (r : Int × Registry) : Int × Vc4System :=
  (r.1, { sys with registry := r.2 })

/-- `vc4_hvs_driver`, `vc4_hdmi_driver`, `vc4_crtc_driver` : probe adds the component,
remove deletes it. -/
def Vc4Component.platformDriver (env : Env) (k : Vc4Component) : PlatformDriver where
  driver := k.driver
  ofMatchTable := k.ofMatchTable
  probe := some fun pdev sys =>
    some (sys.withRegistry (componentAdd env (pdevDev pdev) k.ops sys.registry))
  removeNew := some fun pdev sys =>
    { sys with registry := componentDel env (pdevDev pdev) k.ops sys.registry }
  remove := none

/-- `vc4_platform_drm_probe` -/
def vc4PlatformDrmProbe (env : Env) (fuel : ℕ) (pdev : Ptr) (sys : Vc4System) :
    Option (Int × Vc4System) :=
  (vc4MatchAddDrivers env sys.pdevs fuel (componentDrivers.map Vc4Component.driver)
    (none, sys.registry)).map fun r =>
      sys.withRegistry (componentMasterAddWithMatch env (pdevDev pdev) vc4DrmOps r.1 r.2)

/-- `vc4_platform_driver` -/
def vc4PlatformDriver (env : Env) (fuel : ℕ) : PlatformDriver where
  driver := vc4MasterDriver
  ofMatchTable := vc4OfMatch
  probe := some (vc4PlatformDrmProbe env fuel)
  removeNew := some fun pdev sys =>
    { sys with registry := componentMasterDel env (pdevDev pdev) vc4DrmOps sys.registry }
  remove := none

end KernelModules
