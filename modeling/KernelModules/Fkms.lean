import KernelModules.Attach

/-!
# The firmware-KMS master

`vc4_fkms_master.c` : one newbus device is master and component in one. Its attach records the
device in the device-to-node table, sets up a drm device, has the vendored driver register the
component, binds it with `component_bind_all`, and registers the drm device. What the calls
into drm return is given (`FkmsCalls`). No master is ever registered, so `component_bind_all`
binds every component that is not bound.

The exits of a failed attach undo nothing but the interrupt, and the detach has no
`lkpi_clear_of_node`, so every failed attach and every detach leaves the entry of the device in
the table. `fkmsBalanced_iff` : a run is balanced exactly if it has neither. In such a run every
attach binds the component it has registered, and no other (`componentBindAll_last`).
-/

namespace KernelModules

open Interleaving

/-! ## The source -/

/-- `&vc4_fkms_ops` -/
def vc4FkmsOps : Ptr := 15

/-- `vc4_firmware_kms_dt_match` -/
def vc4FirmwareKmsDtMatch : Ptr := 25

/-- A firmware-KMS device : the addresses in its softc. -/
structure FkmsDevice where
  pdev : Ptr
  master : Ptr
  node : Ptr
deriving DecidableEq, Repr

/-- `struct vc4_fkms_softc`. The drm device is that of `vc4`. -/
structure FkmsSoftc extends FkmsDevice where
  vc4 : Option Ptr := none
  bound : Bool := false
deriving DecidableEq, Repr

/-- What the calls in a run of `vc4_fkms_attach` return. -/
structure FkmsCalls where
  dmaPrivInit : Int
  /-- `devm_drm_dev_alloc` : the drm device, or an error pointer. -/
  drmDevAlloc : Option Ptr
  modeConfigInit : Int
  vblankInit : Int
  devRegister : Int

/-- The lists of the module : the component framework and `lkpi_of_nodes`. -/
structure FkmsSystem where
  registry : Registry := {}
  ofNodes : List LkpiOfEnt := []

/-- `vc4_fkms_probe` -/
def vc4FkmsProbe (env : Env) (pdev : Ptr) (s : Registry) : Int × Registry :=
  componentAdd env (pdevDev pdev) vc4FkmsOps s

/-- `vc4_fkms_remove` -/
def vc4FkmsRemove (env : Env) (pdev : Ptr) (s : Registry) : Registry :=
  componentDel env (pdevDev pdev) vc4FkmsOps s

/-- `return (error == 0 ? ENXIO : error);` -/
def fkmsFail (error : Int) : Int :=
  if error = 0 then ENXIO else error

/-- `vc4_fkms_attach`. The interrupt is read and handed back at once, so the exit has nothing to
release. -/
def vc4FkmsAttach (env : Env) (v : FkmsCalls) (sc : FkmsSoftc) (sys : FkmsSystem) :
    Int × FkmsSoftc × FkmsSystem :=
  let sys := { sys with
    ofNodes := lkpiSetOfNode (pdevDev sc.pdev) sc.node vc4FirmwareKmsDtMatch sys.ofNodes }
  if v.dmaPrivInit ≠ 0 then (fkmsFail v.dmaPrivInit, sc, sys)
  else
    match v.drmDevAlloc with
    | none => (fkmsFail ENOMEM, sc, sys)
    | some drm =>
      let sc := { sc with vc4 := some drm }
      if v.modeConfigInit ≠ 0 then (fkmsFail v.modeConfigInit, sc, sys)
      else
        let r := vc4FkmsProbe env sc.pdev sys.registry
        let sys := { sys with registry := r.2 }
        if r.1 ≠ 0 then (fkmsFail r.1, sc, sys)
        else
          let r := componentBindAll env sc.master drm sys.registry
          let sys := { sys with registry := r.2 }
          if r.1 ≠ 0 then (fkmsFail r.1, sc, sys)
          else
            let sc := { sc with bound := true }
            if v.vblankInit ≠ 0 then (fkmsFail v.vblankInit, sc, sys)
            else if v.devRegister ≠ 0 then (fkmsFail v.devRegister, sc, sys)
            else (0, sc, sys)

/-- `vc4_fkms_detach` -/
def vc4FkmsDetach (env : Env) (sc : FkmsSoftc) (sys : FkmsSystem) : FkmsSystem :=
  let registry := match sc.vc4 with
    | none => sys.registry
    | some drm =>
      if sc.bound then componentUnbindAll env sc.master drm sys.registry else sys.registry
  { sys with registry := vc4FkmsRemove env sc.pdev registry }

/-! ## Runs -/

/-- A call newbus makes. -/
inductive FkmsCall where
  | attach (v : FkmsCalls) (d : FkmsDevice)
  | detach (pdev : Ptr)

/-- The lists of the module, and the softcs of the attached devices. -/
structure FkmsState where
  sys : FkmsSystem := {}
  attached : List FkmsSoftc := []

/-- One call. Newbus attaches no attached device, hands it a zeroed softc, and detaches attached
devices only. -/
def fkmsStep (env : Env) : FkmsCall → FkmsState → Option FkmsState
  | .attach v d, s =>
    if d.pdev ∈ s.attached.map (·.pdev) then none
    else
      let r := vc4FkmsAttach env v { d with } s.sys
      some ⟨r.2.2, if r.1 = 0 then s.attached ++ [r.2.1] else s.attached⟩
  | .detach pdev, s =>
    (s.attached.find? (·.pdev == pdev)).map fun sc =>
      ⟨vc4FkmsDetach env sc s.sys, s.attached.eraseP (·.pdev == pdev)⟩

/-- Neither list has an entry of the platform device. -/
def FkmsSystem.Clear (pdev : Ptr) (sys : FkmsSystem) : Prop :=
  (∀ c ∈ sys.registry.components, c.dev ≠ pdevDev pdev) ∧ ∀ e ∈ sys.ofNodes, e.dev ≠ pdevDev pdev

/-- If the attach gets as far, `component_bind_all` calls the bind callback of the component the
probe has registered, and no other. -/
def BindsOwn (env : Env) (v : FkmsCalls) (d : FkmsDevice) (s : Registry) : Prop :=
  ∀ drm s', v.dmaPrivInit = 0 → v.drmDevAlloc = some drm → v.modeConfigInit = 0 →
    vc4FkmsProbe env d.pdev s = (0, s') → ∃ addr ret,
      s'.trace = s.trace ++ [.add addr (pdevDev d.pdev)] ∧
      (componentBindAll env d.master drm s').2.trace =
        s'.trace ++ [.bind addr (pdevDev d.pdev) d.master drm ret]

/-- An attach that fails and a detach leave no entry of the device, and an attach binds its own
component. -/
def FkmsBalanced (env : Env) : FkmsCall → FkmsState → Prop
  | .attach v d, s =>
    ((vc4FkmsAttach env v { d with } s.sys).1 ≠ 0 →
      (vc4FkmsAttach env v { d with } s.sys).2.2.Clear d.pdev) ∧ BindsOwn env v d s.sys.registry
  | .detach pdev, s => ∀ sc ∈ s.attached, sc.pdev = pdev → (vc4FkmsDetach env sc s.sys).Clear pdev

/-- The call is an attach, and no step of it fails. -/
def StepsSucceed (env : Env) : FkmsCall → FkmsState → Prop
  | .attach v d, s => v.dmaPrivInit = 0 ∧ ∃ drm, v.drmDevAlloc = some drm ∧ v.modeConfigInit = 0 ∧
      ∃ s', vc4FkmsProbe env d.pdev s.sys.registry = (0, s') ∧
        (componentBindAll env d.master drm s').1 = 0 ∧ v.vblankInit = 0 ∧ v.devRegister = 0
  | .detach _, _ => False

/-! ## One call -/

section Call

variable {env : Env} {v : FkmsCalls} {d : FkmsDevice} {s s' : FkmsState}

theorem fkmsFail_ne_zero (error : Int) : fkmsFail error ≠ 0 := by
  unfold fkmsFail
  split
  · decide
  · assumption

/-- The attach records the device whatever becomes of it, and returns zero exactly if no step
fails. -/
theorem vc4FkmsAttach_spec (env : Env) (v : FkmsCalls) (d : FkmsDevice) (s : FkmsState) :
    (vc4FkmsAttach env v { d with } s.sys).2.2.ofNodes =
        s.sys.ofNodes ++ [⟨pdevDev d.pdev, d.node, vc4FirmwareKmsDtMatch⟩] ∧
    (vc4FkmsAttach env v { d with } s.sys).2.1.pdev = d.pdev ∧
    ((vc4FkmsAttach env v { d with } s.sys).1 = 0 ↔ StepsSucceed env (.attach v d) s) := by
  have hof : lkpiSetOfNode (pdevDev d.pdev) d.node vc4FirmwareKmsDtMatch s.sys.ofNodes =
      s.sys.ofNodes ++ [⟨pdevDev d.pdev, d.node, vc4FirmwareKmsDtMatch⟩] :=
    if_neg (pdevDev_ne_null _)
  obtain ⟨dmaPrivInit, drmDevAlloc, modeConfigInit, vblankInit, devRegister⟩ := v
  simp only [vc4FkmsAttach, hof, StepsSucceed]
  by_cases hdma : dmaPrivInit = 0
  · cases drmDevAlloc with
    | none => simp [hdma, fkmsFail_ne_zero]
    | some drm =>
      rcases hprobe : vc4FkmsProbe env d.pdev s.sys.registry with ⟨ret, reg⟩
      by_cases hmode : modeConfigInit = 0
      · by_cases hret : ret = 0
        · by_cases hbind : (componentBindAll env d.master drm reg).1 = 0
          · by_cases hvblank : vblankInit = 0 <;> by_cases hreg : devRegister = 0 <;>
              simp [hdma, hmode, hret, hbind, hvblank, hreg, fkmsFail_ne_zero]
          · simp [hdma, hmode, hret, hbind, fkmsFail_ne_zero]
        · simp [hdma, hmode, hret, fkmsFail_ne_zero]
      · simp [hdma, hmode, fkmsFail_ne_zero]
  · simp [hdma, fkmsFail_ne_zero]

/-- An attach that gets through leaves what `component_bind_all` left. -/
theorem vc4FkmsAttach_registry {drm : Ptr} {reg : Registry}
    (h : (vc4FkmsAttach env v { d with } s.sys).1 = 0) (hdrm : v.drmDevAlloc = some drm)
    (hprobe : vc4FkmsProbe env d.pdev s.sys.registry = (0, reg)) :
    (vc4FkmsAttach env v { d with } s.sys).2.2.registry =
      (componentBindAll env d.master drm reg).2 := by
  obtain ⟨hdma, drm', hdrm', hmode, reg', hprobe', hbind, hvblank, hreg⟩ :=
    (vc4FkmsAttach_spec env v d s).2.2.1 h
  obtain rfl := Option.some.inj (hdrm.symm.trans hdrm')
  obtain rfl := (Prod.mk.inj (hprobe.symm.trans hprobe')).2
  simp [vc4FkmsAttach, hdma, hdrm, hmode, hprobe, hbind, hvblank, hreg]

theorem not_clear_attach (env : Env) (v : FkmsCalls) (d : FkmsDevice) (s : FkmsState) :
    ¬ (vc4FkmsAttach env v { d with } s.sys).2.2.Clear d.pdev := by
  intro h
  refine h.2 ⟨pdevDev d.pdev, d.node, vc4FirmwareKmsDtMatch⟩ ?_ rfl
  rw [(vc4FkmsAttach_spec env v d s).1]
  exact List.mem_append_right _ List.mem_cons_self

end Call

/-! ## The component -/

/-- Components that are bound are passed over. -/
theorem bindList_append_of_bound (env : Env) (M x : Ptr) (cs' : List LkpiComponent) (s : Registry) :
    ∀ cs : List LkpiComponent, (∀ c ∈ cs, c.bound = true) →
      bindList env M x (cs ++ cs') s = bindList env M x cs' s
  | [], _ => rfl
  | c :: cs, h => by
    obtain ⟨hc, hcs⟩ := List.forall_mem_cons.1 h
    rw [List.cons_append, bindList, if_pos hc, bindList_append_of_bound env M x cs' s cs hcs]

/-- No master is registered, and every component is bound. -/
structure FkmsSettled (s : Registry) : Prop where
  masters : s.masters = []
  bound : ∀ c ∈ s.components, c.bound = true

section FkmsSettled

variable {env : Env} {d : FkmsDevice} {s s' : Registry}

/-- A probe that succeeds puts one component on the list. -/
theorem vc4FkmsProbe_eq (hs : s.masters = []) (h : vc4FkmsProbe env d.pdev s = (0, s')) :
    s' = s.addComponent env (pdevDev d.pdev) vc4FkmsOps := by
  obtain hadd | hadd | ⟨-, -, -, -, hadd⟩ :=
    componentAdd_cases env (pdevDev d.pdev) vc4FkmsOps s
  · exact absurd (Prod.mk.inj (hadd.symm.trans h)).1 (by decide)
  · exact absurd (Prod.mk.inj (hadd.symm.trans h)).1 (by decide)
  · rw [← (Prod.mk.inj (hadd.symm.trans h)).2, lkpiTryBindMasters]
    exact congrArg (List.foldl _ _) hs

/-- With all other components bound, `component_bind_all` calls the bind callback of the last
one. -/
theorem componentBindAll_last (hs : FkmsSettled s) (M drm dev ops : Ptr) :
    componentBindAll env M drm (s.addComponent env dev ops) =
      bindOne env M drm ⟨s.allocs, dev, ops, false, NULL, NULL⟩ (s.addComponent env dev ops) := by
  have hmatch : matchFor (s.addComponent env dev ops) M = none := by
    simp [matchFor, lkpiMasterFor, Registry.addComponent, hs.masters]
  rw [componentBindAll, hmatch]
  simp only [Registry.addComponent, Registry.pushComponent_components, Registry.malloc_components]
  rw [bindList_append_of_bound env M drm _ _ _ hs.bound, bindList, if_neg (by simp)]
  rcases bindOne env M drm _ _ with ⟨(_ | n) | n, s'⟩
  · rfl
  · rfl
  · rfl

theorem bindsOwn_of_fkmsSettled (env : Env) (v : FkmsCalls) (hs : FkmsSettled s) (d : FkmsDevice) :
    BindsOwn env v d s := by
  rintro drm s' - - - hprobe
  obtain rfl := vc4FkmsProbe_eq hs.masters hprobe
  refine ⟨s.allocs, (env.componentOps vc4FkmsOps).bind
    (s.addComponent env (pdevDev d.pdev) vc4FkmsOps).trace (pdevDev d.pdev) d.master drm, rfl, ?_⟩
  rw [componentBindAll_last hs, bindOne]
  split <;> rfl

/-- If the callback succeeds the new component is bound as well. -/
theorem FkmsSettled.bindAll (hs : FkmsSettled s)
    (hprobe : vc4FkmsProbe env d.pdev s = (0, s')) {M drm : Ptr}
    (hbind : (componentBindAll env M drm s').1 = 0) :
    FkmsSettled (componentBindAll env M drm s').2 := by
  obtain rfl := vc4FkmsProbe_eq hs.masters hprobe
  rw [componentBindAll_last hs, bindOne] at hbind ⊢
  by_cases herr : (env.componentOps vc4FkmsOps).bind
      (s.addComponent env (pdevDev d.pdev) vc4FkmsOps).trace (pdevDev d.pdev) M drm = 0
  · simp only [herr, ne_eq, not_true_eq_false, if_false]
    refine ⟨hs.masters, fun c hc => ?_⟩
    obtain ⟨hmem, hne⟩ | ⟨c', -, -, rfl⟩ := TailQueue.mem_update.1 hc
    · rcases List.mem_append.1 hmem with hold | hnew
      · exact hs.bound c hold
      · exact absurd (congrArg LkpiComponent.addr (List.mem_singleton.1 hnew)) hne
    · rfl
  · simp [herr] at hbind

end FkmsSettled

/-! ## Balance -/

/-- Every attached device is in the table. -/
def FkmsState.Listed (s : FkmsState) : Prop :=
  ∀ sc ∈ s.attached, ∃ e ∈ s.sys.ofNodes, e.dev = pdevDev sc.pdev

section Balance

variable {env : Env} {c : FkmsCall} {s s' : FkmsState}

theorem FkmsState.Listed.step (h : fkmsStep env c s = some s') (hs : s.Listed) : s'.Listed := by
  cases c with
  | attach v d =>
    obtain ⟨hof, hpdev, -⟩ := vc4FkmsAttach_spec env v d s
    rw [fkmsStep] at h
    split at h
    · simp at h
    obtain rfl := Option.some.inj h
    have hold : ∀ sc ∈ s.attached, ∃ e ∈ (vc4FkmsAttach env v { d with } s.sys).2.2.ofNodes,
        e.dev = pdevDev sc.pdev := by
      intro sc hsc
      obtain ⟨e, he, hdev⟩ := hs sc hsc
      exact ⟨e, hof ▸ List.mem_append_left _ he, hdev⟩
    intro sc hsc
    dsimp only at hsc
    split at hsc
    · rcases List.mem_append.1 hsc with hsc | hsc
      · exact hold sc hsc
      · refine ⟨⟨pdevDev d.pdev, d.node, vc4FirmwareKmsDtMatch⟩, ?_, ?_⟩
        · exact hof ▸ List.mem_append_right _ List.mem_cons_self
        · rw [List.mem_singleton.1 hsc, hpdev]
    · exact hold sc hsc
  | detach pdev =>
    obtain ⟨sc, -, rfl⟩ := Option.map_eq_some_iff.1 h
    exact fun sc' hsc' => hs sc' (List.mem_of_mem_eraseP hsc')

/-- A balanced call is an attach that gets through : any other leaves an entry. -/
theorem stepsSucceed_of_balanced (h : fkmsStep env c s = some s') (hs : s.Listed)
    (hc : FkmsBalanced env c s) : StepsSucceed env c s := by
  cases c with
  | attach v d =>
    by_contra hfails
    have hret : (vc4FkmsAttach env v { d with } s.sys).1 ≠ 0 :=
      fun hzero => hfails ((vc4FkmsAttach_spec env v d s).2.2.1 hzero)
    exact not_clear_attach env v d s (hc.1 hret)
  | detach pdev =>
    obtain ⟨sc, hfind, -⟩ := Option.map_eq_some_iff.1 h
    have hpdev : sc.pdev = pdev := by simpa using List.find?_some hfind
    have hsc := List.mem_of_find?_eq_some hfind
    obtain ⟨e, he, hdev⟩ := hs sc hsc
    exact (hc sc hsc hpdev).2 e he (hpdev ▸ hdev)

theorem balanced_of_stepsSucceed (hs : FkmsSettled s.sys.registry) (hc : StepsSucceed env c s) :
    FkmsBalanced env c s := by
  cases c with
  | attach v d =>
    refine ⟨fun hret => absurd ((vc4FkmsAttach_spec env v d s).2.2.2 hc) hret, ?_⟩
    exact bindsOwn_of_fkmsSettled env v hs d
  | detach pdev => exact hc.elim

theorem FkmsSettled.step (h : fkmsStep env c s = some s') (hc : StepsSucceed env c s)
    (hs : FkmsSettled s.sys.registry) : FkmsSettled s'.sys.registry := by
  cases c with
  | attach v d =>
    have hret := (vc4FkmsAttach_spec env v d s).2.2.2 hc
    obtain ⟨-, drm, hdrm, -, reg, hprobe, hbind, -⟩ := hc
    rw [fkmsStep] at h
    split at h
    · simp at h
    obtain rfl := Option.some.inj h
    rw [vc4FkmsAttach_registry hret hdrm hprobe]
    exact hs.bindAll hprobe hbind
  | detach pdev => exact hc.elim

end Balance

/-- A run is balanced exactly if it has only attaches, and no step of them fails. -/
theorem fkmsBalanced_iff (env : Env) {calls : List FkmsCall} {s : FkmsState}
    (hrun : runSchedule (fkmsStep env) calls {} = some s) :
    Along (fkmsStep env) (FkmsBalanced env) calls {} ↔
      Along (fkmsStep env) (StepsSucceed env) calls {} := by
  constructor
  · intro h
    refine h.imp (I := FkmsState.Listed) (fun hstep _ hs => hs.step hstep)
      stepsSucceed_of_balanced hrun ?_
    intro sc hsc
    exact absurd hsc List.not_mem_nil
  · intro h
    refine h.imp (I := fun s => FkmsSettled s.sys.registry) (fun hstep hc hs => hs.step hstep hc)
      (fun _ hs hc => balanced_of_stepsSucceed hs hc) hrun ?_
    exact ⟨rfl, fun c hc => absurd hc List.not_mem_nil⟩

/-- All calls of `vc4_fkms_attach` succeed. -/
def fkmsCallsOk : FkmsCalls :=
  ⟨0, some 900, 0, 0, 0⟩

/-- A device, at these addresses. -/
def fkmsDevice : FkmsDevice :=
  ⟨1, 2, 3⟩

theorem fkmsBalanced_attach : ∃ s,
    runSchedule (fkmsStep (cooperative id)) [.attach fkmsCallsOk fkmsDevice] {} = some s ∧
    Along (fkmsStep (cooperative id)) (FkmsBalanced (cooperative id))
      [.attach fkmsCallsOk fkmsDevice] {} := by
  refine ⟨_, rfl, (fkmsBalanced_iff (cooperative id) rfl).2 ⟨?_, fun _ _ => trivial⟩⟩
  exact ⟨rfl, 900, rfl, rfl, _, rfl, rfl, rfl, rfl⟩

/-- The attach gets through and the device is detached : its entry stays in the table. -/
theorem fkms_not_balanced_detach :
    ¬ ∀ (env : Env) (calls : List FkmsCall) (s : FkmsState),
      runSchedule (fkmsStep env) calls {} = some s →
        Along (fkmsStep env) (FkmsBalanced env) calls {} := by
  intro h
  have hbal := h (cooperative id) [.attach fkmsCallsOk fkmsDevice, .detach fkmsDevice.pdev] _ rfl
  have hclear := (hbal.2 _ rfl).1 _ List.mem_cons_self rfl
  exact hclear.2 _ List.mem_cons_self rfl

end KernelModules
