import KernelModules.MatchOrder
import KernelModules.Vc4Drv

/-!
# Bringing up the vc4 pipeline

Newbus attaches the hvs, hdmi and crtc blocks in some order, and then the master. The
master's match list names the attached devices driver by driver, in attach order within a
driver (`vc4MatchAddDrivers_eq`), the list is complete, and its bind callback binds the
components in the order of the list (`componentBindAll_attached`). So the bind callbacks are
made hvs first, then hdmi, then crtc, whatever the attach order was (`bringUp_order`).
-/

namespace KernelModules

variable {env : Env}

/-- The devices whose bind callback was called, in order. -/
def bindCalls (tr : List Event) : List Ptr :=
  tr.filterMap fun
    | .bind _ dev _ _ _ => some dev
    | _ => none

@[simp] theorem bindCalls_append (tr tr' : List Event) :
    bindCalls (tr ++ tr') = bindCalls tr ++ bindCalls tr' :=
  List.filterMap_append

/-- The device of an attached block. -/
def NewbusDevice.dev (d : NewbusDevice) : Ptr :=
  pdevDev d.pdev

/-- Attach component blocks in order. No `linux_dma_priv_init` fails. -/
def attachAll (env : Env) : List (Vc4Component × NewbusDevice) → Vc4System → Option Vc4System
  | [], sys => some sys
  | (k, d) :: devs, sys =>
    (vc4NewbusAttach 0 (k.platformDriver env) d sys).bind fun r => attachAll env devs r.2

/-- Attach component blocks in order, and then the master. -/
def bringUp (env : Env) (fuel : ℕ) (devs : List (Vc4Component × NewbusDevice))
    (master : NewbusDevice) : Option (Int × Vc4System) :=
  (attachAll env devs {}).bind (vc4NewbusAttach 0 (vc4PlatformDriver env fuel) master)

/-- The devices of one kind, in attach order. -/
def attachedDevs (k : Vc4Component) (devs : List (Vc4Component × NewbusDevice)) : List Ptr :=
  (devs.filter (·.1 == k)).map (·.2.dev)

/-- The devices in the order of `component_drivers`. -/
def pipeline (devs : List (Vc4Component × NewbusDevice)) : List Ptr :=
  attachedDevs .hvs devs ++ attachedDevs .hdmi devs ++ attachedDevs .crtc devs

/-- The pipeline has every attached device exactly as often as it was attached. -/
theorem pipeline_perm : ∀ devs : List (Vc4Component × NewbusDevice),
    (pipeline devs).Perm (devs.map (·.2.dev))
  | [] => .refl _
  | (k, d) :: devs => by
    have ih := (pipeline_perm devs).cons d.dev
    rw [List.map_cons]
    cases k with
    | hvs => exact ih
    | hdmi => exact (List.perm_middle.append_right (attachedDevs .crtc devs)).trans ih
    | crtc => exact List.Perm.trans List.perm_middle ih

/-- The entries of the blocks in the platform-device registry. -/
def pdevEnts (devs : List (Vc4Component × NewbusDevice)) : List LkpiPdevEnt :=
  devs.map fun x => ⟨x.2.pdev, x.1.driver⟩

/-- The entry of the master. -/
def masterEnt (p : Ptr) : LkpiPdevEnt :=
  ⟨p, vc4MasterDriver⟩

theorem devsOf_pdevEnts (k : Vc4Component) (devs : List (Vc4Component × NewbusDevice)) :
    devsOf k.driver (pdevEnts devs) = attachedDevs k devs := by
  have hdriver : ∀ k' : Vc4Component, (k'.driver == k.driver) = (k' == k) := by
    intro k'
    cases k <;> cases k' <;> rfl
  simp [devsOf, pdevEnts, attachedDevs, List.filter_map, Function.comp_def, hdriver,
    LkpiPdevEnt.dev, NewbusDevice.dev]

/-! ## Attaching the components -/

/-- The blocks `devs` are attached, in this order, and nothing else is. -/
structure Attached (devs : List (Vc4Component × NewbusDevice)) (sys : Vc4System) : Prop
    extends sys.registry.WF where
  components : sys.registry.components.map (fun c => (c.dev, c.bound)) =
    devs.map fun x => (x.2.dev, false)
  masters : sys.registry.masters = []
  pdevs : sys.pdevs = pdevEnts devs
  trace : bindCalls sys.registry.trace = []

theorem attached_init : Attached [] {} :=
  ⟨wf_init, rfl, rfl, rfl, rfl⟩

/-- Attaching a block adds its component and its entry in the registry. No master is there
to be retried. -/
theorem Attached.attach (hhas : ∀ ops, (env.componentOps ops).hasBind = true)
    (hmalloc : ∀ n, env.mallocOk n = true) {devs : List (Vc4Component × NewbusDevice)}
    {sys : Vc4System} (h : Attached devs sys) (k : Vc4Component) (d : NewbusDevice) :
    ∃ sys', vc4NewbusAttach 0 (k.platformDriver env) d sys = some (0, sys') ∧
      Attached (devs ++ [(k, d)]) sys' := by
  have hops : k.ops ≠ NULL := by cases k <;> decide
  have hadd : componentAdd env (pdevDev d.pdev) k.ops sys.registry =
      (0, sys.registry.addComponent env (pdevDev d.pdev) k.ops) := by
    simp [componentAdd, hops, pdevDev_ne_null, hhas, Registry.malloc, hmalloc, lkpiTryBindMasters,
      Registry.addComponent, h.masters]
  refine ⟨{
      registry := sys.registry.addComponent env (pdevDev d.pdev) k.ops
      pdevs := lkpiPlatformDeviceRegister d.pdev k.driver sys.pdevs
      ofNodes := lkpiSetOfNode (pdevDev d.pdev) d.node k.ofMatchTable sys.ofNodes }, ?_,
    h.toWF.addComponent _ _, ?_, h.masters, ?_, ?_⟩
  · simp [vc4NewbusAttach, Vc4Component.platformDriver, Vc4System.withRegistry, hadd]
  · simpa [Registry.addComponent, NewbusDevice.dev] using h.components
  · simp [lkpiPlatformDeviceRegister, d.pdev_ne, h.pdevs, pdevEnts]
  · simpa [Registry.addComponent, bindCalls] using h.trace

theorem attached_attachAll (env : Env) (hhas : ∀ ops, (env.componentOps ops).hasBind = true)
    (hmalloc : ∀ n, env.mallocOk n = true) :
    ∀ (devs prev : List (Vc4Component × NewbusDevice)) {sys : Vc4System}, Attached prev sys →
      ∃ sys', attachAll env devs sys = some sys' ∧ Attached (prev ++ devs) sys'
  | [], prev, sys, h => ⟨sys, rfl, by simpa using h⟩
  | (k, d) :: devs, prev, sys, h => by
    obtain ⟨sys₁, he, h₁⟩ := h.attach hhas hmalloc k d
    obtain ⟨sys₂, he₂, h₂⟩ := attached_attachAll env hhas hmalloc devs _ h₁
    refine ⟨sys₂, ?_, by simpa using h₂⟩
    rw [attachAll, he]
    exact he₂

/-! ## The match list -/

/-- The devices of the component drivers, with the master's own entry in the registry. -/
theorem flatMap_devsOf (devs : List (Vc4Component × NewbusDevice)) (p : Ptr) :
    (componentDrivers.map Vc4Component.driver).flatMap
      (devsOf · (pdevEnts devs ++ [masterEnt p])) = pipeline devs := by
  have hown : ∀ k : Vc4Component,
      devsOf k.driver (pdevEnts devs ++ [masterEnt p]) = attachedDevs k devs := by
    intro k
    rw [← devsOf_pdevEnts]
    cases k <;> simp [devsOf, masterEnt, vc4MasterDriver, Vc4Component.driver]
  simp [componentDrivers, hown, pipeline]

theorem map_dev_pdevEnts (devs : List (Vc4Component × NewbusDevice)) (p : Ptr) :
    (pdevEnts devs ++ [masterEnt p]).map LkpiPdevEnt.dev =
      (devs.map (·.2.pdev) ++ [p]).map pdevDev := by
  simp [pdevEnts, masterEnt, LkpiPdevEnt.dev]

/-- The match list the master's probe builds. -/
theorem vc4MatchAddDrivers_pipeline (env : Env) (hmalloc : ∀ n, env.mallocOk n = true)
    {devs : List (Vc4Component × NewbusDevice)} {p : Ptr}
    (hnd : (devs.map (·.2.pdev) ++ [p]).Nodup) {fuel : ℕ} (hfuel : devs.length + 1 < fuel)
    (s : Registry) :
    ∃ n, s.allocs ≤ n ∧ vc4MatchAddDrivers env (pdevEnts devs ++ [masterEnt p]) fuel
      (componentDrivers.map Vc4Component.driver) (none, s) =
        some (matchOfDevs (pipeline devs), { s with allocs := n }) := by
  have hnd' : ((pdevEnts devs ++ [masterEnt p]).map LkpiPdevEnt.dev).Nodup := by
    rw [map_dev_pdevEnts]
    exact hnd.map fun _ _ => pdevDev_inj.1
  have hlen : (pdevEnts devs ++ [masterEnt p]).length < fuel := by
    simpa [pdevEnts] using hfuel
  have hnull : ∀ e ∈ pdevEnts devs ++ [masterEnt p], e.drv ≠ NULL := by
    intro e he
    rw [List.mem_append, pdevEnts, List.mem_map, List.mem_singleton] at he
    obtain ⟨⟨k, d⟩, -, rfl⟩ | rfl := he
    · cases k <;> exact Nat.succ_ne_zero _
    · exact Nat.succ_ne_zero _
  obtain ⟨n, hn, hadd⟩ := foldl_componentMatchAdd hmalloc (pipeline devs) [] s
  refine ⟨n, hn, ?_⟩
  rw [vc4MatchAddDrivers_eq env hnull hlen _ _ fun drv _ => firstOfDevice_of_nodup hnd' drv,
    flatMap_devsOf]
  exact congrArg some hadd

/-! ## The bind callback of the master -/

theorem bindCalls_componentUnbindAll (M x : Ptr) {s : Registry} (hs : s.WF) :
    bindCalls (componentUnbindAll env M x s).trace = bindCalls s.trace := by
  refine (componentUnbindAll_rule (I := fun s' => s'.WF ∧ bindCalls s'.trace = bindCalls s.trace)
    (fun _ h => h.1) ?_ ⟨hs, rfl⟩).2
  rintro s' c ⟨hwf, htrace⟩ - - -
  exact ⟨hwf.unbindOne M x c, by simpa [unbindOne, bindCalls] using htrace⟩

/-- What `vc4_drm_bind` does after `component_bind_all` calls no bind callback. -/
theorem bindCalls_vc4DrmBind (env : Env) {v : Vc4DrmBindCalls} {x : Ptr} (hv : v.prepare = .ok x)
    (M : Ptr) {s : Registry} (hs : s.WF) :
    bindCalls ((vc4DrmBind v M).run env s).2.trace =
      bindCalls (componentBindAll env M x s).2.trace := by
  have hwf := componentBindAll_wf env M x hs
  simp only [vc4DrmBind, hv, Script.run]
  split
  · rfl
  · split
    · exact bindCalls_componentUnbindAll M x hwf
    · rfl

/-- The bind callback of a master that is not marked and whose list is complete. -/
theorem bindCalls_lkpiTryBindMaster {s : Registry} (hs : s.WF) {m : LkpiMaster}
    (hmb : m.bound = false) (hhas : (env.masterOps m.ops).hasBind = true)
    (hcomplete : lkpiMatchComplete m.matchList s.components = true) {v : Vc4DrmBindCalls} {x : Ptr}
    (hscript : (env.masterOps m.ops).bind (s.log (.masterBind m.dev)).trace m.dev =
      vc4DrmBind v m.dev) (hv : v.prepare = .ok x) :
    bindCalls (lkpiTryBindMaster env s m).trace =
      bindCalls (componentBindAll env m.dev x (s.log (.masterBind m.dev))).2.trace := by
  have hrun := bindCalls_vc4DrmBind env hv m.dev (hs.log (.masterBind m.dev))
  rw [← hrun, lkpiTryBindMaster]
  simp only [hmb, hhas, hcomplete, Bool.not_true, Bool.or_self, Bool.false_eq_true, if_false,
    hscript]
  split
  · next heq => rw [heq, Registry.markBound_trace]
  · next heq =>
    rw [heq, Registry.log_trace, bindCalls_append]
    simp [bindCalls]

/-- The bind callbacks of a successful `component_bind_all` for a master whose match list
names every component. -/
theorem componentBindAll_attached
    (hbind : ∀ ops tr dev M d, (env.componentOps ops).bind tr dev M d = 0) (names : List Ptr)
    {M : Ptr} (x : Ptr) {s : Registry} (hs : s.WF)
    (hcomps : names.Perm (s.components.map (·.dev))) (hnd : names.Nodup)
    (hfree : ∀ c ∈ s.components, c.bound = false) (hmatch : matchFor s M = matchOfDevs names) :
    bindCalls (componentBindAll env M x s).2.trace = bindCalls s.trace ++ names := by
  by_cases hnil : names = []
  · subst hnil
    have hno : s.components = [] := by simpa using hcomps.symm.eq_nil
    simp [componentBindAll, hmatch, matchOfDevs, hno, bindList]
  · have hall : ∀ d ∈ names, ∃ c ∈ s.components, c.dev = d ∧ c.bound = false := by
      intro d hd
      obtain ⟨c, hc, rfl⟩ := List.mem_map.1 (hcomps.mem_iff.1 hd)
      exact ⟨c, hc, rfl, hfree c hc⟩
    have hrun := bindEntries_ofDevs hbind M x names s hnd hs.components_nodup
      (hcomps.nodup_iff.1 hnd) hall
    simp only [componentBindAll, hmatch, matchOfDevs_of_ne hnil, entries_ofDevs, hrun,
      bindCalls_append]
    congr 1
    simp [bindCalls, List.filterMap_map]

/-! ## The whole bring-up -/

theorem Attached.map_dev {devs : List (Vc4Component × NewbusDevice)} {sys : Vc4System}
    (h : Attached devs sys) : sys.registry.components.map (·.dev) = devs.map (·.2.dev) := by
  simpa [Function.comp_def] using congrArg (List.map Prod.fst) h.components

theorem Attached.bound {devs : List (Vc4Component × NewbusDevice)} {sys : Vc4System}
    (h : Attached devs sys) {c : LkpiComponent} (hc : c ∈ sys.registry.components) :
    c.bound = false := by
  obtain ⟨x, -, hx⟩ := List.mem_map.1 (h.components ▸ List.mem_map_of_mem hc)
  exact (Prod.mk.inj hx).2.symm

theorem pipeline_nodup {devs : List (Vc4Component × NewbusDevice)}
    (hnd : (devs.map (·.2.pdev)).Nodup) : (pipeline devs).Nodup := by
  have hmap := hnd.map (f := pdevDev) fun _ _ => pdevDev_inj.1
  rw [List.map_map] at hmap
  exact (pipeline_perm devs).nodup_iff.2 hmap

/-- In a list without repetitions, what is in front comes first. -/
theorem idxOf_lt_of_mem {l₁ l₂ : List Ptr} (hnd : (l₁ ++ l₂).Nodup) {a b : Ptr} (ha : a ∈ l₁)
    (hb : b ∈ l₂) : (l₁ ++ l₂).idxOf a < (l₁ ++ l₂).idxOf b := by
  have hb' : b ∉ l₁ := fun h => (List.nodup_append'.1 hnd).2.2 h hb
  rw [List.idxOf_append_of_mem ha, List.idxOf_append_of_notMem hb']
  exact Nat.lt_of_lt_of_le (List.idxOf_lt_length_of_mem ha) (Nat.le_add_right _ _)

/-- Every device of the pipeline has its component registered. -/
theorem Attached.complete {devs : List (Vc4Component × NewbusDevice)} {sys : Vc4System}
    (h : Attached devs sys) :
    lkpiMatchComplete (matchOfDevs (pipeline devs)) sys.registry.components = true := by
  rw [matchOfDevs]
  split
  · rfl
  · refine (lkpiMatchComplete_ofDevs _ _).2 fun d hd => ?_
    have hmem := (pipeline_perm devs).mem_iff.1 hd
    rwa [← h.map_dev, List.mem_map] at hmem

/-- The master's registration, with the match list of the attached blocks, makes the bind
callbacks of the pipeline. -/
theorem Attached.masterAdd (env : Env)
    (hbind : ∀ ops tr dev M d, (env.componentOps ops).bind tr dev M d = 0)
    (hmalloc : ∀ n, env.mallocOk n = true) (hhas : (env.masterOps vc4DrmOps).hasBind = true)
    (hscript : ∀ tr dev, ∃ v drm, v.prepare = .ok drm ∧
      (env.masterOps vc4DrmOps).bind tr dev = vc4DrmBind v dev)
    {devs : List (Vc4Component × NewbusDevice)} {sys : Vc4System} (h : Attached devs sys)
    (hnd : (devs.map (·.2.pdev)).Nodup) {M : Ptr} (hM : M ≠ NULL) {n : ℕ}
    (hn : sys.registry.allocs ≤ n) :
    ∃ s, componentMasterAddWithMatch env M vc4DrmOps (matchOfDevs (pipeline devs))
        { sys.registry with allocs := n } = (0, s) ∧ bindCalls s.trace = pipeline devs := by
  set l := matchOfDevs (pipeline devs) with hl
  set s := ({ sys.registry with allocs := n } : Registry).addMaster env M vc4DrmOps l with hs
  have hwf : s.WF := (h.toWF.allocs hn).addMaster M vc4DrmOps l
  have hms : s.masters = [⟨n, M, vc4DrmOps, l, false⟩] := by
    rw [hs, addMaster_masters]
    simp [h.masters]
  have hcs : s.components = sys.registry.components := by rw [hs, addMaster_components]
  have htrace : bindCalls (s.log (.masterBind M)).trace = [] := by
    obtain ⟨evs, he, hevs⟩ := addMaster_trace env { sys.registry with allocs := n } M vc4DrmOps l
    have hnone : bindCalls evs = [] := List.filterMap_eq_nil_iff.2 fun e he => by rw [hevs e he]
    rw [Registry.log_trace, hs, he, bindCalls_append, bindCalls_append, h.trace, hnone]
    rfl
  have hcomplete : lkpiMatchComplete l s.components = true := hcs ▸ h.complete
  have hmatch : matchFor (s.log (.masterBind M)) M = l := by
    simp [matchFor, lkpiMasterFor, hms]
  obtain ⟨v, drm, hv, hbindv⟩ := hscript (s.log (.masterBind M)).trace M
  refine ⟨lkpiTryBindMasters env s, ?_, ?_⟩
  · simp [componentMasterAddWithMatch, hM, vc4DrmOps, Registry.malloc, hmalloc, hs,
      Registry.addMaster]
  · rw [lkpiTryBindMasters, hms, List.foldl_cons, List.foldl_nil,
      bindCalls_lkpiTryBindMaster hwf rfl hhas hcomplete hbindv hv,
      componentBindAll_attached hbind (pipeline devs) drm (hwf.log _) ?_ (pipeline_nodup hnd) ?_
        hmatch, htrace, List.nil_append]
    · rw [Registry.log_components, hcs, h.map_dev]
      exact pipeline_perm devs
    · intro c hc
      rw [Registry.log_components, hcs] at hc
      exact h.bound hc

/-- The bind callbacks of a bring-up are those of the hvs devices, then of the hdmi devices,
then of the crtc devices, each kind in attach order and each device once, whatever order
they were attached in. No crtc is bound before an hdmi. -/
theorem bringUp_order (bind : Ptr → List Event → Ptr → Ptr → Ptr → Int)
    (hbind : ∀ ops tr dev M d, bind ops tr dev M d = 0) (calls : List Event → Vc4DrmBindCalls)
    (hcalls : ∀ tr, ∃ drm, (calls tr).prepare = .ok drm) {mallocOk : ℕ → Bool}
    (hmalloc : ∀ n, mallocOk n = true) (devs : List (Vc4Component × NewbusDevice))
    (master : NewbusDevice) (hnd : (devs.map (·.2.pdev) ++ [master.pdev]).Nodup) (fuel : ℕ)
    (hfuel : devs.length + 1 < fuel) :
    ∃ sys, bringUp (vc4Env bind calls mallocOk) fuel devs master = some (0, sys) ∧
      bindCalls sys.registry.trace =
        attachedDevs .hvs devs ++ attachedDevs .hdmi devs ++ attachedDevs .crtc devs ∧
      (bindCalls sys.registry.trace).Perm (devs.map (·.2.dev)) ∧
      (bindCalls sys.registry.trace).Nodup ∧
      ∀ c ∈ attachedDevs .crtc devs, ∀ e ∈ attachedDevs .hdmi devs,
        (bindCalls sys.registry.trace).idxOf e < (bindCalls sys.registry.trace).idxOf c := by
  have hnd' : (devs.map (·.2.pdev)).Nodup := hnd.of_append_left
  obtain ⟨sys, hsys, hatt⟩ := attached_attachAll (vc4Env bind calls mallocOk) (fun _ => rfl)
    hmalloc devs [] attached_init
  rw [List.nil_append] at hatt
  obtain ⟨n, hn, hmatch⟩ := vc4MatchAddDrivers_pipeline (vc4Env bind calls mallocOk) hmalloc hnd
    hfuel sys.registry
  have hscript : ∀ tr dev, ∃ v drm, v.prepare = .ok drm ∧
      ((vc4Env bind calls mallocOk).masterOps vc4DrmOps).bind tr dev = vc4DrmBind v dev := by
    intro tr dev
    obtain ⟨drm, h⟩ := hcalls tr
    exact ⟨calls tr, drm, h, rfl⟩
  obtain ⟨s, hadd, hcalls'⟩ := hatt.masterAdd (vc4Env bind calls mallocOk) hbind hmalloc rfl
    hscript hnd' (pdevDev_ne_null master.pdev) hn
  have hpdevs : lkpiPlatformDeviceRegister master.pdev vc4MasterDriver sys.pdevs =
      pdevEnts devs ++ [masterEnt master.pdev] := by
    simp [lkpiPlatformDeviceRegister, master.pdev_ne, hatt.pdevs, masterEnt]
  have hpipe : (pipeline devs).Nodup := pipeline_nodup hnd'
  refine ⟨{
      registry := s
      pdevs := pdevEnts devs ++ [masterEnt master.pdev]
      ofNodes := lkpiSetOfNode (pdevDev master.pdev) master.node vc4OfMatch sys.ofNodes }, ?_,
    hcalls', hcalls' ▸ pipeline_perm devs, hcalls' ▸ hpipe, fun c hc e he => ?_⟩
  · simp [bringUp, hsys, vc4NewbusAttach, vc4PlatformDriver, vc4PlatformDrmProbe, hpdevs, hmatch,
      hadd, Vc4System.withRegistry]
  · rw [hcalls']
    exact idxOf_lt_of_mem hpipe (List.mem_append_right _ he) hc

/-- The blocks of a bcm2712, pixelvalves first as its device tree has them. -/
def bcm2712 : List (Vc4Component × NewbusDevice) :=
  [(.crtc, ⟨100, 180, by decide⟩), (.crtc, ⟨200, 280, by decide⟩), (.hvs, ⟨300, 380, by decide⟩),
    (.hdmi, ⟨400, 480, by decide⟩), (.hdmi, ⟨500, 580, by decide⟩)]

theorem bringUp_order_bcm2712 :
    ∃ sys, bringUp (vc4Env (fun _ _ _ _ _ => 0) (fun _ => vc4CallsOk 1000) fun _ => true) 7 bcm2712
        ⟨600, 680, by decide⟩ = some (0, sys) ∧
      bindCalls sys.registry.trace = [316, 416, 516, 116, 216] := by
  obtain ⟨sys, hrun, horder, -⟩ := bringUp_order (fun _ _ _ _ _ => 0) (fun _ _ _ _ _ => rfl)
    (fun _ => vc4CallsOk 1000) (fun _ => ⟨1000, rfl⟩) (fun _ => rfl) bcm2712
    ⟨600, 680, by decide⟩ (by decide) 7 (by decide)
  exact ⟨sys, hrun, horder⟩

end KernelModules
