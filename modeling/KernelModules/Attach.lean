import KernelModules.Interleaving
import KernelModules.Vc4Drv

/-!
# Attaching and detaching blocks

Newbus attaches blocks and detaches them again, in any order, and an attach may fail at any
of its steps. `vc4_newbus_attach` records the block in both tables before it does anything
that can fail, and its error exits leave the entries there; newbus makes no detach call after
a failed attach, frees the softc and may attach another block at its address.

`newbusStep` is one call. Next to the lists of the module its state has what newbus knows :
the attached blocks, in order, and the addresses at which an attach failed. In every state
that is reached the registry agrees with the attached blocks but for the entries at the
addresses in `failed` (`Recorded`).

* `vc4MatchAddDrivers_exact` : as long as the attaches of the drivers in the array get through,
  and none of them is at an address at which an attach failed, the match list is for the
  attached devices.
* `noTrace_iff` : a run leaves no trace in the two tables exactly if no attach fails.
-/

namespace KernelModules

open Interleaving

/-! ## The two tables -/

/-- `lkpi_pdevs` and `lkpi_of_nodes` -/
def Vc4System.tables (sys : Vc4System) : List LkpiPdevEnt × List LkpiOfEnt :=
  (sys.pdevs, sys.ofNodes)

/-- A driver whose callbacks write neither of the tables, which is left to the newbus glue. -/
structure BlockDriver extends PlatformDriver where
  driver_ne : driver ≠ NULL
  probe_tables : ∀ f ∈ probe, ∀ pdev sys, ∀ r ∈ f pdev sys, r.2.tables = sys.tables
  removeNew_tables : ∀ f ∈ removeNew, ∀ pdev sys, (f pdev sys).tables = sys.tables
  remove_tables : ∀ f ∈ remove, ∀ pdev sys, (f pdev sys).tables = sys.tables

/-- The drivers of the blocks only write the component framework. -/
def Vc4Component.blockDriver (env : Env) (k : Vc4Component) : BlockDriver where
  toPlatformDriver := k.platformDriver env
  driver_ne := by cases k <;> exact Nat.succ_ne_zero _
  probe_tables := by
    rintro f ⟨⟩ pdev sys r ⟨⟩
    rfl
  removeNew_tables := by
    rintro f ⟨⟩ pdev sys
    rfl
  remove_tables := by
    rintro f ⟨⟩

/-- The entry of a block in the registry. -/
def NewbusDevice.pdevEnt (d : NewbusDevice) (drv : BlockDriver) : LkpiPdevEnt :=
  ⟨d.pdev, drv.driver⟩

/-- The entry of a block in the device-to-node table. -/
def NewbusDevice.ofEnt (d : NewbusDevice) (drv : BlockDriver) : LkpiOfEnt :=
  ⟨pdevDev d.pdev, d.node, drv.ofMatchTable⟩

/-- The system a probe is called in : the block is recorded in both tables. -/
def Vc4System.record (sys : Vc4System) (drv : BlockDriver) (d : NewbusDevice) : Vc4System :=
  { sys with
    pdevs := sys.pdevs ++ [d.pdevEnt drv]
    ofNodes := sys.ofNodes ++ [d.ofEnt drv] }

/-- No step of the attach fails : neither `linux_dma_priv_init` nor the driver's probe. -/
def GetsThrough (dmaPrivInit : Int) (drv : BlockDriver) (d : NewbusDevice) (sys : Vc4System) :
    Prop :=
  dmaPrivInit = 0 ∧ ∃ probe ∈ drv.probe, ∀ r ∈ probe d.pdev (sys.record drv d), r.1 = 0

section Attach

variable {dmaPrivInit : Int} {drv : BlockDriver} {d : NewbusDevice} {sys : Vc4System}
  {r : Int × Vc4System}

/-- The attach records the block first. -/
theorem record_eq (sys : Vc4System) (drv : BlockDriver) (d : NewbusDevice) :
    { sys with
      ofNodes := lkpiSetOfNode (pdevDev d.pdev) d.node drv.ofMatchTable sys.ofNodes
      pdevs := lkpiPlatformDeviceRegister d.pdev drv.driver sys.pdevs } = sys.record drv d := by
  rw [lkpiSetOfNode, if_neg (pdevDev_ne_null _), lkpiPlatformDeviceRegister, if_neg d.pdev_ne]
  rfl

/-- An attach that returns has recorded the block, and returns zero exactly if all its steps
succeed. -/
theorem vc4NewbusAttach_spec
    (h : vc4NewbusAttach dmaPrivInit drv.toPlatformDriver d sys = some r) :
    r.2.tables = (sys.record drv d).tables ∧ (r.1 = 0 ↔ GetsThrough dmaPrivInit drv d sys) := by
  simp only [vc4NewbusAttach, record_eq] at h
  by_cases hdma : dmaPrivInit = 0
  · rw [if_neg (not_not.2 hdma)] at h
    match hprobe : drv.probe with
    | none =>
      rw [hprobe] at h
      obtain rfl := Option.some.inj h
      refine ⟨rfl, ?_⟩
      simp [GetsThrough, hprobe, ENXIO]
    | some probe =>
      rw [hprobe] at h
      obtain ⟨x, hx, rfl⟩ := Option.map_eq_some_iff.1 h
      have htables := drv.probe_tables probe hprobe d.pdev _ x hx
      have hthrough : GetsThrough dmaPrivInit drv d sys ↔ x.1 = 0 := by
        constructor
        · rintro ⟨-, f, hf, hret⟩
          obtain rfl := Option.some.inj (hprobe.symm.trans hf)
          exact hret x hx
        · intro hret
          refine ⟨hdma, probe, hprobe, fun r hr => ?_⟩
          rwa [← Option.some.inj (hx.symm.trans hr)]
      rw [hthrough]
      by_cases hret : x.1 = 0
      · simp [hret, htables]
      · simp [hret, htables, ENXIO]
  · rw [if_pos hdma] at h
    obtain rfl := Option.some.inj h
    exact ⟨rfl, by simp [GetsThrough, hdma]⟩

theorem vc4NewbusDetach_tables (drv : BlockDriver) (d : NewbusDevice) (sys : Vc4System) :
    (vc4NewbusDetach drv.toPlatformDriver d sys).tables =
      (sys.pdevs.eraseP (·.pdev == d.pdev), sys.ofNodes.eraseP (·.dev == pdevDev d.pdev)) := by
  have key : ∀ {sys' : Vc4System}, sys'.tables = sys.tables →
      (sys'.pdevs.eraseP (·.pdev == d.pdev), sys'.ofNodes.eraseP (·.dev == pdevDev d.pdev)) =
        (sys.pdevs.eraseP (·.pdev == d.pdev), sys.ofNodes.eraseP (·.dev == pdevDev d.pdev)) := by
    intro sys' h
    rw [Vc4System.tables, Vc4System.tables, Prod.mk.injEq] at h
    rw [h.1, h.2]
  unfold vc4NewbusDetach
  match hnew : drv.removeNew, hold : drv.remove with
  | some remove, _ => exact key (drv.removeNew_tables remove hnew d.pdev sys)
  | none, some remove => exact key (drv.remove_tables remove hold d.pdev sys)
  | none, none => rfl

end Attach

/-! ## Runs -/

/-- A call newbus makes. -/
inductive NewbusCall where
  | attach (dmaPrivInit : Int) (drv : BlockDriver) (d : NewbusDevice)
  | detach (drv : BlockDriver) (d : NewbusDevice)

/-- The lists of the module, with the attached blocks in attach order, and the addresses at
which an attach failed. -/
structure NewbusState where
  sys : Vc4System := {}
  attached : List LkpiPdevEnt := []
  failed : List Ptr := []

/-- One call. Newbus attaches no block that is attached, and detaches attached blocks only,
with the driver they are attached for. -/
def newbusStep : NewbusCall → NewbusState → Option NewbusState
  | .attach dmaPrivInit drv d, s =>
    if d.pdev ∈ s.attached.map LkpiPdevEnt.pdev then none
    else (vc4NewbusAttach dmaPrivInit drv.toPlatformDriver d s.sys).map fun r =>
      if r.1 = 0 then { s with sys := r.2, attached := s.attached ++ [d.pdevEnt drv] }
      else { s with sys := r.2, failed := d.pdev :: s.failed }
  | .detach drv d, s =>
    if d.pdevEnt drv ∈ s.attached then
      some { s with
        sys := vc4NewbusDetach drv.toPlatformDriver d s.sys
        attached := s.attached.eraseP (·.pdev == d.pdev) }
    else none

section Step

variable {s s' : NewbusState} {dmaPrivInit : Int} {drv : BlockDriver} {d : NewbusDevice}

/-- An attach records the block, and the block is attached if the attach gets through. -/
theorem newbusStep_attach (h : newbusStep (.attach dmaPrivInit drv d) s = some s') :
    d.pdev ∉ s.attached.map LkpiPdevEnt.pdev ∧
    s'.sys.tables = (s.sys.record drv d).tables ∧
    (GetsThrough dmaPrivInit drv d s.sys ∧
        s'.attached = s.attached ++ [d.pdevEnt drv] ∧ s'.failed = s.failed ∨
      ¬ GetsThrough dmaPrivInit drv d s.sys ∧
        s'.attached = s.attached ∧ s'.failed = d.pdev :: s.failed) := by
  rw [newbusStep] at h
  by_cases hd : d.pdev ∈ s.attached.map LkpiPdevEnt.pdev
  · rw [if_pos hd] at h
    simp at h
  rw [if_neg hd] at h
  obtain ⟨r, hr, rfl⟩ := Option.map_eq_some_iff.1 h
  obtain ⟨htables, hret⟩ := vc4NewbusAttach_spec hr
  by_cases h0 : r.1 = 0
  · rw [if_pos h0]
    exact ⟨hd, htables, Or.inl ⟨hret.1 h0, rfl, rfl⟩⟩
  · rw [if_neg h0]
    exact ⟨hd, htables, Or.inr ⟨fun hthrough => h0 (hret.2 hthrough), rfl, rfl⟩⟩

/-- A detach unlinks the first entry of the block in each table. -/
theorem newbusStep_detach (h : newbusStep (.detach drv d) s = some s') :
    d.pdevEnt drv ∈ s.attached ∧
    s'.sys.tables =
      (s.sys.pdevs.eraseP (·.pdev == d.pdev), s.sys.ofNodes.eraseP (·.dev == pdevDev d.pdev)) ∧
    s'.attached = s.attached.eraseP (·.pdev == d.pdev) ∧ s'.failed = s.failed := by
  rw [newbusStep] at h
  by_cases hd : d.pdevEnt drv ∈ s.attached
  · rw [if_pos hd] at h
    obtain rfl := Option.some.inj h
    exact ⟨hd, vc4NewbusDetach_tables drv d s.sys, rfl, rfl⟩
  · rw [if_neg hd] at h
    simp at h

end Step

/-- But for the addresses at which an attach failed, the registry holds the attached blocks,
in order. -/
structure NewbusState.Recorded (s : NewbusState) : Prop where
  nodup : (s.attached.map LkpiPdevEnt.pdev).Nodup
  drv_ne : ∀ e ∈ s.sys.pdevs, e.drv ≠ NULL
  pdevs : s.sys.pdevs.filter (·.pdev ∉ s.failed) = s.attached.filter (·.pdev ∉ s.failed)

theorem NewbusState.Recorded.step {c : NewbusCall} {s s' : NewbusState}
    (h : newbusStep c s = some s') (hs : s.Recorded) : s'.Recorded := by
  cases c with
  | attach dmaPrivInit drv d =>
    obtain ⟨hd, htables, hres⟩ := newbusStep_attach h
    have hpdevs : s'.sys.pdevs = s.sys.pdevs ++ [d.pdevEnt drv] := congrArg Prod.fst htables
    have hdrv : ∀ e ∈ s'.sys.pdevs, e.drv ≠ NULL := by
      rw [hpdevs, List.forall_mem_append]
      exact ⟨hs.drv_ne, by simpa [NewbusDevice.pdevEnt] using drv.driver_ne⟩
    obtain ⟨-, hatt, hfail⟩ | ⟨-, hatt, hfail⟩ := hres
    · refine ⟨?_, hdrv, ?_⟩
      · rw [hatt, List.map_append, List.map_singleton]
        exact List.nodup_append_comm.1 (List.nodup_cons.2 ⟨hd, hs.nodup⟩)
      · rw [hpdevs, hatt, hfail, List.filter_append, List.filter_append, hs.pdevs]
    · refine ⟨hatt ▸ hs.nodup, hdrv, ?_⟩
      -- The new entry and the older ones at its address drop out on both sides.
      have hsplit : ∀ l : List LkpiPdevEnt, l.filter (·.pdev ∉ d.pdev :: s.failed) =
          (l.filter (·.pdev ∉ s.failed)).filter (·.pdev ≠ d.pdev) := by
        intro l
        rw [List.filter_filter]
        simp [not_or]
      rw [hatt, hfail, hpdevs, List.filter_append, hsplit, hsplit, hs.pdevs]
      simp [NewbusDevice.pdevEnt]
  | detach drv d =>
    obtain ⟨-, htables, hatt, hfail⟩ := newbusStep_detach h
    have hpdevs : s'.sys.pdevs = s.sys.pdevs.eraseP (·.pdev == d.pdev) :=
      congrArg Prod.fst htables
    refine ⟨?_, ?_, ?_⟩
    · rw [hatt]
      exact hs.nodup.sublist (List.eraseP_sublist.map _)
    · rw [hpdevs]
      exact fun e he => hs.drv_ne e (List.mem_of_mem_eraseP he)
    · rw [hpdevs, hatt, hfail]
      by_cases hd : d.pdev ∈ s.failed
      · have himp : ∀ e : LkpiPdevEnt, (e.pdev == d.pdev) = true →
            decide (e.pdev ∉ s.failed) = false := by
          simp +contextual [hd]
        rw [TailQueue.filter_eraseP_of_imp_not himp, TailQueue.filter_eraseP_of_imp_not himp,
          hs.pdevs]
      · have himp : ∀ e : LkpiPdevEnt, (e.pdev == d.pdev) = true →
            decide (e.pdev ∉ s.failed) = true := by
          simp +contextual [hd]
        rw [TailQueue.filter_eraseP_of_imp himp, TailQueue.filter_eraseP_of_imp himp, hs.pdevs]

theorem NewbusState.recorded_init : NewbusState.Recorded {} where
  nodup := List.nodup_nil
  drv_ne := by simp
  pdevs := rfl

/-! ## The match list -/

/-- The attach gets through if it is for a driver of the array, and it is not at an address at
which an attach failed. -/
def AttachesClean (drivers : List Ptr) : NewbusCall → NewbusState → Prop
  | .attach dmaPrivInit drv d, s =>
    drv.driver ∈ drivers → GetsThrough dmaPrivInit drv d s.sys ∧ d.pdev ∉ s.failed
  | .detach _ _, _ => True

/-- The devices the match list is to name : driver by driver, the attached devices in order. -/
def NewbusState.matchDevs (s : NewbusState) (drivers : List Ptr) : List Ptr :=
  drivers.flatMap (devsOf · s.attached)

/-- `vc4_match_add_drivers` ends, having requested one entry for each attached device of the
drivers, and if no allocation fails these are the entries of the list. -/
structure MatchListExact (env : Env) (drivers : List Ptr) (s : NewbusState) : Prop where
  nodup : ∀ drv ∈ drivers, (devsOf drv s.attached).Nodup
  requests : ∃ n, ∀ fuel, n ≤ fuel → ∀ r, vc4MatchAddDrivers env s.sys.pdevs fuel drivers r =
    some (componentMatchAddDevs env (s.matchDevs drivers) r)
  entries : (∀ n, env.mallocOk n = true) → ∃ n, ∀ fuel, n ≤ fuel → ∀ reg, ∃ reg',
    vc4MatchAddDrivers env s.sys.pdevs fuel drivers (none, reg) =
      some (matchOfDevs (s.matchDevs drivers), reg')

/-- No entry of the drivers is at an address at which an attach failed. -/
structure NewbusState.CleanFor (drivers : List Ptr) (s : NewbusState) : Prop extends s.Recorded where
  clean : ∀ e ∈ s.sys.pdevs, e.drv ∈ drivers → e.pdev ∉ s.failed
  cleanAttached : ∀ e ∈ s.attached, e.drv ∈ drivers → e.pdev ∉ s.failed

namespace NewbusState.CleanFor

variable {drivers : List Ptr} {c : NewbusCall} {s s' : NewbusState}

theorem init (drivers : List Ptr) : CleanFor drivers {} where
  toRecorded := recorded_init
  clean := by simp
  cleanAttached := by simp

/-- The entries of the drivers in the registry are those of the attached blocks. -/
theorem filter_eq (hs : s.CleanFor drivers) :
    s.sys.pdevs.filter (·.drv ∈ drivers) = s.attached.filter (·.drv ∈ drivers) := by
  have hsub : ∀ l : List LkpiPdevEnt, (∀ e ∈ l, e.drv ∈ drivers → e.pdev ∉ s.failed) →
      l.filter (·.drv ∈ drivers) = (l.filter (·.pdev ∉ s.failed)).filter (·.drv ∈ drivers) := by
    intro l hl
    rw [List.filter_filter]
    refine List.filter_congr fun e he => ?_
    by_cases h : e.drv ∈ drivers <;> simp [h, hl e he]
  rw [hsub _ hs.clean, hsub _ hs.cleanAttached, hs.pdevs]

theorem step (h : newbusStep c s = some s') (hc : AttachesClean drivers c s)
    (hs : s.CleanFor drivers) : s'.CleanFor drivers := by
  have hrec := hs.toRecorded.step h
  cases c with
  | attach dmaPrivInit drv d =>
    obtain ⟨hd, htables, hres⟩ := newbusStep_attach h
    have hpdevs : s'.sys.pdevs = s.sys.pdevs ++ [d.pdevEnt drv] := congrArg Prod.fst htables
    obtain ⟨-, hatt, hfail⟩ | ⟨hthrough, hatt, hfail⟩ := hres
    · have hnew : ∀ e ∈ [d.pdevEnt drv], e.drv ∈ drivers → e.pdev ∉ s.failed := by
        rw [List.forall_mem_singleton]
        exact fun hdrv => (hc hdrv).2
      refine ⟨hrec, ?_, ?_⟩
      · rw [hpdevs, hfail]
        exact List.forall_mem_append.2 ⟨hs.clean, hnew⟩
      · rw [hatt, hfail]
        exact List.forall_mem_append.2 ⟨hs.cleanAttached, hnew⟩
    · -- Newbus attaches no attached block, so no entry of the drivers is at the address.
      have hatt' : ∀ e ∈ s.attached, e.drv ∈ drivers → e.pdev ∉ d.pdev :: s.failed := by
        intro e he hdrv hmem
        rcases List.mem_cons.1 hmem with heq | hmem
        · exact hd (heq ▸ List.mem_map_of_mem he)
        · exact hs.cleanAttached e he hdrv hmem
      refine ⟨hrec, ?_, ?_⟩
      · rw [hpdevs, hfail]
        refine List.forall_mem_append.2 ⟨fun e he hdrv => ?_, ?_⟩
        · have he' : e ∈ s.attached.filter (·.drv ∈ drivers) := by
            rw [← hs.filter_eq]
            exact List.mem_filter.2 ⟨he, by simpa using hdrv⟩
          exact hatt' e (List.mem_filter.1 he').1 hdrv
        · rw [List.forall_mem_singleton]
          exact fun hdrv => absurd (hc hdrv).1 hthrough
      · rw [hatt, hfail]
        exact hatt'
  | detach drv d =>
    obtain ⟨-, htables, hatt, hfail⟩ := newbusStep_detach h
    have hpdevs : s'.sys.pdevs = s.sys.pdevs.eraseP (·.pdev == d.pdev) :=
      congrArg Prod.fst htables
    refine ⟨hrec, ?_, ?_⟩
    · rw [hpdevs, hfail]
      exact fun e he => hs.clean e (List.mem_of_mem_eraseP he)
    · rw [hatt, hfail]
      exact fun e he => hs.cleanAttached e (List.mem_of_mem_eraseP he)

theorem devsOf_eq (hs : s.CleanFor drivers) {drv : Ptr} (hdrv : drv ∈ drivers) :
    devsOf drv s.sys.pdevs = devsOf drv s.attached := by
  have hsub : ∀ l : List LkpiPdevEnt,
      l.filter (·.drv == drv) = (l.filter (·.drv ∈ drivers)).filter (·.drv == drv) := by
    intro l
    rw [List.filter_filter]
    refine List.filter_congr fun e _ => ?_
    by_cases h : e.drv = drv <;> simp [h, hdrv]
  rw [devsOf, devsOf, hsub, hs.filter_eq, ← hsub]

/-- A device of the drivers is recorded once. -/
theorem firstOfDevice (hs : s.CleanFor drivers) {drv : Ptr} (hdrv : drv ∈ drivers) :
    FirstOfDevice drv s.sys.pdevs := by
  intro l₁ e l₂ hl he e' he' hdev
  have hpdev : e'.pdev = e.pdev := pdevDev_inj.1 hdev
  have hclean : e.pdev ∉ s.failed := hs.clean e (by simp [hl]) (he ▸ hdrv)
  -- Both entries are among those that agree with the attached blocks, which are distinct.
  have hnd : ((s.sys.pdevs.filter (·.pdev ∉ s.failed)).map LkpiPdevEnt.pdev).Nodup := by
    rw [hs.pdevs]
    exact hs.nodup.sublist (List.filter_sublist.map _)
  rw [hl, List.filter_append, List.filter_cons_of_pos (by simpa using hclean), List.map_append,
    List.map_cons, List.nodup_middle, List.nodup_cons] at hnd
  refine hnd.1 (List.mem_append_left _ (hpdev ▸ List.mem_map_of_mem ?_))
  exact List.mem_filter.2 ⟨he', by simpa [hpdev] using hclean⟩

theorem nodup_devsOf (hs : s.CleanFor drivers) (drv : Ptr) : (devsOf drv s.attached).Nodup := by
  have hnd := (hs.nodup.sublist ((List.filter_sublist (p := (·.drv == drv))).map _)).map
    fun _ _ => pdevDev_inj.1
  rwa [List.map_map] at hnd

theorem matchListExact (env : Env) (hs : s.CleanFor drivers) : MatchListExact env drivers s := by
  have hdevs : drivers.flatMap (devsOf · s.sys.pdevs) = s.matchDevs drivers :=
    List.flatMap_congr fun drv hdrv => hs.devsOf_eq hdrv
  have hadd : ∀ fuel, s.sys.pdevs.length + 1 ≤ fuel → ∀ r,
      vc4MatchAddDrivers env s.sys.pdevs fuel drivers r =
        some (componentMatchAddDevs env (s.matchDevs drivers) r) := by
    intro fuel hfuel r
    rw [vc4MatchAddDrivers_eq env hs.drv_ne hfuel drivers r fun drv => hs.firstOfDevice, hdevs]
  refine ⟨fun drv _ => hs.nodup_devsOf drv, ⟨_, hadd⟩, fun hmalloc => ?_⟩
  refine ⟨s.sys.pdevs.length + 1, fun fuel hfuel reg => ?_⟩
  obtain ⟨n, -, hn⟩ := foldl_componentMatchAdd hmalloc (s.matchDevs drivers) [] reg
  exact ⟨_, (hadd fuel hfuel _).trans (congrArg some hn)⟩

end NewbusState.CleanFor

/-- In every run in which the attaches for drivers of the array get through, and none of them
is at an address at which an attach failed, the match list is exact. -/
theorem vc4MatchAddDrivers_exact (env : Env) (drivers : List Ptr) {calls : List NewbusCall}
    {s : NewbusState} (hrun : runSchedule newbusStep calls {} = some s)
    (hcalls : Along newbusStep (AttachesClean drivers) calls {}) : MatchListExact env drivers s :=
  (runSchedule_preserves_along (fun h hc hs => hs.step h hc) hrun hcalls
    (NewbusState.CleanFor.init drivers)).matchListExact env

/-- A block at an address, and its driver. -/
def blockAt (n : ℕ) : NewbusDevice :=
  ⟨n + 1, n + 2, Nat.succ_ne_zero n⟩

/-- The driver of the HVS. -/
def hvsDriver : BlockDriver :=
  Vc4Component.hvs.blockDriver (cooperative id)

theorem getsThrough_hvsDriver (d : NewbusDevice) (sys : Vc4System) :
    GetsThrough 0 hvsDriver d sys := by
  refine ⟨rfl, _, rfl, ?_⟩
  rintro r ⟨⟩
  have hops : Vc4Component.hvs.ops ≠ NULL := by decide
  rw [Vc4System.withRegistry, (cooperative_cooperative id).componentAdd_eq (pdevDev_ne_null _) hops]

/-- Two hvs blocks are attached and the first is detached again. -/
theorem vc4MatchAddDrivers_exact_hvs :
    ∃ s, runSchedule newbusStep [.attach 0 hvsDriver (blockAt 0), .attach 0 hvsDriver (blockAt 64),
        .detach hvsDriver (blockAt 0)] {} = some s ∧
      MatchListExact (cooperative id) [hvsDriver.driver] s := by
  obtain ⟨s, hs⟩ := Option.isSome_iff_exists.1 (show (runSchedule newbusStep
    [.attach 0 hvsDriver (blockAt 0), .attach 0 hvsDriver (blockAt 64),
      .detach hvsDriver (blockAt 0)] {}).isSome = true by decide)
  refine ⟨s, hs, vc4MatchAddDrivers_exact _ _ hs ?_⟩
  refine ⟨fun _ => ⟨getsThrough_hvsDriver _ _, List.not_mem_nil⟩, fun s₁ h₁ => ?_⟩
  refine ⟨fun _ => ⟨getsThrough_hvsDriver _ _, ?_⟩, fun _ _ => ⟨trivial, fun _ _ => trivial⟩⟩
  obtain ⟨-, -, ⟨-, -, hfail⟩ | ⟨hthrough, -⟩⟩ := newbusStep_attach h₁
  · rw [hfail]
    exact List.not_mem_nil
  · exact absurd (getsThrough_hvsDriver _ _) hthrough

/-- The attach fails at the first try and gets through at the second, at the same address :
the block is recorded twice, and `vc4_match_add_drivers` does not end. -/
theorem matchListExact_fails_after_failed_attach :
    ¬ ∀ (env : Env) (drivers : List Ptr) (calls : List NewbusCall) (s : NewbusState),
      runSchedule newbusStep calls {} = some s → MatchListExact env drivers s := by
  intro h
  obtain ⟨s, hs⟩ := Option.isSome_iff_exists.1 (show (runSchedule newbusStep
    [.attach 12 hvsDriver (blockAt 0), .attach 0 hvsDriver (blockAt 0)] {}).isSome = true by decide)
  have hpdevs : s.sys.pdevs = [(blockAt 0).pdevEnt hvsDriver, (blockAt 0).pdevEnt hvsDriver] := by
    have hall : (runSchedule newbusStep
      [.attach 12 hvsDriver (blockAt 0), .attach 0 hvsDriver (blockAt 0)] {}).map (·.sys.pdevs) =
        some [(blockAt 0).pdevEnt hvsDriver, (blockAt 0).pdevEnt hvsDriver] := by decide
    rw [hs] at hall
    exact Option.some.inj hall
  obtain ⟨n, hn⟩ := (h (cooperative id) [hvsDriver.driver] _ s hs).requests
  have hnone : enumerate hvsDriver.driver
      ([(blockAt 0).pdevEnt hvsDriver] ++ (blockAt 0).pdevEnt hvsDriver :: [])
      (fun r d => componentMatchAdd (cooperative id) r.1 componentCompareDev d r.2) n NULL
        (none, {}) = none :=
    enumerate_eq_none hvsDriver.driver_ne rfl (by simp) _ n NULL _ (Or.inl rfl)
  have hend := hn n (Nat.le_refl n) (none, {})
  rw [hpdevs, vc4MatchAddDrivers] at hend
  rw [List.singleton_append] at hnone
  rw [hnone] at hend
  simp at hend

/-! ## What attach and detach leave in the tables -/

/-- The entries of the block at an address. -/
def ofBlock (p : Ptr) (t : List LkpiPdevEnt × List LkpiOfEnt) :
    List LkpiPdevEnt × List LkpiOfEnt :=
  (t.1.filter (·.pdev == p), t.2.filter (·.dev == pdevDev p))

/-- The entries of the other blocks. -/
def notOfBlock (p : Ptr) (t : List LkpiPdevEnt × List LkpiOfEnt) :
    List LkpiPdevEnt × List LkpiOfEnt :=
  (t.1.filter (·.pdev != p), t.2.filter (·.dev != pdevDev p))

@[simp] theorem ofBlock_notOfBlock (p : Ptr) (t : List LkpiPdevEnt × List LkpiOfEnt) :
    ofBlock p (notOfBlock p t) = ([], []) := by
  simp [ofBlock, notOfBlock]

@[simp] theorem notOfBlock_notOfBlock (p : Ptr) (t : List LkpiPdevEnt × List LkpiOfEnt) :
    notOfBlock p (notOfBlock p t) = notOfBlock p t := by
  simp [notOfBlock]

theorem notOfBlock_eq_self {p : Ptr} {t : List LkpiPdevEnt × List LkpiOfEnt}
    (h : ofBlock p t = ([], [])) : notOfBlock p t = t := by
  rw [ofBlock, Prod.mk.injEq, List.filter_eq_nil_iff, List.filter_eq_nil_iff] at h
  rw [notOfBlock, List.filter_eq_self.2 fun e he => by simpa using h.1 e he,
    List.filter_eq_self.2 fun e he => by simpa using h.2 e he]

/-- Recording a block leaves the other entries alone. -/
theorem notOfBlock_record (sys : Vc4System) (drv : BlockDriver) (d : NewbusDevice) :
    notOfBlock d.pdev (sys.record drv d).tables = notOfBlock d.pdev sys.tables := by
  simp [notOfBlock, Vc4System.record, Vc4System.tables, NewbusDevice.pdevEnt, NewbusDevice.ofEnt]

/-- The address of the block a call is for. -/
def NewbusCall.pdev : NewbusCall → Ptr
  | .attach _ _ d => d.pdev
  | .detach _ d => d.pdev

/-- A failed attach leaves both tables as they were. A detach leaves the entries of its block as
they were before the attach, and the entries of other blocks alone, whatever was attached and
detached in between. -/
structure NoTrace (calls : List NewbusCall) : Prop where
  failed : ∀ pre dmaPrivInit drv d post s r, calls = pre ++ .attach dmaPrivInit drv d :: post →
    runSchedule newbusStep pre {} = some s →
    vc4NewbusAttach dmaPrivInit drv.toPlatformDriver d s.sys = some r → r.1 ≠ 0 →
      r.2.tables = s.sys.tables
  restored : ∀ pre dmaPrivInit drv d mid post s₀ s₁ s₂ s₃,
    calls = pre ++ .attach dmaPrivInit drv d :: (mid ++ .detach drv d :: post) →
    (∀ c ∈ mid, c.pdev ≠ d.pdev) →
    runSchedule newbusStep pre {} = some s₀ →
    newbusStep (.attach dmaPrivInit drv d) s₀ = some s₁ →
    runSchedule newbusStep mid s₁ = some s₂ → newbusStep (.detach drv d) s₂ = some s₃ →
      ofBlock d.pdev s₃.sys.tables = ofBlock d.pdev s₀.sys.tables ∧
      notOfBlock d.pdev s₁.sys.tables = notOfBlock d.pdev s₀.sys.tables ∧
      notOfBlock d.pdev s₃.sys.tables = notOfBlock d.pdev s₂.sys.tables ∧
      (mid = [] → s₃.sys.tables = s₀.sys.tables)

/-- The call is no attach that fails. -/
def CallSucceeds : NewbusCall → NewbusState → Prop
  | .attach dmaPrivInit drv d, s => GetsThrough dmaPrivInit drv d s.sys
  | .detach _ _, _ => True

/-- Both tables hold exactly the attached blocks. -/
structure NewbusState.Exact (s : NewbusState) : Prop where
  nodup : (s.attached.map LkpiPdevEnt.pdev).Nodup
  pdevs : s.sys.pdevs = s.attached
  ofNodes : s.sys.ofNodes.map LkpiOfEnt.dev = s.attached.map LkpiPdevEnt.dev

namespace NewbusState.Exact

variable {c : NewbusCall} {s s' : NewbusState} {drv : BlockDriver} {d : NewbusDevice}

theorem init : Exact {} :=
  ⟨List.nodup_nil, rfl, rfl⟩

theorem nodup_dev (hs : s.Exact) : (s.sys.ofNodes.map LkpiOfEnt.dev).Nodup := by
  have hnd := hs.nodup.map fun _ _ => pdevDev_inj.1
  rw [List.map_map] at hnd
  rw [hs.ofNodes]
  exact hnd

/-- A detach drops the entries of its block. -/
theorem detach_tables (hs : s.Exact) (h : newbusStep (.detach drv d) s = some s') :
    s'.sys.tables = notOfBlock d.pdev s.sys.tables := by
  have hnd : (s.sys.pdevs.map LkpiPdevEnt.pdev).Nodup := hs.pdevs ▸ hs.nodup
  rw [(newbusStep_detach h).2.1, TailQueue.eraseP_eq_filter hnd,
    TailQueue.eraseP_eq_filter hs.nodup_dev]
  rfl

theorem step (h : newbusStep c s = some s') (hc : CallSucceeds c s) (hs : s.Exact) : s'.Exact := by
  cases c with
  | attach dmaPrivInit drv d =>
    obtain ⟨hd, htables, ⟨-, hatt, -⟩ | ⟨hfails, -⟩⟩ := newbusStep_attach h
    · obtain ⟨hpdevs, hof⟩ := Prod.mk.inj htables
      refine ⟨?_, ?_, ?_⟩
      · rw [hatt, List.map_append, List.map_singleton]
        exact List.nodup_append_comm.1 (List.nodup_cons.2 ⟨hd, hs.nodup⟩)
      · rw [hpdevs, hatt, ← hs.pdevs]
        rfl
      · rw [hof, hatt, List.map_append, ← hs.ofNodes, Vc4System.record, List.map_append]
        rfl
    · exact absurd hc hfails
  | detach drv d =>
    obtain ⟨hpdevs, hof⟩ := Prod.mk.inj (newbusStep_detach h).2.1
    obtain ⟨-, -, hatt, -⟩ := newbusStep_detach h
    refine ⟨?_, ?_, ?_⟩
    · rw [hatt]
      exact hs.nodup.sublist (List.eraseP_sublist.map _)
    · rw [hpdevs, hatt, hs.pdevs]
    · have hdev : ((·.dev == pdevDev d.pdev) : LkpiPdevEnt → Bool) = (·.pdev == d.pdev) := by
        funext e
        exact Bool.eq_iff_iff.2 (by simp [LkpiPdevEnt.dev, pdevDev_inj])
      have hmap : ((s.sys.ofNodes.map LkpiOfEnt.dev).eraseP (· == pdevDev d.pdev)) =
          (s.attached.map LkpiPdevEnt.dev).eraseP (· == pdevDev d.pdev) := by
        rw [hs.ofNodes]
      rw [List.eraseP_map, List.eraseP_map] at hmap
      rw [hof, hatt, ← hdev]
      exact hmap

/-- The tables have no entry of a block that is not attached. -/
theorem ofBlock_eq (hs : s.Exact) {p : Ptr} (hp : p ∉ s.attached.map LkpiPdevEnt.pdev) :
    ofBlock p s.sys.tables = ([], []) := by
  have hdev : pdevDev p ∉ s.sys.ofNodes.map LkpiOfEnt.dev := by
    rw [hs.ofNodes, List.mem_map]
    rintro ⟨e, he, heq⟩
    exact hp (pdevDev_inj.1 heq ▸ List.mem_map_of_mem he)
  rw [ofBlock, Prod.mk.injEq, List.filter_eq_nil_iff, List.filter_eq_nil_iff]
  constructor
  · intro e he heq
    rw [Vc4System.tables, hs.pdevs] at he
    exact hp (beq_iff_eq.1 heq ▸ List.mem_map_of_mem he)
  · intro e he heq
    exact hdev (beq_iff_eq.1 heq ▸ List.mem_map_of_mem he)

end NewbusState.Exact

/-- A run in which no attach fails leaves no trace. -/
theorem noTrace_of_succeeds {calls : List NewbusCall}
    (hcalls : Along newbusStep CallSucceeds calls {}) : NoTrace calls := by
  refine ⟨?_, ?_⟩
  · intro pre dmaPrivInit drv d post s r heq hpre hr hne
    have hthrough : GetsThrough dmaPrivInit drv d s.sys := along_iff.1 hcalls pre _ post s heq hpre
    exact absurd ((vc4NewbusAttach_spec hr).2.2 hthrough) hne
  · rintro pre dmaPrivInit drv d mid post s₀ s₁ s₂ s₃ rfl - hpre hattach hmid hdetach
    obtain ⟨halong₀, hthrough, halong⟩ := (along_append hpre).1 hcalls
    obtain ⟨halong₁, -⟩ := (along_append hmid).1 (halong s₁ hattach)
    have hs₀ : s₀.Exact :=
      runSchedule_preserves_along (fun h hc hs => hs.step h hc) hpre halong₀ .init
    have hs₂ : s₂.Exact := runSchedule_preserves_along (fun h hc hs => hs.step h hc) hmid halong₁
      (hs₀.step hattach hthrough)
    obtain ⟨hd, hrecord, -⟩ := newbusStep_attach hattach
    have hother : notOfBlock d.pdev s₁.sys.tables = notOfBlock d.pdev s₀.sys.tables := by
      rw [hrecord, notOfBlock_record]
    rw [hs₂.detach_tables hdetach, ofBlock_notOfBlock, notOfBlock_notOfBlock, hs₀.ofBlock_eq hd]
    refine ⟨rfl, hother, rfl, ?_⟩
    rintro rfl
    obtain rfl := Option.some.inj hmid
    rw [hother, notOfBlock_eq_self (hs₀.ofBlock_eq hd)]

/-- A run leaves no trace exactly if no attach of it fails : a failed attach leaves an entry
in each table. -/
theorem noTrace_iff {calls : List NewbusCall} {s : NewbusState}
    (hrun : runSchedule newbusStep calls {} = some s) :
    NoTrace calls ↔ Along newbusStep CallSucceeds calls {} := by
  refine ⟨fun h => along_iff.2 ?_, noTrace_of_succeeds⟩
  rintro pre (⟨dmaPrivInit, drv, d⟩ | ⟨drv, d⟩) post s₀ rfl hpre
  · rw [runSchedule_append, hpre, Option.bind_some, runSchedule] at hrun
    obtain ⟨s₁, hattach, -⟩ := Option.bind_eq_some_iff.1 hrun
    have hret : ∃ r, vc4NewbusAttach dmaPrivInit drv.toPlatformDriver d s₀.sys = some r := by
      rw [newbusStep, if_neg (newbusStep_attach hattach).1] at hattach
      obtain ⟨r, hr, -⟩ := Option.map_eq_some_iff.1 hattach
      exact ⟨r, hr⟩
    obtain ⟨r, hr⟩ := hret
    obtain ⟨htables, hzero⟩ := vc4NewbusAttach_spec hr
    refine hzero.1 (by_contra fun hne => ?_)
    have heq := h.failed pre dmaPrivInit drv d post s₀ r rfl hpre hr hne
    rw [htables] at heq
    simpa [Vc4System.tables, Vc4System.record] using congrArg (List.length ∘ Prod.fst) heq
  · exact trivial

/-- An hvs block is attached and detached. -/
theorem noTrace_hvs : ∃ s, runSchedule newbusStep
      [.attach 0 hvsDriver (blockAt 0), .detach hvsDriver (blockAt 0)] {} = some s ∧
    NoTrace [.attach 0 hvsDriver (blockAt 0), .detach hvsDriver (blockAt 0)] := by
  obtain ⟨s, hs⟩ := Option.isSome_iff_exists.1 (show (runSchedule newbusStep
    [.attach 0 hvsDriver (blockAt 0), .detach hvsDriver (blockAt 0)] {}).isSome = true by decide)
  refine ⟨s, hs, (noTrace_iff hs).2 ?_⟩
  exact ⟨getsThrough_hvsDriver _ _, fun _ _ => ⟨trivial, fun _ _ => trivial⟩⟩

/-- `linux_dma_priv_init` fails for an hvs block, and its entries stay. -/
theorem failed_attach_leaves_trace :
    ¬ ∀ (calls : List NewbusCall) (s : NewbusState),
      runSchedule newbusStep calls {} = some s → NoTrace calls := by
  intro h
  obtain ⟨s, hs⟩ := Option.isSome_iff_exists.1 (show (runSchedule newbusStep
    [.attach 12 hvsDriver (blockAt 0)] {}).isSome = true by decide)
  have htables := (h _ s hs).failed [] 12 hvsDriver (blockAt 0) [] {} _ rfl rfl rfl (by decide)
  exact absurd (congrArg Prod.fst htables) (by decide)

end KernelModules
