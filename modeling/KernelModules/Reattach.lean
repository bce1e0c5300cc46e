import KernelModules.Cooperative

/-!
# A component that leaves and comes back

`component_del` unbinds the component and leaves its master marked bound; the retry in
`component_add` skips masters that are marked. So a component that leaves a bound master
is not bound again when it comes back, whatever else is registered
(`not_comesBack`).

The runs are those of drivers coming and going with cooperative callbacks (`Orderly`) :
components and masters are added and removed, no device is registered as a master twice
at a time. Along them every bound component belongs to a registered master that is marked
bound and names it, and a master with a match list over distinct devices holds at most one
component of each (`Settled`).
-/

namespace KernelModules

variable {env : Env} {data : Ptr → Ptr}

/-- A registration or a removal; a master's device is not registered already. -/
def OrderlyOp : Op → Registry → Prop
  | .masterAdd M _ _, s => ∀ m ∈ s.masters, m.dev ≠ M
  | .bindAll _ _, _ => False
  | .unbindAll _ _, _ => False
  | _, _ => True

/-- A run of registrations and removals. -/
def Orderly (env : Env) : List Op → Registry → Prop
  | [], _ => True
  | op :: calls, s => OrderlyOp op s ∧ Orderly env calls (op.step env s)

/-- Component `c` is held by the registered master `m`. -/
structure HeldBy (c : LkpiComponent) (m : LkpiMaster) : Prop where
  master : c.master = m.dev
  marked : m.bound = true
  named : ∀ l, m.matchList = some l → ∃ e ∈ l.entries, e.selects c.dev = true

/-- No two components with one device are bound to `M`. -/
def OneEach (M : Ptr) (cs : List LkpiComponent) : Prop :=
  ∀ c ∈ cs, ∀ c' ∈ cs, c.bound = true → c'.bound = true → c.master = M → c'.master = M →
    c.dev = c'.dev → c = c'

/-- The state between two calls of an orderly run. -/
structure Settled (s : Registry) : Prop extends s.WF where
  devs_nodup : (s.masters.map LkpiMaster.dev).Nodup
  held : ∀ c ∈ s.components, c.bound = true → ∃ m ∈ s.masters, HeldBy c m
  oneEach : ∀ m ∈ s.masters, ∀ names : List Ptr, names.Nodup →
    m.matchList = some (.ofDevs names) → OneEach m.dev s.components

/-! ## Binding one master's components -/

theorem bindOne_ok (henv : env.Cooperative data) (M x : Ptr) (c : LkpiComponent) (s : Registry) :
    bindOne env M x c s =
      (0, (s.log (.bind c.addr c.dev M x 0)).updateComponent c.addr (.bindTo M x)) := by
  simp [bindOne, henv.bind]

theorem bindList_ok (henv : env.Cooperative data) (M x : Ptr) :
    ∀ (cs : List LkpiComponent) (s : Registry), (bindList env M x cs s).1 = 0
  | [], _ => rfl
  | c :: cs, s => by
    unfold bindList
    split
    · exact bindList_ok henv M x cs s
    · rw [bindOne_ok henv]
      exact bindList_ok henv M x cs _

theorem bindEntries_ok (henv : env.Cooperative data) (M x : Ptr) :
    ∀ (es : List LkpiMatchEntry) (s : Registry), (bindEntries env M x es s).1 = 0
  | [], _ => rfl
  | e :: es, s => by
    unfold bindEntries
    split
    · exact bindEntries_ok henv M x es s
    · rw [bindOne_ok henv]
      exact bindEntries_ok henv M x es _

theorem componentBindAll_ok (henv : env.Cooperative data) (M x : Ptr) (s : Registry) :
    (componentBindAll env M x s).1 = 0 := by
  unfold componentBindAll
  split
  · exact bindList_ok henv M x _ s
  · exact bindEntries_ok henv M x _ s

/-- Along a match list over distinct devices, each entry binds at most one component, of a
device no later entry selects. -/
theorem oneEach_bindEntries (henv : env.Cooperative data) (M x : Ptr) :
    ∀ (names : List Ptr) (s : Registry), names.Nodup → s.WF → OneEach M s.components →
      (∀ c ∈ s.components, c.bound = true → c.master = M → c.dev ∉ names) →
      OneEach M (bindEntries env M x (names.map .ofDev) s).2.components
  | [], _, _, _, hone, _ => hone
  | d :: names, s, hnd', hs, hone, hfree => by
    obtain ⟨hd, hnd⟩ := List.nodup_cons.1 hnd'
    rw [List.map_cons, bindEntries]
    split
    · exact oneEach_bindEntries henv M x names s hnd hs hone fun c hc hb hM hmem =>
        hfree c hc hb hM (List.mem_cons_of_mem _ hmem)
    · next c hc =>
      have hmem := List.mem_of_find?_eq_some hc
      have hp := List.find?_some hc
      simp only [Bool.and_eq_true, selects_ofDev] at hp
      obtain ⟨-, rfl⟩ := hp
      have hwf := hs.bindOne env M x c
      rw [bindOne_ok henv] at hwf ⊢
      have hupd : ∀ {c'}, c' ∈ ((s.log (.bind c.addr c.dev M x 0)).updateComponent c.addr
          (.bindTo M x)).components → (c' ∈ s.components ∧ c'.addr ≠ c.addr) ∨
            c' = c.bindTo M x :=
        fun h => (TailQueue.mem_update_iff hs.components_nodup hmem _).1 h
      refine oneEach_bindEntries henv M x names _ hnd hwf ?_ ?_
      · intro c₁ h₁ c₂ h₂ hb₁ hb₂ hM₁ hM₂ hdev
        rcases hupd h₁ with ⟨h₁, -⟩ | rfl <;> rcases hupd h₂ with ⟨h₂, -⟩ | rfl
        · exact hone c₁ h₁ c₂ h₂ hb₁ hb₂ hM₁ hM₂ hdev
        · exact absurd (by simp [hdev, LkpiComponent.bindTo]) (hfree c₁ h₁ hb₁ hM₁)
        · exact absurd (by simp [← hdev, LkpiComponent.bindTo]) (hfree c₂ h₂ hb₂ hM₂)
        · rfl
      · intro c' h' hb hM hmem'
        rcases hupd h' with ⟨h', -⟩ | rfl
        · exact hfree c' h' hb hM (List.mem_cons_of_mem _ hmem')
        · exact hd hmem'

/-! ## One iteration of the loop -/

theorem matchFor_eq_matchList {s : Registry} (hnd : (s.masters.map LkpiMaster.dev).Nodup)
    {m : LkpiMaster} (hm : m ∈ s.masters) : matchFor s m.dev = m.matchList := by
  have hfind : lkpiMasterFor s m.dev = some m :=
    TailQueue.find?_eq_some_of_mem hnd hm (beq_self_eq_true _) fun _ hp => beq_iff_eq.1 hp
  rw [matchFor, hfind]
  rfl

/-- With cooperative callbacks, an unbound master whose list is complete is bound. -/
theorem lkpiTryBindMaster_cases (henv : env.Cooperative data) (s : Registry) (m : LkpiMaster) :
    lkpiTryBindMaster env s m = s ∨ (m.bound = false ∧ lkpiTryBindMaster env s m =
      (componentBindAll env m.dev (data m.dev) (s.log (.masterBind m.dev))).2.markBound m.addr) := by
  unfold lkpiTryBindMaster
  split
  · exact Or.inl rfl
  · next hb =>
    split
    · exact Or.inl rfl
    · simp only [Bool.or_eq_true, not_or, Bool.not_eq_true] at hb
      refine Or.inr ⟨hb.1, ?_⟩
      simp only [henv.masterBind, Script.run, componentBindAll_ok henv]

/-- What `component_bind_all(M)` adds is bound to `M` and selected by the walk. -/
theorem mem_componentBindAll (env : Env) (M x : Ptr) {s : Registry} (hs : s.WF) {c : LkpiComponent}
    (hc : c ∈ (componentBindAll env M x s).2.components) :
    c ∈ s.components ∨ (c.master = M ∧ Selected s M c) := by
  refine (componentBindAll_rule (I := fun s' => (s'.WF ∧ s'.masters = s.masters) ∧
    ∀ c ∈ s'.components, c ∈ s.components ∨ (c.master = M ∧ Selected s M c))
    (fun _ h => h.1.1) ?_ ⟨⟨hs, rfl⟩, fun _ => Or.inl⟩).2 c hc
  rintro s' c' ⟨⟨hwf, hm⟩, hold⟩ hc' - hsel
  refine ⟨⟨hwf.bindOne env M x c', (bindOne_masters env M x c' s').trans hm⟩, fun b hb => ?_⟩
  rcases mem_bindOne_cases hwf hc' hb with hb | rfl
  · exact hold b hb
  · refine Or.inr ⟨rfl, fun l hl => hsel l ?_⟩
    rw [matchFor_congr hm, hl]

namespace Settled

variable {s : Registry} (h : Settled s)

include h

/-- The master a component is bound to is determined by its device. -/
theorem heldBy {m : LkpiMaster} (hm : m ∈ s.masters) {c : LkpiComponent}
    (hc : c ∈ s.components) (hb : c.bound = true) (hM : c.master = m.dev) : HeldBy c m := by
  obtain ⟨m', hm', hheld⟩ := h.held c hc hb
  rwa [← List.inj_on_of_nodup_map h.devs_nodup hm' hm (hheld.master.symm.trans hM)]

/-- An unmarked master has nothing bound to it. -/
theorem master_ne {m : LkpiMaster} (hm : m ∈ s.masters) (hmb : m.bound = false)
    {c : LkpiComponent} (hc : c ∈ s.components) (hb : c.bound = true) : c.master ≠ m.dev :=
  fun hM => Bool.false_ne_true (hmb.symm.trans (h.heldBy hm hc hb hM).marked)

/-- The state after a master bound components of its own and was marked. -/
theorem markBound {s' : Registry} {m : LkpiMaster} (hm : m ∈ s.masters) (hmb : m.bound = false)
    (hwf : s'.WF) (hms : s'.masters = s.masters)
    (hmem : ∀ c ∈ s'.components, c ∈ s.components ∨ (c.master = m.dev ∧ Selected s m.dev c))
    (hone : ∀ names : List Ptr, names.Nodup → m.matchList = some (.ofDevs names) →
      OneEach m.dev s'.components) : Settled (s'.markBound m.addr) := by
  have hmark : (s'.markBound m.addr).masters =
      TailQueue.update LkpiMaster.addr m.addr .mark s.masters := by
    rw [Registry.markBound_masters, hms]
  refine ⟨hwf.markBound _, ?_, fun c hc hb => ?_, fun m' hm' names hnd hl => ?_⟩
  · rw [hmark, TailQueue.map_update (f := LkpiMaster.mark) _ fun _ => rfl]
    exact h.devs_nodup
  · rw [hmark]
    rcases hmem c hc with hcs | ⟨hM, hsel⟩
    · obtain ⟨m₀, hm₀, hheld⟩ := h.held c hcs hb
      refine ⟨m₀, TailQueue.mem_update_of_ne hm₀ fun ha => ?_, hheld⟩
      rw [List.inj_on_of_nodup_map h.masters_nodup hm₀ hm ha] at hheld
      exact h.master_ne hm hmb hcs hb hheld.master
    · refine ⟨m.mark, TailQueue.mem_update.2 (Or.inr ⟨m, hm, rfl, rfl⟩), hM, rfl, fun l hl => ?_⟩
      exact hsel l ((matchFor_eq_matchList h.devs_nodup hm).trans hl)
  · obtain ⟨m₀, hm₀, hdev, hlist⟩ : ∃ m₀ ∈ s.masters, m'.dev = m₀.dev ∧
        m'.matchList = m₀.matchList := by
      rw [hmark] at hm'
      rcases TailQueue.mem_update.1 hm' with ⟨hm', -⟩ | ⟨m₀, hm₀, -, rfl⟩
      · exact ⟨m', hm', rfl, rfl⟩
      · exact ⟨m₀, hm₀, rfl, rfl⟩
    rw [hlist] at hl
    rw [hdev]
    by_cases heq : m₀ = m
    · rw [heq]
      exact hone names hnd (heq ▸ hl)
    · have hne : m₀.dev ≠ m.dev := fun e => heq (List.inj_on_of_nodup_map h.devs_nodup hm₀ hm e)
      have hold : ∀ c ∈ s'.components, c.master = m₀.dev → c ∈ s.components := fun c hc hM =>
        (hmem c hc).resolve_right fun hr => hne (hM.symm.trans hr.1)
      intro c hc c' hc' hb hb' hM hM'
      exact h.oneEach m₀ hm₀ names hnd hl c (hold c hc hM) c' (hold c' hc' hM') hb hb' hM hM'

theorem tryBindMaster (henv : env.Cooperative data) {m : LkpiMaster} (hm : m ∈ s.masters) :
    Settled (lkpiTryBindMaster env s m) := by
  rcases lkpiTryBindMaster_cases henv s m with he | ⟨hmb, he⟩ <;> rw [he]
  · exact h
  have hlog := h.toWF.log (.masterBind m.dev)
  refine h.markBound hm hmb (componentBindAll_wf env _ _ hlog) (componentBindAll_masters env _ _ hlog)
    (fun c => mem_componentBindAll env m.dev (data m.dev) hlog) fun names hnd hl => ?_
  have hmatch : matchFor (s.log (.masterBind m.dev)) m.dev = some (.ofDevs names) :=
    (matchFor_eq_matchList h.devs_nodup hm).trans hl
  simp only [componentBindAll, hmatch]
  exact oneEach_bindEntries henv _ _ names _ hnd hlog
    (fun c hc _ _ hb _ hM => absurd hM (h.master_ne hm hmb hc hb))
    fun c hc hb hM => absurd hM (h.master_ne hm hmb hc hb)

theorem tryBindMasters (henv : env.Cooperative data) : Settled (lkpiTryBindMasters env s) :=
  lkpiTryBindMasters_rule (fun _ hs => hs.toWF) (fun _ _ hs hm => hs.tryBindMaster henv hm) h

end Settled

/-! ## Runs -/

/-- The walk without a match list leaves nothing bound. -/
theorem bound_unbindList (M x : Ptr) : ∀ (cs : List LkpiComponent) (s : Registry),
    (∀ c ∈ s.components, c.bound = true → c ∈ cs) →
      ∀ c ∈ (unbindList env M x cs s).components, c.bound = false
  | [], s, hcs, c, hc => by
    cases hb : c.bound with
    | false => rfl
    | true => exact absurd (hcs c hc hb) (by simp)
  | a :: cs, s, hcs, c, hc => by
    unfold unbindList at hc
    split at hc
    · next ha =>
      refine bound_unbindList M x cs s (fun b hb hbb => ?_) c hc
      refine (List.mem_cons.1 (hcs b hb hbb)).resolve_left fun e => ?_
      simp [← e, hbb] at ha
    · refine bound_unbindList M x cs _ (fun b hb hbb => ?_) c hc
      rcases TailQueue.mem_update.1 hb with ⟨hb, hne⟩ | ⟨a', -, -, rfl⟩
      · exact (List.mem_cons.1 (hcs b hb hbb)).resolve_left fun e => hne (congrArg _ e)
      · exact absurd hbb (by simp [LkpiComponent.release])

namespace Settled

variable {s : Registry} (h : Settled s)

include h

/-- Without new bound components, a settled state stays settled. -/
theorem of_subset {s' : Registry} (hwf : s'.WF) (hms : s'.masters = s.masters)
    (hsub : ∀ c ∈ s'.components, c.bound = true → c ∈ s.components) : Settled s' := by
  refine ⟨hwf, hms ▸ h.devs_nodup, fun c hc hb => ?_, fun m hm names hnd hl => ?_⟩
  · rw [hms]
    exact h.held c (hsub c hc hb) hb
  · intro c hc c' hc' hb hb'
    exact h.oneEach m (hms ▸ hm) names hnd hl c (hsub c hc hb) c' (hsub c' hc' hb') hb hb'

theorem addComponent (dev ops : Ptr) : Settled (s.addComponent env dev ops) := by
  refine h.of_subset (h.toWF.addComponent dev ops) rfl fun c hc hb => ?_
  rcases List.mem_append.1 hc with hc | hc
  · exact hc
  · rw [List.mem_singleton.1 hc] at hb
    exact absurd hb (by simp)

theorem componentDel (env : Env) (dev ops : Ptr) : Settled (componentDel env dev ops s) := by
  refine h.of_subset (h.toWF.componentDel env dev ops) (componentDel_masters env dev ops s)
    fun c hc _ => ?_
  rw [componentDel_components] at hc
  exact List.mem_of_mem_eraseP hc

theorem addMaster {M ops : Ptr} {l : Option ComponentMatch} (hM : ∀ m ∈ s.masters, m.dev ≠ M) :
    Settled (s.addMaster env M ops l) := by
  refine ⟨h.toWF.addMaster M ops l, ?_, fun c hc hb => ?_, fun m hm names hnd hl => ?_⟩
  · rw [addMaster_masters, List.map_append]
    refine List.nodup_append'.2 ⟨h.devs_nodup, by simp, ?_⟩
    simpa using hM
  · rw [addMaster_components] at hc
    rw [addMaster_masters]
    obtain ⟨m, hm, hheld⟩ := h.held c hc hb
    exact ⟨m, List.mem_append_left _ hm, hheld⟩
  · rw [addMaster_components]
    rw [addMaster_masters] at hm
    rcases List.mem_append.1 hm with hm | hm
    · exact h.oneEach m hm names hnd hl
    · intro c hc _ _ hb _ hcM
      obtain ⟨m', hm', hheld⟩ := h.held c hc hb
      refine absurd (hheld.master.symm.trans hcM) ?_
      rw [List.mem_singleton.1 hm]
      exact hM m' hm'

theorem componentMasterDel (henv : env.Cooperative data) (M ops : Ptr) :
    Settled (componentMasterDel env M ops s) := by
  unfold KernelModules.componentMasterDel
  split
  · exact h
  next m hm =>
  have hmem := List.mem_of_find?_eq_some hm
  have hp := List.find?_some hm
  simp only [Bool.and_eq_true, beq_iff_eq] at hp
  obtain ⟨rfl, rfl⟩ := hp
  have hwf := h.toWF.unlinkMaster m.dev m.ops
  have hnd : ((s.unlinkMaster m.dev m.ops).masters.map LkpiMaster.dev).Nodup :=
    h.devs_nodup.sublist (List.eraseP_sublist.map _)
  simp only [henv.hasMasterUnbind, Bool.and_true]
  split
  · -- The match list is gone with the master, so everything is unbound.
    have hnone : matchFor ((s.unlinkMaster m.dev m.ops).log (.masterUnbind m.dev)) m.dev = none :=
      matchFor_unlinkMaster h.toWF hm fun x hx hd =>
        List.inj_on_of_nodup_map h.devs_nodup hx hmem hd
    have hlog := hwf.log (.masterUnbind m.dev)
    have hwf' := componentUnbindAll_wf env m.dev (data m.dev) hlog
    have hms' := componentUnbindAll_masters env m.dev (data m.dev) hlog
    have hfree : ∀ c ∈ (componentUnbindAll env m.dev (data m.dev)
        ((s.unlinkMaster m.dev m.ops).log (.masterUnbind m.dev))).components, c.bound ≠ true := by
      simp only [componentUnbindAll, hnone, ne_eq, Bool.not_eq_true]
      exact bound_unbindList _ _ _ _ fun c hc _ => List.mem_reverse.2 hc
    simp only [henv.masterUnbind, Script.run]
    refine ⟨hwf', ?_, fun c hc hb => absurd hb (hfree c hc), fun m' _ names _ _ c hc _ _ hb =>
      absurd hb (hfree c hc)⟩
    rw [hms']
    exact hnd
  · next hmb =>
    refine ⟨hwf, hnd, fun c hc hb => ?_, fun m' hm' names =>
      h.oneEach m' (List.mem_of_mem_eraseP hm') names⟩
    obtain ⟨m', hm', hheld⟩ := h.held c hc hb
    refine ⟨m', (TailQueue.mem_eraseP_iff h.masters_nodup hm).2 ⟨hm', fun ha => hmb ?_⟩, hheld⟩
    rw [← List.inj_on_of_nodup_map h.masters_nodup hm' hmem ha]
    exact hheld.marked

theorem step (henv : env.Cooperative data) {op : Op} (hop : OrderlyOp op s) :
    Settled (op.step env s) := by
  cases op with
  | add dev ops =>
    simp only [Op.step]
    rcases componentAdd_cases env dev ops s with he | he | ⟨-, -, -, -, he⟩ <;> rw [he]
    · exact h
    · exact h.of_subset (h.toWF.malloc env) rfl fun _ hc _ => hc
    · exact (h.addComponent dev ops).tryBindMasters henv
  | del dev ops => exact h.componentDel env dev ops
  | bindAll M d => exact hop.elim
  | unbindAll M d => exact hop.elim
  | masterAdd M ops l =>
    simp only [Op.step]
    rcases componentMasterAddWithMatch_cases env M ops l s with he | he | ⟨-, -, -, he⟩ <;> rw [he]
    · exact h
    · rcases warnEmpty_cases s M l with hw | hw <;> rw [hw]
      · exact h.of_subset (h.toWF.malloc env) rfl fun _ hc _ => hc
      · exact h.of_subset ((h.toWF.log _).malloc env) rfl fun _ hc _ => hc
    · exact (h.addMaster hop).tryBindMasters henv
  | masterDel M ops => exact h.componentMasterDel henv M ops

end Settled

theorem settled_init : Settled {} :=
  ⟨wf_init, by simp, by simp, by simp⟩

theorem Settled.foldl (henv : env.Cooperative data) : ∀ (calls : List Op) {s : Registry},
    Settled s → Orderly env calls s → Settled (calls.foldl (fun s op => op.step env s) s)
  | [], _, h, _ => h
  | _ :: calls, _, h, ho => Settled.foldl henv calls (h.step henv ho.1) ho.2

theorem settled_run (henv : env.Cooperative data) {calls : List Op} (ho : Orderly env calls {}) :
    Settled (run env calls) :=
  Settled.foldl henv calls settled_init ho

/-! ## Leaving and coming back -/

/-- Some component of the device is bound to `M`. -/
def Holds (s : Registry) (M d : Ptr) : Prop :=
  ∃ c ∈ s.components, c.dev = d ∧ c.bound = true ∧ c.master = M

instance (s : Registry) (M d : Ptr) : Decidable (Holds s M d) :=
  inferInstanceAs (Decidable (∃ c ∈ s.components, _))

/-- `M` is not marked bound while it holds no component of the device. -/
def NoGap (s : Registry) (M d : Ptr) : Prop :=
  ∀ m ∈ s.masters, m.dev = M → m.bound = true → Holds s M d

instance (s : Registry) (M d : Ptr) : Decidable (NoGap s M d) :=
  inferInstanceAs (Decidable (∀ m ∈ s.masters, _ → _ → _))

/-- `M` is marked bound and holds a component of every device it names. -/
def BoundAgain (s : Registry) (M : Ptr) (names : List Ptr) : Prop :=
  (∃ m ∈ s.masters, m.dev = M ∧ m.bound = true) ∧ ∀ d ∈ names, Holds s M d

instance (s : Registry) (M : Ptr) (names : List Ptr) : Decidable (BoundAgain s M names) :=
  @instDecidableAnd _ _ (inferInstanceAs (Decidable (∃ m ∈ s.masters, _))) _

/-- A master that is marked bound is passed over, and other masters bind nothing to it. -/
theorem not_holds_tryBindMasters (henv : env.Cooperative data) {s : Registry} (hs : Settled s)
    {m : LkpiMaster} (hm : m ∈ s.masters) (hb : m.bound = true) {d : Ptr}
    (hd : ¬Holds s m.dev d) : ¬Holds (lkpiTryBindMasters env s) m.dev d := by
  refine (lkpiTryBindMasters_rule (I := fun s => Settled s ∧ m ∈ s.masters ∧ ¬Holds s m.dev d)
    (fun _ h => h.1.toWF) ?_ ⟨hs, hm, hd⟩).2.2
  rintro s m' ⟨hs, hm, hd⟩ hm'
  refine ⟨hs.tryBindMaster henv hm', ?_⟩
  rcases lkpiTryBindMaster_cases henv s m' with he | ⟨hb', he⟩
  · rw [he]
    exact ⟨hm, hd⟩
  have hne : m ≠ m' := fun e => Bool.false_ne_true (hb'.symm.trans (e ▸ hb))
  refine ⟨mem_lkpiTryBindMaster hs.toWF hm fun ha =>
    hne (List.inj_on_of_nodup_map hs.masters_nodup hm hm' ha), ?_⟩
  rintro ⟨c, hc, hcd, hcb, hM⟩
  rw [he] at hc
  rcases mem_componentBindAll env _ _ (hs.toWF.log _) hc with hc | ⟨hM', -⟩
  · exact hd ⟨c, hc, hcd, hcb, hM⟩
  · exact hne (List.inj_on_of_nodup_map hs.devs_nodup hm hm' (hM.symm.trans hM'))

/-- Wherever a bound component leaves its master and comes back, the master stays marked
bound without it, and is not bound again. -/
theorem not_comesBack (henv : env.Cooperative data) (calls : List Op) (ho : Orderly env calls {})
    {m : LkpiMaster} (hm : m ∈ (run env calls).masters) {names : List Ptr} (hnd : names.Nodup)
    (hl : m.matchList = some (.ofDevs names)) {c : LkpiComponent} {dev ops : Ptr}
    (hc : (run env calls).components.find? (fun c => c.dev == dev && c.ops == ops) = some c)
    (hb : c.bound = true) (hM : c.master = m.dev) :
    ¬NoGap (componentDel env dev ops (run env calls)) m.dev dev ∧
      ¬BoundAgain (componentAdd env dev ops (componentDel env dev ops (run env calls))).2
        m.dev names := by
  have hs := settled_run henv ho
  generalize run env calls = s at *
  have hmem := List.mem_of_find?_eq_some hc
  have hp := List.find?_some hc
  simp only [Bool.and_eq_true, beq_iff_eq] at hp
  obtain ⟨rfl, rfl⟩ := hp
  have hheld := hs.heldBy hm hmem hb hM
  -- `c` was the only component of its device bound to the master.
  have hgap : ¬Holds (componentDel env c.dev c.ops s) m.dev c.dev := by
    rintro ⟨c', hc', hdev, hb', hM'⟩
    rw [componentDel_components] at hc'
    obtain ⟨hc', hne⟩ := (TailQueue.mem_eraseP_iff hs.components_nodup hc).1 hc'
    exact hne (congrArg _ (hs.oneEach m hm names hnd hl c' hc' c hmem hb' hb hM' hM hdev))
  have hm' : m ∈ (componentDel env c.dev c.ops s).masters := by
    rw [componentDel_masters]
    exact hm
  have hnamed : c.dev ∈ names := by
    obtain ⟨e, he, hsel⟩ := hheld.named _ hl
    obtain ⟨d, hd, rfl⟩ := List.mem_map.1 he
    rwa [(selects_ofDev d c.dev).1 hsel]
  have hs' := hs.componentDel env c.dev c.ops
  refine ⟨fun hno => hgap (hno m hm' rfl hheld.marked), fun hagain => ?_⟩
  refine absurd (hagain.2 c.dev hnamed) ?_
  rcases componentAdd_cases env c.dev c.ops (componentDel env c.dev c.ops s) with
    he | he | ⟨-, -, -, -, he⟩ <;> rw [he]
  · exact hgap
  · exact hgap
  · refine not_holds_tryBindMasters henv (hs'.addComponent c.dev c.ops) hm' hheld.marked ?_
    rintro ⟨c', hc', hdev, hb', hM'⟩
    rcases List.mem_append.1 hc' with hc' | hc'
    · exact hgap ⟨c', hc', hdev, hb', hM'⟩
    · rw [List.mem_singleton.1 hc'] at hb'
      exact absurd hb' (by simp)

/-- Two components and the master that names them. -/
def pairCalls : List Op :=
  [.add 10 1, .add 20 1, .masterAdd 100 2 (some (.ofDevs [10, 20]))]

theorem not_comesBack_pairCalls :
    ¬NoGap (componentDel (cooperative fun _ => 7) 10 1 (run (cooperative fun _ => 7) pairCalls))
        100 10 ∧
      ¬BoundAgain (componentAdd (cooperative fun _ => 7) 10 1
        (componentDel (cooperative fun _ => 7) 10 1
          (run (cooperative fun _ => 7) pairCalls))).2 100 [10, 20] :=
  not_comesBack (cooperative_cooperative fun _ => 7) pairCalls
    ⟨trivial, trivial, fun _ hm => absurd hm List.not_mem_nil, trivial⟩
    (m := ⟨3, 100, 2, some (.ofDevs [10, 20]), true⟩)
    (List.mem_singleton.2 rfl) (by decide) rfl (c := ⟨1, 10, 1, true, 100, 7⟩) rfl rfl rfl

/-- Component 10 leaves the bound master 100 and comes back : the master is marked bound
throughout, and component 10 is not bound to it again. -/
theorem comesBack_fails :
    ((run (cooperative fun _ => 7) pairCalls).components.map fun c => (c.dev, c.bound, c.master)) =
        [(10, true, 100), (20, true, 100)] ∧
      ¬(NoGap (componentDel (cooperative fun _ => 7) 10 1
          (run (cooperative fun _ => 7) pairCalls)) 100 10 ∧
        BoundAgain (componentAdd (cooperative fun _ => 7) 10 1
          (componentDel (cooperative fun _ => 7) 10 1
            (run (cooperative fun _ => 7) pairCalls))).2 100 [10, 20]) := by
  decide

end KernelModules
