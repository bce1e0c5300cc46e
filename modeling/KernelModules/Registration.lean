import KernelModules.MatchOrder

/-!
# Registration order is irrelevant

Components and masters register in any order. With cooperative callbacks and match lists
that name disjoint sets of devices, each master is bound by the call that makes its list
complete, and not before.

`Stage C Q B s` describes a state in the middle of a run : the components `C` and the
masters `Q` are registered, and the masters in `B` are bound to the components they name.
One iteration of `lkpi_try_bind_masters` adds the master it looks at to `B` if its list is
complete (`Stage.tryBindMaster`), the whole loop adds every such master
(`Stage.tryBindMasters`), and so every call ends in a stage whose bound masters are the
complete ones (`stage_run`). That stage does not depend on the order of the calls
(`registration_order_irrelevant`).
-/

namespace KernelModules

variable {env : Env} {data : Ptr → Ptr}

/-! ## Calls -/

/-- A master to register : its device, its operations, and the devices it names. -/
structure MasterSpec where
  dev : Ptr
  ops : Ptr
  names : List Ptr
deriving DecidableEq

/-- A call of `component_add` or of `component_master_add_with_match`. -/
inductive Registration where
  | component (dev ops : Ptr)
  | master (q : MasterSpec)
deriving DecidableEq

/-- The call that it stands for. -/
def Registration.op : Registration → Op
  | .component dev ops => .add dev ops
  | .master q => .masterAdd q.dev q.ops (some (.ofDevs q.names))

/-- The components of a list of calls, in order. -/
def compsOf (calls : List Registration) : List (Ptr × Ptr) :=
  calls.filterMap fun
    | .component dev ops => some (dev, ops)
    | .master _ => none

/-- The masters of a list of calls, in order. -/
def mastersOf (calls : List Registration) : List MasterSpec :=
  calls.filterMap fun
    | .component _ _ => none
    | .master q => some q

/-- Every device the master names is one of the components. -/
def Complete (C : List (Ptr × Ptr)) (q : MasterSpec) : Prop :=
  ∀ d ∈ q.names, d ∈ C.map Prod.fst

/-- Components with distinct devices, masters with distinct devices, and match lists
that repeat no device and share none. -/
structure Admissible (C : List (Ptr × Ptr)) (Q : List MasterSpec) : Prop where
  comps_ne : ∀ c ∈ C, c.1 ≠ NULL ∧ c.2 ≠ NULL
  comps_nodup : (C.map Prod.fst).Nodup
  masters_ne : ∀ q ∈ Q, q.dev ≠ NULL ∧ q.ops ≠ NULL
  masters_nodup : (Q.map MasterSpec.dev).Nodup
  names_nodup : ∀ q ∈ Q, q.names.Nodup
  names_disjoint : ∀ q ∈ Q, ∀ q' ∈ Q, ∀ d, d ∈ q.names → d ∈ q'.names → q = q'

theorem Admissible.of_append {C : List (Ptr × Ptr)} (C' : List (Ptr × Ptr)) {Q : List MasterSpec}
    (Q' : List MasterSpec) (h : Admissible (C ++ C') (Q ++ Q')) : Admissible C Q where
  comps_ne c hc := h.comps_ne c (List.mem_append_left _ hc)
  comps_nodup := (List.map_append ▸ h.comps_nodup).of_append_left
  masters_ne q hq := h.masters_ne q (List.mem_append_left _ hq)
  masters_nodup := (List.map_append ▸ h.masters_nodup).of_append_left
  names_nodup q hq := h.names_nodup q (List.mem_append_left _ hq)
  names_disjoint q hq q' hq' :=
    h.names_disjoint q (List.mem_append_left _ hq) q' (List.mem_append_left _ hq')

/-! ## Stages -/

/-- The registered master `m` is `q`, and its flag says whether it is in `B`. -/
structure Registers (B : MasterSpec → Prop) (m : LkpiMaster) (q : MasterSpec) : Prop where
  dev : m.dev = q.dev
  ops : m.ops = q.ops
  matchList : m.matchList = some (.ofDevs q.names)
  bound : m.bound = true ↔ B q

/-- The components `C` and the masters `Q` are registered, and the masters in `B` are
bound, each to the components it names. -/
structure Stage (data : Ptr → Ptr) (C : List (Ptr × Ptr)) (Q : List MasterSpec)
    (B : MasterSpec → Prop) (s : Registry) : Prop extends s.WF where
  comps : s.components.map (fun c => (c.dev, c.ops)) = C
  devs : s.masters.map LkpiMaster.dev = Q.map MasterSpec.dev
  registers : ∀ m ∈ s.masters, ∃ q ∈ Q, Registers B m q
  owned : ∀ c ∈ s.components, ∀ q ∈ Q, B q → c.dev ∈ q.names →
    c.bound = true ∧ c.master = q.dev ∧ c.masterData = data q.dev
  free : ∀ c ∈ s.components, (∀ q ∈ Q, B q → c.dev ∉ q.names) →
    c.bound = false ∧ c.master = NULL ∧ c.masterData = NULL
  trace_bound : ∀ q ∈ Q, B q → bindTrace q.dev s.trace = q.names
  trace_free : ∀ M, (∀ q ∈ Q, B q → q.dev ≠ M) → bindTrace M s.trace = []
  added : ∀ d ∈ C.map Prod.fst, ∃ a, Event.add a d ∈ s.trace
  late : ∀ q ∈ Q, ∀ tr, tr ++ [.masterBind q.dev] <+: s.trace →
    ∀ d ∈ q.names, ∃ a, Event.add a d ∈ tr
  known : ∀ M, Event.masterBind M ∈ s.trace → ∃ q ∈ Q, q.dev = M

namespace Stage

variable {C : List (Ptr × Ptr)} {Q : List MasterSpec} {B B' : MasterSpec → Prop} {s : Registry}

theorem congr (h : Stage data C Q B s) (hB : ∀ q ∈ Q, B q ↔ B' q) : Stage data C Q B' s where
  toWF := h.toWF
  comps := h.comps
  devs := h.devs
  registers m hm := by
    obtain ⟨q, hq, hr⟩ := h.registers m hm
    exact ⟨q, hq, hr.dev, hr.ops, hr.matchList, hr.bound.trans (hB q hq)⟩
  owned c hc q hq hb := h.owned c hc q hq ((hB q hq).2 hb)
  free c hc hf := h.free c hc fun q hq hb => hf q hq ((hB q hq).1 hb)
  trace_bound q hq hb := h.trace_bound q hq ((hB q hq).2 hb)
  trace_free M hM := h.trace_free M fun q hq hb => hM q hq ((hB q hq).1 hb)
  added := h.added
  late := h.late
  known := h.known

theorem dev_nodup (h : Stage data C Q B s) (hA : Admissible C Q) :
    (s.components.map (·.dev)).Nodup := by
  have hmap : s.components.map (·.dev) = C.map Prod.fst := by
    rw [← h.comps, List.map_map]
    rfl
  exact hmap ▸ hA.comps_nodup

theorem mem_devs (h : Stage data C Q B s) {d : Ptr} :
    d ∈ C.map Prod.fst ↔ ∃ c ∈ s.components, c.dev = d := by
  rw [← h.comps, List.map_map]
  simp

theorem exists_master (h : Stage data C Q B s) (hA : Admissible C Q) {q : MasterSpec}
    (hq : q ∈ Q) : ∃ m ∈ s.masters, Registers B m q := by
  obtain ⟨m, hm, hdev⟩ := List.mem_map.1 (h.devs ▸ List.mem_map_of_mem hq)
  obtain ⟨q', hq', hr⟩ := h.registers m hm
  refine ⟨m, hm, ?_⟩
  rwa [List.inj_on_of_nodup_map hA.masters_nodup hq' hq (hr.dev.symm.trans hdev)] at hr

/-- The walks for a registered master find its match list. -/
theorem matchFor_eq (h : Stage data C Q B s) (hA : Admissible C Q) {q : MasterSpec}
    (hq : q ∈ Q) : matchFor s q.dev = some (.ofDevs q.names) := by
  obtain ⟨m, hm, hr⟩ := h.exists_master hA hq
  unfold matchFor lkpiMasterFor
  cases hf : s.masters.find? (·.dev == q.dev) with
  | none => simpa [hr.dev] using List.find?_eq_none.1 hf m hm
  | some m' =>
    obtain ⟨q', hq', hr'⟩ := h.registers m' (List.mem_of_find?_eq_some hf)
    have hdev : q'.dev = q.dev := by
      rw [← hr'.dev]
      simpa using List.find?_some hf
    rw [List.inj_on_of_nodup_map hA.masters_nodup hq' hq hdev] at hr'
    exact hr'.matchList

/-! ## One iteration of the loop -/

/-- What the bind callback of an unbound, complete master does. -/
theorem componentBindAll_eq (henv : env.Cooperative data) (h : Stage data C Q B s)
    (hA : Admissible C Q) {q : MasterSpec} (hq : q ∈ Q) (hb : ¬B q) (hc : Complete C q) :
    componentBindAll env q.dev (data q.dev) (s.log (.masterBind q.dev)) =
      (0, { s with
        components := s.components.map (bindDevs q.names q.dev (data q.dev))
        trace := s.trace ++ [.masterBind q.dev] ++
          q.names.map fun d => .bind (addrOf s.components d) d q.dev (data q.dev) 0 }) := by
  have hfree : ∀ d ∈ q.names, ∃ c ∈ s.components, c.dev = d ∧ c.bound = false := by
    intro d hd
    obtain ⟨c, hcm, rfl⟩ := h.mem_devs.1 (hc d hd)
    refine ⟨c, hcm, rfl, (h.free c hcm fun q' hq' hb' hd' => ?_).1⟩
    exact hb (hA.names_disjoint q hq q' hq' _ hd hd' ▸ hb')
  have hmatch : matchFor (s.log (.masterBind q.dev)) q.dev = some (.ofDevs q.names) :=
    h.matchFor_eq hA hq
  simp only [componentBindAll, hmatch, entries_ofDevs]
  exact bindEntries_ofDevs henv.bind _ _ _ (s.log (.masterBind q.dev)) (hA.names_nodup q hq)
    h.components_nodup (h.dev_nodup hA) hfree

/-- The state after the bind callback of `q` succeeded. -/
def bindMaster (data : Ptr → Ptr) (q : MasterSpec) (s : Registry) : Registry :=
  { s with
    components := s.components.map (bindDevs q.names q.dev (data q.dev))
    trace := s.trace ++ [.masterBind q.dev] ++
      q.names.map fun d => .bind (addrOf s.components d) d q.dev (data q.dev) 0 }

theorem bindTrace_bindMaster (q : MasterSpec) (s : Registry) (M : Ptr) :
    bindTrace M (bindMaster data q s).trace =
      bindTrace M s.trace ++ if q.dev = M then q.names else [] := by
  simp only [bindMaster, bindTrace_append, bindTrace_map_bind]
  simp [bindTrace]

/-- A call of a master's bind callback up to here was made before, or is this one. -/
theorem prefix_bindMaster {q : MasterSpec} {tr : List Event} {M : Ptr}
    (h : tr ++ [.masterBind M] <+: (bindMaster data q s).trace) :
    tr ++ [.masterBind M] <+: s.trace ∨ (tr = s.trace ∧ M = q.dev) := by
  have hpre := Ledger.prefix_of_prefix_append (by simp) h
  rcases Ledger.concat_prefix_concat_iff.1 hpre with ⟨htr, hM⟩ | hpre
  · exact Or.inr ⟨htr, Event.masterBind.inj hM⟩
  · exact Or.inl hpre

/-- Binding an unbound, complete master adds it to the bound ones. -/
theorem bindMaster_stage (h : Stage data C Q B s) (hA : Admissible C Q) {q : MasterSpec}
    (hq : q ∈ Q) (hb : ¬B q) (hc : Complete C q) {m : LkpiMaster} (hm : m ∈ s.masters)
    (hr : Registers B m q) :
    Stage data C Q (fun q' => B q' ∨ q' = q) ((bindMaster data q s).markBound m.addr) where
  toWF := by
    have hwf : (bindMaster data q s).WF :=
      ⟨by simpa [bindMaster, Function.comp_def] using h.components_nodup,
        by simpa [bindMaster] using h.components_lt, h.masters_nodup, h.masters_lt⟩
    exact hwf.markBound m.addr
  comps := by simpa [bindMaster, Function.comp_def] using h.comps
  devs := by
    rw [Registry.markBound_masters, TailQueue.map_update (f := LkpiMaster.mark) _ fun _ => rfl]
    exact h.devs
  registers m' hm' := by
    rcases (TailQueue.mem_update_iff h.masters_nodup hm _).1 hm' with ⟨hold, hne⟩ | rfl
    · obtain ⟨q', hq', hr'⟩ := h.registers m' hold
      -- another master has another device, so it is not `q`
      have hqq : q' ≠ q := by
        rintro rfl
        have hnd : (s.masters.map LkpiMaster.dev).Nodup := h.devs ▸ hA.masters_nodup
        exact hne (congrArg _ (List.inj_on_of_nodup_map hnd hold hm (hr'.dev.trans hr.dev.symm)))
      exact ⟨q', hq', hr'.dev, hr'.ops, hr'.matchList, by simp [hr'.bound, hqq]⟩
    · exact ⟨q, hq, hr.dev, hr.ops, hr.matchList, by simp [LkpiMaster.mark]⟩
  owned c hc' q' hq' hb' hd := by
    obtain ⟨c, hold, rfl⟩ := List.mem_map.1 hc'
    rw [bindDevs_dev] at hd
    by_cases hqq : q' = q
    · subst hqq
      simp [bindDevs, hd, LkpiComponent.bindTo]
    · have hd' : c.dev ∉ q.names := fun hd' => hqq (hA.names_disjoint q' hq' q hq _ hd hd')
      simpa [bindDevs, hd'] using h.owned c hold q' hq' (hb'.resolve_right hqq) hd
  free c hc' hf := by
    obtain ⟨c, hold, rfl⟩ := List.mem_map.1 hc'
    simp only [bindDevs_dev] at hf
    have hd : c.dev ∉ q.names := hf q hq (Or.inr rfl)
    simpa [bindDevs, hd] using h.free c hold fun q' hq' hb' => hf q' hq' (Or.inl hb')
  trace_bound q' hq' hb' := by
    rw [Registry.markBound_trace, bindTrace_bindMaster]
    by_cases hqq : q' = q
    · subst hqq
      rw [h.trace_free _ fun q₀ hq₀ hb₀ hdev => ?_, if_pos rfl, List.nil_append]
      exact hb (List.inj_on_of_nodup_map hA.masters_nodup hq₀ hq hdev ▸ hb₀)
    · have hne : q.dev ≠ q'.dev := fun hdev =>
        hqq (List.inj_on_of_nodup_map hA.masters_nodup hq hq' hdev).symm
      rw [h.trace_bound q' hq' (hb'.resolve_right hqq), if_neg hne, List.append_nil]
  trace_free M hM := by
    rw [Registry.markBound_trace, bindTrace_bindMaster, if_neg (hM q hq (Or.inr rfl)),
      List.append_nil]
    exact h.trace_free M fun q' hq' hb' => hM q' hq' (Or.inl hb')
  added d hd := by
    obtain ⟨a, ha⟩ := h.added d hd
    exact ⟨a, by simp [bindMaster, ha]⟩
  late q' hq' tr hpre d hd := by
    rcases prefix_bindMaster hpre with hpre | ⟨rfl, hdev⟩
    · exact h.late q' hq' tr hpre d hd
    · rw [List.inj_on_of_nodup_map hA.masters_nodup hq' hq hdev] at hd
      exact h.added d (hc d hd)
  known M hM := by
    simp only [Registry.markBound_trace, bindMaster, List.mem_append, List.mem_singleton,
      Event.masterBind.injEq, List.mem_map, reduceCtorEq, and_false, exists_false, or_false] at hM
    rcases hM with hM | rfl
    · exact h.known M hM
    · exact ⟨q, hq, rfl⟩

/-- One iteration of `lkpi_try_bind_masters` binds its master if the list is complete. -/
theorem tryBindMaster (henv : env.Cooperative data) (h : Stage data C Q B s)
    (hA : Admissible C Q) {m : LkpiMaster} (hm : m ∈ s.masters) {q : MasterSpec} (hq : q ∈ Q)
    (hr : Registers B m q) :
    Stage data C Q (fun q' => B q' ∨ (q' = q ∧ Complete C q)) (lkpiTryBindMaster env s m) := by
  have hcomplete : lkpiMatchComplete m.matchList s.components = true ↔ Complete C q := by
    rw [hr.matchList, lkpiMatchComplete_ofDevs]
    simp only [Complete, h.mem_devs]
  unfold lkpiTryBindMaster
  by_cases hb : B q
  · rw [if_pos (by simp [hr.bound.2 hb])]
    exact h.congr fun q' _ => ⟨Or.inl, fun hq' => hq'.elim id fun e => e.1 ▸ hb⟩
  have hmb : m.bound = false := Bool.eq_false_iff.2 fun e => hb (hr.bound.1 e)
  rw [if_neg (by simp [hmb, henv.hasMasterBind])]
  by_cases hc : Complete C q
  · rw [if_neg (by simp [hcomplete.2 hc])]
    simp only [henv.masterBind, Script.run, hr.dev, h.componentBindAll_eq henv hA hq hb hc]
    exact (h.bindMaster_stage hA hq hb hc hm hr).congr fun q' _ => by simp [hc]
  · rw [if_pos (by simpa using fun hm => hc (hcomplete.1 hm))]
    exact h.congr fun q' _ => by simp [hc]

/-- The loop of `lkpi_try_bind_masters` binds every master whose list is complete. -/
theorem tryBindMasters (henv : env.Cooperative data) (hA : Admissible C Q) :
    ∀ (ms : List LkpiMaster) {B : MasterSpec → Prop} {s : Registry}, Stage data C Q B s →
      (∀ m ∈ ms, m ∈ s.masters) → (ms.map LkpiMaster.addr).Nodup →
      Stage data C Q (fun q => B q ∨ (Complete C q ∧ ∃ m ∈ ms, m.dev = q.dev))
        (ms.foldl (lkpiTryBindMaster env) s)
  | [], _, _, h, _, _ => h.congr fun q _ => by simp
  | m :: ms, B, s, h, hmem, hnd => by
    obtain ⟨hm, hms⟩ := List.forall_mem_cons.1 hmem
    obtain ⟨hna, hnd'⟩ := List.nodup_cons.1 hnd
    obtain ⟨q, hq, hr⟩ := h.registers m hm
    have hnext := h.tryBindMaster henv hA hm hq hr
    have hrest := tryBindMasters henv hA ms hnext
      (fun m' hm' => mem_lkpiTryBindMaster h.toWF (hms m' hm')
        fun ha => hna (ha ▸ List.mem_map_of_mem hm')) hnd'
    refine hrest.congr fun q' hq' => ?_
    have hqm : q' = q ↔ m.dev = q'.dev :=
      ⟨fun e => e ▸ hr.dev, fun e =>
        List.inj_on_of_nodup_map hA.masters_nodup hq' hq (e.symm.trans hr.dev)⟩
    simp only [List.mem_cons, exists_eq_or_imp, ← hqm]
    constructor
    · rintro ((hb | ⟨rfl, hc⟩) | ⟨hc, hms⟩)
      · exact Or.inl hb
      · exact Or.inr ⟨hc, Or.inl rfl⟩
      · exact Or.inr ⟨hc, Or.inr hms⟩
    · rintro (hb | ⟨hc, rfl | hms⟩)
      · exact Or.inl (Or.inl hb)
      · exact Or.inl (Or.inr ⟨rfl, hc⟩)
      · exact Or.inr ⟨hc, hms⟩

/-- After the loop, the bound masters are those that were bound and the complete ones. -/
theorem lkpiTryBindMasters (henv : env.Cooperative data) (hA : Admissible C Q)
    (h : Stage data C Q B s) (hB : ∀ q ∈ Q, B q → Complete C q) :
    Stage data C Q (Complete C) (lkpiTryBindMasters env s) := by
  refine (tryBindMasters henv hA s.masters h (fun _ hm => hm) h.masters_nodup).congr
    fun q hq => ⟨fun hb => hb.elim (hB q hq) And.left, fun hc => ?_⟩
  obtain ⟨m, hm, hr⟩ := h.exists_master hA hq
  exact Or.inr ⟨hc, m, hm, hr.dev⟩

/-! ## Registering -/

theorem addComponent (h : Stage data C Q B s) {d o : Ptr}
    (hnew : ∀ q ∈ Q, B q → d ∉ q.names) :
    Stage data (C ++ [(d, o)]) Q B (s.addComponent env d o) where
  toWF := h.toWF.addComponent d o
  comps := by simp [Registry.addComponent, h.comps]
  devs := h.devs
  registers := h.registers
  owned c hc q hq hb hd := by
    rcases List.mem_append.1 hc with hc | hc
    · exact h.owned c hc q hq hb hd
    · obtain rfl := List.mem_singleton.1 hc
      exact absurd hd (hnew q hq hb)
  free c hc hf := by
    rcases List.mem_append.1 hc with hc | hc
    · exact h.free c hc hf
    · obtain rfl := List.mem_singleton.1 hc
      exact ⟨rfl, rfl, rfl⟩
  trace_bound q hq hb := by
    simpa [Registry.addComponent, bindTrace] using h.trace_bound q hq hb
  trace_free M hM := by
    simpa [Registry.addComponent, bindTrace] using h.trace_free M hM
  added d' hd' := by
    simp only [List.map_append, List.mem_append, List.map_cons, List.map_nil,
      List.mem_singleton] at hd'
    rcases hd' with hd' | rfl
    · obtain ⟨a, ha⟩ := h.added d' hd'
      exact ⟨a, by simp [Registry.addComponent, ha]⟩
    · exact ⟨s.allocs, by simp [Registry.addComponent]⟩
  late q hq tr hpre := h.late q hq tr (Ledger.prefix_of_prefix_append (by simp) hpre)
  known M hM := h.known M (by simpa [Registry.addComponent] using hM)

theorem addMaster (h : Stage data C Q B s) {q : MasterSpec} (hnew : ∀ q' ∈ Q, q'.dev ≠ q.dev) :
    Stage data C (Q ++ [q]) (fun q' => B q' ∧ q' ≠ q)
      (s.addMaster env q.dev q.ops (some (.ofDevs q.names))) := by
  obtain ⟨evs, htrace, hevs⟩ := addMaster_trace env s q.dev q.ops (some (.ofDevs q.names))
  have hne : ∀ q' ∈ Q, q' ≠ q := fun q' hq' e => hnew q' hq' (congrArg _ e)
  have hbind : ∀ M, bindTrace M evs = [] := by
    intro M
    refine List.filterMap_eq_nil_iff.2 fun e he => ?_
    rw [hevs e he]
  have hmem : ∀ M, Event.masterBind M ∉ evs := fun M hM => by simpa using hevs _ hM
  constructor
  · exact h.toWF.addMaster _ _ _
  · rw [addMaster_components]
    exact h.comps
  · rw [addMaster_masters, List.map_append, List.map_append, h.devs]
    rfl
  · intro m hm
    rw [addMaster_masters] at hm
    rcases List.mem_append.1 hm with hm | hm
    · obtain ⟨q', hq', hr⟩ := h.registers m hm
      exact ⟨q', List.mem_append_left _ hq', hr.dev, hr.ops, hr.matchList,
        by simp [hr.bound, hne q' hq']⟩
    · obtain rfl := List.mem_singleton.1 hm
      exact ⟨q, by simp, rfl, rfl, rfl, by simp⟩
  · intro c hc q' hq' hb hd
    rw [addMaster_components] at hc
    rcases List.mem_append.1 hq' with hq' | hq'
    · exact h.owned c hc q' hq' hb.1 hd
    · exact absurd (List.mem_singleton.1 hq') hb.2
  · intro c hc hf
    rw [addMaster_components] at hc
    exact h.free c hc fun q' hq' hb => hf q' (List.mem_append_left _ hq') ⟨hb, hne q' hq'⟩
  · intro q' hq' hb
    rw [htrace, bindTrace_append, hbind, List.append_nil]
    rcases List.mem_append.1 hq' with hq' | hq'
    · exact h.trace_bound q' hq' hb.1
    · exact absurd (List.mem_singleton.1 hq') hb.2
  · intro M hM
    rw [htrace, bindTrace_append, hbind, List.append_nil]
    exact h.trace_free M fun q' hq' hb => hM q' (List.mem_append_left _ hq') ⟨hb, hne q' hq'⟩
  · intro d hd
    obtain ⟨a, ha⟩ := h.added d hd
    exact ⟨a, by simp [htrace, ha]⟩
  · intro q' hq' tr hpre
    rw [htrace] at hpre
    replace hpre := Ledger.prefix_of_prefix_append (hmem _) hpre
    rcases List.mem_append.1 hq' with hq' | hq'
    · exact h.late q' hq' tr hpre
    · obtain rfl := List.mem_singleton.1 hq'
      -- the bind callback of a master that was not registered has not run
      obtain ⟨q₀, hq₀, hdev⟩ := h.known q'.dev (hpre.subset (by simp))
      exact absurd hdev (hnew q₀ hq₀)
  · intro M hM
    rw [htrace] at hM
    obtain ⟨q', hq', hdev⟩ := h.known M ((List.mem_append.1 hM).resolve_right (hmem M))
    exact ⟨q', List.mem_append_left _ hq', hdev⟩

end Stage

/-! ## Runs -/

theorem stage_init : Stage data [] [] (Complete []) {} where
  toWF := wf_init
  comps := rfl
  devs := rfl
  registers := by simp
  owned := by simp
  free := by simp
  trace_bound := by simp
  trace_free M _ := rfl
  added := by simp
  late := by simp
  known := by simp

/-- The state after registration calls in the order given. -/
def registered (env : Env) (calls : List Registration) : Registry :=
  run env (calls.map Registration.op)

theorem registered_concat (calls : List Registration) (r : Registration) :
    registered env (calls ++ [r]) = r.op.step env (registered env calls) := by
  simp [registered, run]

/-- After every sequence of registrations, the bound masters are the complete ones. -/
theorem stage_registered (henv : env.Cooperative data) (calls : List Registration)
    (hA : Admissible (compsOf calls) (mastersOf calls)) :
    Stage data (compsOf calls) (mastersOf calls) (Complete (compsOf calls))
      (registered env calls) := by
  induction calls using List.reverseRecOn with
  | nil => exact stage_init
  | append_singleton calls r ih =>
    rw [registered_concat]
    cases r with
    | component d o =>
      have hC : compsOf (calls ++ [.component d o]) = compsOf calls ++ [(d, o)] := by
        simp [compsOf]
      have hQ : mastersOf (calls ++ [.component d o]) = mastersOf calls := by simp [mastersOf]
      rw [hC, hQ] at hA ⊢
      have hst := ih (Admissible.of_append [(d, o)] [] (by simpa using hA))
      have hnew : d ∉ (compsOf calls).map Prod.fst := by
        have := hA.comps_nodup
        rw [List.map_append, List.nodup_append'] at this
        simpa using this.2.2
      have hne := hA.comps_ne (d, o) (by simp)
      simp only [Registration.op, Op.step, henv.componentAdd_eq hne.1 hne.2]
      refine (hst.addComponent fun q _ hc hd => hnew (hc d hd)).lkpiTryBindMasters henv hA
        fun q _ hc d' hd' => ?_
      rw [List.map_append]
      exact List.mem_append_left _ (hc d' hd')
    | master q =>
      have hC : compsOf (calls ++ [.master q]) = compsOf calls := by simp [compsOf]
      have hQ : mastersOf (calls ++ [.master q]) = mastersOf calls ++ [q] := by simp [mastersOf]
      rw [hC, hQ] at hA ⊢
      have hst := ih (Admissible.of_append [] [q] (by simpa using hA))
      have hnew : ∀ q' ∈ mastersOf calls, q'.dev ≠ q.dev := by
        have := hA.masters_nodup
        rw [List.map_append, List.nodup_append'] at this
        simpa using this.2.2
      have hne := hA.masters_ne q (by simp)
      simp only [Registration.op, Op.step, henv.componentMasterAddWithMatch_eq hne.1 hne.2]
      exact (hst.addMaster hnew).lkpiTryBindMasters henv hA fun q' _ hc => hc.1

/-! ## The result -/

/-- What a run leaves of a component : device, operations, flag, master and data. -/
def bindings (s : Registry) : List (Ptr × Ptr × Bool × Ptr × Ptr) :=
  s.components.map fun c => (c.dev, c.ops, c.bound, c.master, c.masterData)

/-- The binding of a component is fixed by which calls were made. -/
theorem Stage.mem_bindings {C : List (Ptr × Ptr)} {Q : List MasterSpec} {B : MasterSpec → Prop}
    {s : Registry} (h : Stage data C Q B s) {d o M x : Ptr} {b : Bool} :
    (d, o, b, M, x) ∈ bindings s ↔ (d, o) ∈ C ∧
      ((∃ q ∈ Q, B q ∧ d ∈ q.names ∧ b = true ∧ M = q.dev ∧ x = data q.dev) ∨
        ((∀ q ∈ Q, B q → d ∉ q.names) ∧ b = false ∧ M = NULL ∧ x = NULL)) := by
  constructor
  · intro hmem
    obtain ⟨c, hc, heq⟩ := List.mem_map.1 hmem
    simp only [Prod.mk.injEq] at heq
    obtain ⟨rfl, rfl, rfl, rfl, rfl⟩ := heq
    refine ⟨h.comps ▸ List.mem_map_of_mem hc, ?_⟩
    by_cases hq : ∃ q ∈ Q, B q ∧ c.dev ∈ q.names
    · obtain ⟨q, hq, hb, hd⟩ := hq
      exact Or.inl ⟨q, hq, hb, hd, h.owned c hc q hq hb hd⟩
    · have hf : ∀ q ∈ Q, B q → c.dev ∉ q.names := fun q hqm hb hd => hq ⟨q, hqm, hb, hd⟩
      exact Or.inr ⟨hf, h.free c hc hf⟩
  · rintro ⟨hC, hown⟩
    rw [← h.comps] at hC
    obtain ⟨c, hc, heq⟩ := List.mem_map.1 hC
    obtain ⟨rfl, rfl⟩ := Prod.mk.inj heq
    refine List.mem_map.2 ⟨c, hc, ?_⟩
    rcases hown with ⟨q, hq, hb, hd, rfl, rfl, rfl⟩ | ⟨hf, rfl, rfl, rfl⟩
    · obtain ⟨h1, h2, h3⟩ := h.owned c hc q hq hb hd
      rw [h1, h2, h3]
    · obtain ⟨h1, h2, h3⟩ := h.free c hc hf
      rw [h1, h2, h3]

theorem Stage.bindings_nodup {C : List (Ptr × Ptr)} {Q : List MasterSpec} {B : MasterSpec → Prop}
    {s : Registry} (h : Stage data C Q B s) (hA : Admissible C Q) : (bindings s).Nodup := by
  refine List.Nodup.of_map Prod.fst ?_
  have hmap : (bindings s).map Prod.fst = s.components.map (·.dev) := by simp [bindings]
  exact hmap ▸ h.dev_nodup hA

theorem Complete.congr {C C' : List (Ptr × Ptr)} (h : C.Perm C') (q : MasterSpec) :
    Complete C q ↔ Complete C' q := by
  simp only [Complete, (h.map Prod.fst).mem_iff]

theorem Admissible.perm {C C' : List (Ptr × Ptr)} {Q Q' : List MasterSpec} (h : Admissible C Q)
    (hC : C.Perm C') (hQ : Q.Perm Q') : Admissible C' Q' where
  comps_ne c hc := h.comps_ne c (hC.mem_iff.2 hc)
  comps_nodup := (hC.map Prod.fst).nodup_iff.1 h.comps_nodup
  masters_ne q hq := h.masters_ne q (hQ.mem_iff.2 hq)
  masters_nodup := (hQ.map MasterSpec.dev).nodup_iff.1 h.masters_nodup
  names_nodup q hq := h.names_nodup q (hQ.mem_iff.2 hq)
  names_disjoint q hq q' hq' := h.names_disjoint q (hQ.mem_iff.2 hq) q' (hQ.mem_iff.2 hq')

/-- With cooperative callbacks, whatever the order of the registrations : no master's bind
callback runs before the components it names are registered; at the end every master whose
names are all components is bound, exactly to the components it names, each recorded with
that master and its data, bound in the order of the match list; and two orders of the same
calls end in the same bindings with the same bind callbacks for each master. -/
theorem registration_order_irrelevant (henv : env.Cooperative data) (calls : List Registration)
    (hA : Admissible (compsOf calls) (mastersOf calls)) :
    (∀ q ∈ mastersOf calls, ∀ tr, tr ++ [.masterBind q.dev] <+: (registered env calls).trace →
      ∀ d ∈ q.names, ∃ a, Event.add a d ∈ tr) ∧
    (∀ q ∈ mastersOf calls, Complete (compsOf calls) q →
      (∃ m ∈ (registered env calls).masters, m.dev = q.dev ∧ m.bound = true) ∧
      (∀ d ∈ q.names, ∃ c ∈ (registered env calls).components, c.dev = d ∧ c.bound = true ∧
        c.master = q.dev ∧ c.masterData = data q.dev) ∧
      (∀ c ∈ (registered env calls).components, c.bound = true → c.master = q.dev →
        c.dev ∈ q.names) ∧
      bindTrace q.dev (registered env calls).trace = q.names) ∧
    ∀ calls', calls.Perm calls' →
      (bindings (registered env calls)).Perm (bindings (registered env calls')) ∧
      ∀ M, bindTrace M (registered env calls).trace = bindTrace M (registered env calls').trace := by
  have h := stage_registered henv calls hA
  refine ⟨h.late, fun q hq hc => ⟨?_, ?_, ?_, h.trace_bound q hq hc⟩, fun calls' hperm => ?_⟩
  · obtain ⟨m, hm, hr⟩ := h.exists_master hA hq
    exact ⟨m, hm, hr.dev, hr.bound.2 hc⟩
  · intro d hd
    obtain ⟨c, hcm, rfl⟩ := h.mem_devs.1 (hc d hd)
    exact ⟨c, hcm, rfl, h.owned c hcm q hq hc hd⟩
  · intro c hcm hb hM
    by_cases hown : ∃ q' ∈ mastersOf calls, Complete (compsOf calls) q' ∧ c.dev ∈ q'.names
    · obtain ⟨q', hq', hc', hd⟩ := hown
      have hdev := (h.owned c hcm q' hq' hc' hd).2.1
      rwa [← List.inj_on_of_nodup_map hA.masters_nodup hq' hq (hdev.symm.trans hM)]
    · have hf := (h.free c hcm fun q' hq' hc' hd => hown ⟨q', hq', hc', hd⟩).1
      simp [hb] at hf
  · have hC : (compsOf calls).Perm (compsOf calls') := hperm.filterMap _
    have hQ : (mastersOf calls).Perm (mastersOf calls') := hperm.filterMap _
    have h' := stage_registered henv calls' (hA.perm hC hQ)
    refine ⟨?_, ?_⟩
    · rw [List.perm_ext_iff_of_nodup (h.bindings_nodup hA) (h'.bindings_nodup (hA.perm hC hQ))]
      rintro ⟨d, o, b, M, x⟩
      simp only [h.mem_bindings, h'.mem_bindings, hC.mem_iff, hQ.mem_iff, Complete.congr hC]
    · intro M
      by_cases hown : ∃ q ∈ mastersOf calls, Complete (compsOf calls) q ∧ q.dev = M
      · obtain ⟨q, hq, hc, rfl⟩ := hown
        rw [h.trace_bound q hq hc,
          h'.trace_bound q (hQ.mem_iff.1 hq) ((Complete.congr hC q).1 hc)]
      · rw [h.trace_free M fun q hq hc hM => hown ⟨q, hq, hc, hM⟩,
          h'.trace_free M fun q hq hc hM =>
            hown ⟨q, hQ.mem_iff.2 hq, (Complete.congr hC q).2 hc, hM⟩]

/-- Two masters and three components, in an order that completes the second master first. -/
def mixedCalls : List Registration :=
  [.component 10 1, .master ⟨100, 2, [20, 10]⟩, .master ⟨200, 2, [30]⟩, .component 30 1,
    .component 20 1]

theorem registration_order_irrelevant_mixedCalls :
    (∃ m ∈ (registered (cooperative (· + 1)) mixedCalls).masters, m.dev = 100 ∧ m.bound = true) ∧
      bindTrace 100 (registered (cooperative (· + 1)) mixedCalls).trace = [20, 10] := by
  obtain ⟨-, h, -⟩ := registration_order_irrelevant (cooperative_cooperative (· + 1)) mixedCalls
    ⟨by decide, by decide, by decide, by decide, by decide, by decide⟩
  obtain ⟨hbound, -, -, htrace⟩ := h ⟨100, 2, [20, 10]⟩ (by decide) (by
    unfold Complete
    decide)
  exact ⟨hbound, htrace⟩

end KernelModules
