import KernelModules.Component

/-!
# Invariants of the component framework

`component_bind_all` and `component_unbind_all` are, whichever walk they take, a number
of `bindOne`s or `unbindOne`s of registered components (`componentBindAll_rule`,
`componentUnbindAll_rule`), and every run is made of those, of list insertions and
removals, and of writes to a master's flag. `Preserves` collects what an invariant has
to keep, and `Preserves.run` is the induction over runs, once for all invariants. The
calls of a run include the ones callbacks make : `Op.Meets` says that a condition holds
at every one of them.

`Registry.WF` is the first invariant : addresses are distinct.
-/

namespace KernelModules

variable {env : Env}

/-! ## Addresses -/

/-- Components have distinct addresses, masters too, and all were handed out. -/
structure Registry.WF (s : Registry) : Prop where
  components_nodup : (s.components.map LkpiComponent.addr).Nodup
  components_lt : ∀ c ∈ s.components, c.addr < s.allocs
  masters_nodup : (s.masters.map LkpiMaster.addr).Nodup
  masters_lt : ∀ m ∈ s.masters, m.addr < s.allocs

theorem wf_init : ({} : Registry).WF :=
  ⟨by simp, by simp, by simp, by simp⟩

theorem Registry.WF.log {s : Registry} (h : s.WF) (e : Event) : (s.log e).WF :=
  ⟨h.1, h.2, h.3, h.4⟩

theorem Registry.WF.updateComponent {s : Registry} (h : s.WF) (a : Ptr)
    {f : LkpiComponent → LkpiComponent} (hf : ∀ c, (f c).addr = c.addr) :
    (s.updateComponent a f).WF := by
  refine ⟨?_, fun c hc => ?_, h.3, h.4⟩
  · rw [Registry.updateComponent_components, TailQueue.map_update _ hf]
    exact h.1
  · rcases TailQueue.mem_update.1 hc with ⟨hc, -⟩ | ⟨c', hc', -, rfl⟩
    · exact h.2 c hc
    · rw [hf]
      exact h.2 c' hc'

theorem Registry.WF.markBound {s : Registry} (h : s.WF) (a : Ptr) : (s.markBound a).WF := by
  refine ⟨h.1, h.2, ?_, fun m hm => ?_⟩
  · rw [Registry.markBound_masters, TailQueue.map_update (f := LkpiMaster.mark) _ fun _ => rfl]
    exact h.3
  · rcases TailQueue.mem_update.1 hm with ⟨hm, -⟩ | ⟨m', hm', -, rfl⟩
    · exact h.4 m hm
    · exact h.4 m' hm'

/-! ## One component -/

theorem bindOne_masters (env : Env) (M d : Ptr) (c : LkpiComponent) (s : Registry) :
    (bindOne env M d c s).2.masters = s.masters := by
  unfold bindOne
  dsimp only
  split <;> rfl

@[simp] theorem unbindOne_masters (M d : Ptr) (c : LkpiComponent) (s : Registry) :
    (unbindOne env M d c s).masters = s.masters :=
  rfl

theorem Registry.WF.bindOne {s : Registry} (h : s.WF) (env : Env) (M d : Ptr) (c : LkpiComponent) :
    (bindOne env M d c s).2.WF := by
  unfold KernelModules.bindOne
  dsimp only
  split
  · exact h.log _
  · exact (h.log _).updateComponent _ fun _ => rfl

theorem Registry.WF.unbindOne {s : Registry} (h : s.WF) (M d : Ptr) (c : LkpiComponent) :
    (unbindOne env M d c s).WF :=
  (h.log _).updateComponent _ fun _ => rfl

/-- A component at another address is left alone. -/
theorem mem_bindOne {s : Registry} {M d : Ptr} {c c' : LkpiComponent} (h : c' ∈ s.components)
    (hne : c'.addr ≠ c.addr) : c' ∈ (bindOne env M d c s).2.components := by
  unfold bindOne
  dsimp only
  split
  · exact h
  · exact TailQueue.mem_update_of_ne h hne

theorem mem_unbindOne {s : Registry} {M d : Ptr} {c c' : LkpiComponent} (h : c' ∈ s.components)
    (hne : c'.addr ≠ c.addr) : c' ∈ (unbindOne env M d c s).components :=
  TailQueue.mem_update_of_ne h hne

/-- What `bindOne` does : log a failing callback, or log the bind and record it. -/
theorem bindOne_cases (env : Env) (M d : Ptr) (c : LkpiComponent) (s : Registry) :
    (∃ r, r ≠ 0 ∧ bindOne env M d c s = (r, s.log (.bind c.addr c.dev M d r))) ∨
      bindOne env M d c s =
        (0, (s.log (.bind c.addr c.dev M d 0)).updateComponent c.addr (.bindTo M d)) := by
  unfold bindOne
  dsimp only
  split
  · next h => exact Or.inl ⟨_, h, rfl⟩
  · next h => exact Or.inr (by rw [not_not.1 h])

/-- A component of the list after a bind is an old one, or the one just bound. -/
theorem mem_bindOne_cases {s : Registry} (hs : s.WF) {M d : Ptr} {c c' : LkpiComponent}
    (hc : c ∈ s.components) (h : c' ∈ (bindOne env M d c s).2.components) :
    c' ∈ s.components ∨ c' = c.bindTo M d := by
  rcases bindOne_cases env M d c s with ⟨r, -, he⟩ | he <;> rw [he] at h
  · exact Or.inl h
  · rcases (TailQueue.mem_update_iff hs.components_nodup hc _).1 h with ⟨h, -⟩ | h
    · exact Or.inl h
    · exact Or.inr h

theorem mem_unbindOne_cases {s : Registry} (hs : s.WF) {M d : Ptr} {c c' : LkpiComponent}
    (hc : c ∈ s.components) (h : c' ∈ (unbindOne env M d c s).components) :
    c' ∈ s.components ∨ c' = c.release := by
  rcases (TailQueue.mem_update_iff hs.components_nodup hc _).1 h with ⟨h, -⟩ | h
  · exact Or.inl h
  · exact Or.inr h

theorem matchFor_congr {s s' : Registry} (h : s'.masters = s.masters) (M : Ptr) :
    matchFor s' M = matchFor s M := by
  simp [matchFor, lkpiMasterFor, h]

/-- The component is one the walk for `M` may touch : every component without a match
list, those some entry selects with one. -/
def Selected (s : Registry) (M : Ptr) (c : LkpiComponent) : Prop :=
  ∀ l, matchFor s M = some l → ∃ e ∈ l.entries, e.selects c.dev = true

instance (s : Registry) (M : Ptr) (c : LkpiComponent) : Decidable (Selected s M c) :=
  match h : matchFor s M with
  | none => isTrue fun l hl => by simp [h] at hl
  | some l => decidable_of_iff (∃ e ∈ l.entries, e.selects c.dev = true)
      ⟨fun he l' hl' => by rwa [← Option.some.inj (h.symm.trans hl')], fun hsel => hsel l h⟩

/-! ## The walks -/

section Walks

variable {M d : Ptr} {I : Registry → Prop}

theorem bindList_rule (hwf : ∀ s, I s → s.WF)
    (hone : ∀ s c, I s → c ∈ s.components → c.bound = false → Selected s M c →
      I (bindOne env M d c s).2) :
    ∀ (cs : List LkpiComponent) (s : Registry), I s → matchFor s M = none →
      (∀ c ∈ cs, c ∈ s.components) → (cs.map LkpiComponent.addr).Nodup →
      I (bindList env M d cs s).2
  | [], _, hs, _, _, _ => hs
  | c :: cs, s, hs, hm, hmem, hnd => by
    obtain ⟨hc, hcs⟩ := List.forall_mem_cons.1 hmem
    rw [List.map_cons, List.nodup_cons] at hnd
    unfold bindList
    split
    · exact bindList_rule hwf hone cs s hs hm hcs hnd.2
    · next hb =>
      have hI := hone s c hs hc (by simpa using hb) (by simp [Selected, hm])
      have hM := bindOne_masters env M d c s
      have hne : ∀ c' ∈ cs, c'.addr ≠ c.addr := fun c' hc' h =>
        hnd.1 (h ▸ List.mem_map_of_mem hc')
      have hcs' : ∀ c' ∈ cs, c' ∈ (bindOne env M d c s).2.components :=
        fun c' hc' => mem_bindOne (hcs c' hc') (hne c' hc')
      generalize bindOne env M d c s = r at hI hM hcs'
      obtain ⟨error, s'⟩ := r
      split
      · next heq =>
        obtain ⟨-, rfl⟩ := Prod.mk.inj heq
        exact bindList_rule hwf hone cs _ hI (by rw [matchFor_congr hM, hm]) hcs' hnd.2
      · next heq =>
        obtain ⟨-, rfl⟩ := Prod.mk.inj heq
        exact hI

theorem bindEntries_rule {l : ComponentMatch}
    (hone : ∀ s c, I s → c ∈ s.components → c.bound = false → Selected s M c →
      I (bindOne env M d c s).2) :
    ∀ (es : List LkpiMatchEntry) (s : Registry), I s → matchFor s M = some l →
      (∀ e ∈ es, e ∈ l.entries) → I (bindEntries env M d es s).2
  | [], _, hs, _, _ => hs
  | e :: es, s, hs, hm, hes => by
    obtain ⟨he, hes⟩ := List.forall_mem_cons.1 hes
    unfold bindEntries
    split
    · exact bindEntries_rule hone es s hs hm hes
    · next c hc =>
      have hmem := List.mem_of_find?_eq_some hc
      have hp := List.find?_some hc
      simp only [Bool.and_eq_true, Bool.not_eq_true'] at hp
      have hI := hone s c hs hmem hp.1 fun l' hl' => ⟨e, by
        rw [hm] at hl'
        exact Option.some.inj hl' ▸ he, hp.2⟩
      have hM := bindOne_masters env M d c s
      generalize bindOne env M d c s = r at hI hM
      obtain ⟨error, s'⟩ := r
      split
      · next heq =>
        obtain ⟨-, rfl⟩ := Prod.mk.inj heq
        exact bindEntries_rule hone es _ hI (by rw [matchFor_congr hM, hm]) hes
      · next heq =>
        obtain ⟨-, rfl⟩ := Prod.mk.inj heq
        exact hI

/-- `component_bind_all` keeps what binding one unbound component of its walk keeps. -/
theorem componentBindAll_rule (hwf : ∀ s, I s → s.WF)
    (hone : ∀ s c, I s → c ∈ s.components → c.bound = false → Selected s M c →
      I (bindOne env M d c s).2) {s : Registry} (hs : I s) :
    I (componentBindAll env M d s).2 := by
  unfold componentBindAll
  split
  · next hm => exact bindList_rule hwf hone _ s hs hm (fun _ h => h) (hwf s hs).1
  · next l hm => exact bindEntries_rule hone _ s hs hm fun _ h => h

theorem unbindList_rule (hwf : ∀ s, I s → s.WF)
    (hone : ∀ s c, I s → c ∈ s.components → c.bound = true → Selected s M c →
      I (unbindOne env M d c s)) :
    ∀ (cs : List LkpiComponent) (s : Registry), I s → matchFor s M = none →
      (∀ c ∈ cs, c ∈ s.components) → (cs.map LkpiComponent.addr).Nodup →
      I (unbindList env M d cs s)
  | [], _, hs, _, _, _ => hs
  | c :: cs, s, hs, hm, hmem, hnd => by
    obtain ⟨hc, hcs⟩ := List.forall_mem_cons.1 hmem
    rw [List.map_cons, List.nodup_cons] at hnd
    unfold unbindList
    split
    · exact unbindList_rule hwf hone cs s hs hm hcs hnd.2
    · next hb =>
      have hI := hone s c hs hc (by simpa using hb) (by simp [Selected, hm])
      refine unbindList_rule hwf hone cs _ hI (by rw [matchFor_congr (unbindOne_masters ..), hm])
        (fun c' hc' => mem_unbindOne (hcs c' hc') fun h => ?_) hnd.2
      exact hnd.1 (h ▸ List.mem_map_of_mem hc')

theorem unbindEntries_rule {l : ComponentMatch}
    (hone : ∀ s c, I s → c ∈ s.components → c.bound = true → Selected s M c →
      I (unbindOne env M d c s)) :
    ∀ (es : List LkpiMatchEntry) (s : Registry), I s → matchFor s M = some l →
      (∀ e ∈ es, e ∈ l.entries) → I (unbindEntries env M d es s)
  | [], _, hs, _, _ => hs
  | e :: es, s, hs, hm, hes => by
    obtain ⟨he, hes⟩ := List.forall_mem_cons.1 hes
    unfold unbindEntries
    split
    · exact unbindEntries_rule hone es s hs hm hes
    · next c hc =>
      have hmem := List.mem_of_find?_eq_some hc
      have hp := List.find?_some hc
      simp only [Bool.and_eq_true] at hp
      have hI := hone s c hs hmem hp.1 fun l' hl' => ⟨e, by
        rw [hm] at hl'
        exact Option.some.inj hl' ▸ he, hp.2⟩
      exact unbindEntries_rule hone es _ hI (by rw [matchFor_congr (unbindOne_masters ..), hm]) hes

/-- `component_unbind_all` keeps what unbinding one bound component of its walk keeps. -/
theorem componentUnbindAll_rule (hwf : ∀ s, I s → s.WF)
    (hone : ∀ s c, I s → c ∈ s.components → c.bound = true → Selected s M c →
      I (unbindOne env M d c s)) {s : Registry} (hs : I s) :
    I (componentUnbindAll env M d s) := by
  unfold componentUnbindAll
  split
  · next l hm =>
    exact unbindEntries_rule hone _ s hs hm fun e he => List.mem_reverse.1 he
  · next hm =>
    refine unbindList_rule hwf hone _ s hs hm (fun c hc => List.mem_reverse.1 hc) ?_
    rw [List.map_reverse, List.nodup_reverse]
    exact (hwf s hs).1

/-- The walks, and so the callbacks of masters, leave the master list alone. -/
theorem componentBindAll_masters (env : Env) (M d : Ptr) {s : Registry} (hs : s.WF) :
    (componentBindAll env M d s).2.masters = s.masters :=
  (componentBindAll_rule (I := fun s' => s'.WF ∧ s'.masters = s.masters) (fun _ h => h.1)
    (fun _ c h _ _ _ => ⟨h.1.bindOne env M d c, (bindOne_masters env M d c _).trans h.2⟩)
    ⟨hs, rfl⟩).2

theorem componentBindAll_wf (env : Env) (M d : Ptr) {s : Registry} (hs : s.WF) :
    (componentBindAll env M d s).2.WF :=
  componentBindAll_rule (fun _ h => h) (fun _ c h _ _ _ => h.bindOne env M d c) hs

theorem componentUnbindAll_masters (env : Env) (M d : Ptr) {s : Registry} (hs : s.WF) :
    (componentUnbindAll env M d s).masters = s.masters :=
  (componentUnbindAll_rule (I := fun s' => s'.WF ∧ s'.masters = s.masters) (fun _ h => h.1)
    (fun _ c h _ _ _ => ⟨h.1.unbindOne M d c, h.2⟩) ⟨hs, rfl⟩).2

theorem componentUnbindAll_wf (env : Env) (M d : Ptr) {s : Registry} (hs : s.WF) :
    (componentUnbindAll env M d s).WF :=
  componentUnbindAll_rule (fun _ h => h) (fun _ c h _ _ _ => h.unbindOne M d c) hs

theorem Script.run_masters (env : Env) : ∀ (k : Script) {s : Registry}, s.WF →
    (k.run env s).2.masters = s.masters
  | .done _, _, _ => rfl
  | .bindAll _ _ k, _, hs =>
    (run_masters env (k _) (componentBindAll_wf env _ _ hs)).trans
      (componentBindAll_masters env _ _ hs)
  | .unbindAll _ _ k, _, hs =>
    (run_masters env k (componentUnbindAll_wf env _ _ hs)).trans
      (componentUnbindAll_masters env _ _ hs)

/-- An iteration of `lkpi_try_bind_masters` changes at most the flag of its own master. -/
theorem mem_lkpiTryBindMaster {s : Registry} (hs : s.WF) {m m' : LkpiMaster}
    (hm' : m' ∈ s.masters) (hne : m'.addr ≠ m.addr) :
    m' ∈ (lkpiTryBindMaster env s m).masters := by
  unfold lkpiTryBindMaster
  split
  · exact hm'
  · split
    · exact hm'
    · have hrun := Script.run_masters env
        ((env.masterOps m.ops).bind (s.log (.masterBind m.dev)).trace m.dev)
        (hs.log (.masterBind m.dev))
      dsimp only
      split
      · next heq =>
        rw [heq] at hrun
        exact TailQueue.mem_update_of_ne (hrun ▸ hm') hne
      · next heq =>
        rw [heq] at hrun
        exact hrun ▸ hm'

theorem foldl_lkpiTryBindMaster_rule (hwf : ∀ s, I s → s.WF)
    (hone : ∀ s m, I s → m ∈ s.masters → I (lkpiTryBindMaster env s m)) :
    ∀ (ms : List LkpiMaster) (s : Registry), I s → (∀ m ∈ ms, m ∈ s.masters) →
      (ms.map LkpiMaster.addr).Nodup → I (ms.foldl (lkpiTryBindMaster env) s)
  | [], _, hs, _, _ => hs
  | m :: ms, s, hs, hmem, hnd => by
    obtain ⟨hm, hms⟩ := List.forall_mem_cons.1 hmem
    rw [List.map_cons, List.nodup_cons] at hnd
    refine foldl_lkpiTryBindMaster_rule hwf hone ms _ (hone s m hs hm) (fun m' hm' => ?_) hnd.2
    exact mem_lkpiTryBindMaster (hwf s hs) (hms m' hm') fun h =>
      hnd.1 (h ▸ List.mem_map_of_mem hm')

/-- `lkpi_try_bind_masters` keeps what one iteration for a registered master keeps. -/
theorem lkpiTryBindMasters_rule (hwf : ∀ s, I s → s.WF)
    (hone : ∀ s m, I s → m ∈ s.masters → I (lkpiTryBindMaster env s m)) {s : Registry}
    (hs : I s) : I (lkpiTryBindMasters env s) :=
  foldl_lkpiTryBindMaster_rule hwf hone _ s hs (fun _ h => h) (hwf s hs).3

end Walks

/-! ## Registration -/

/-- The state in which `component_add` walks over the masters. -/
def Registry.addComponent (env : Env) (s : Registry) (dev ops : Ptr) : Registry :=
  (s.malloc env).2.pushComponent s.allocs dev ops

/-- The state in which `component_master_add_with_match` walks over the masters. -/
def Registry.addMaster (env : Env) (s : Registry) (M ops : Ptr) (l : Option ComponentMatch) :
    Registry :=
  ((s.warnEmpty M l).malloc env).2.pushMaster s.allocs M ops l

theorem componentAdd_cases (env : Env) (dev ops : Ptr) (s : Registry) :
    componentAdd env dev ops s = (-EINVAL, s) ∨
      componentAdd env dev ops s = (-ENOMEM, (s.malloc env).2) ∨
      (dev ≠ NULL ∧ ops ≠ NULL ∧ (env.componentOps ops).hasBind = true ∧
        env.mallocOk s.allocs = true ∧ componentAdd env dev ops s =
          (0, lkpiTryBindMasters env (s.addComponent env dev ops))) := by
  unfold componentAdd
  split
  · exact Or.inl rfl
  · next hok =>
    simp only [not_or, Bool.not_eq_false] at hok
    refine Or.inr ?_
    cases hm : env.mallocOk s.allocs with
    | false => exact Or.inl (by simp [Registry.malloc, hm])
    | true =>
      exact Or.inr ⟨hok.1, hok.2.1, hok.2.2, rfl, by
        simp [Registry.malloc, hm, Registry.addComponent]⟩

theorem warnEmpty_cases (s : Registry) (M : Ptr) (l : Option ComponentMatch) :
    s.warnEmpty M l = s ∨ s.warnEmpty M l = s.log (.emptyMatch M) := by
  unfold Registry.warnEmpty
  split
  · exact Or.inr rfl
  · exact Or.inl rfl

@[simp] theorem warnEmpty_allocs (s : Registry) (M : Ptr) (l : Option ComponentMatch) :
    (s.warnEmpty M l).allocs = s.allocs := by
  rcases warnEmpty_cases s M l with h | h <;> rw [h]
  rfl

/-- The warning about an empty list is all `addMaster` adds to the trace. -/
theorem addMaster_trace (env : Env) (s : Registry) (M ops : Ptr) (l : Option ComponentMatch) :
    ∃ evs, (s.addMaster env M ops l).trace = s.trace ++ evs ∧ ∀ e ∈ evs, e = .emptyMatch M := by
  unfold Registry.addMaster
  rcases warnEmpty_cases s M l with hw | hw <;> rw [hw]
  · exact ⟨[], by simp [Registry.pushMaster], by simp⟩
  · exact ⟨[.emptyMatch M], by simp [Registry.pushMaster], by simp⟩

@[simp] theorem addMaster_components (s : Registry) (M ops : Ptr) (l : Option ComponentMatch) :
    (s.addMaster env M ops l).components = s.components := by
  unfold Registry.addMaster
  rcases warnEmpty_cases s M l with hw | hw <;> rw [hw] <;> rfl

@[simp] theorem addMaster_masters (s : Registry) (M ops : Ptr) (l : Option ComponentMatch) :
    (s.addMaster env M ops l).masters = s.masters ++ [⟨s.allocs, M, ops, l, false⟩] := by
  unfold Registry.addMaster
  rcases warnEmpty_cases s M l with hw | hw <;> rw [hw] <;> rfl

/-- Allocations made elsewhere leave addresses distinct. -/
theorem Registry.WF.allocs {s : Registry} (h : s.WF) {n : ℕ} (hn : s.allocs ≤ n) :
    ({ s with allocs := n } : Registry).WF :=
  ⟨h.1, fun c hc => Nat.lt_of_lt_of_le (h.2 c hc) hn, h.3,
    fun m hm => Nat.lt_of_lt_of_le (h.4 m hm) hn⟩

theorem Registry.WF.malloc {s : Registry} (h : s.WF) (env : Env) : (s.malloc env).2.WF :=
  h.allocs (Nat.le_succ _)

/-- The address handed out last is new. -/
theorem Registry.WF.addComponent {s : Registry} (h : s.WF) (dev ops : Ptr) :
    (s.addComponent env dev ops).WF := by
  have hs := h.malloc env
  refine ⟨?_, fun c hc => ?_, hs.masters_nodup, hs.masters_lt⟩
  · simp only [Registry.addComponent, Registry.pushComponent_components, List.map_append,
      List.map_cons, List.map_nil]
    refine List.nodup_append'.2 ⟨hs.components_nodup, by simp, ?_⟩
    simp only [List.disjoint_singleton, List.mem_map, not_exists, not_and]
    exact fun c hc => Nat.ne_of_lt (h.components_lt c hc)
  · rcases List.mem_append.1 hc with hc | hc
    · exact hs.components_lt c hc
    · rw [List.mem_singleton.1 hc]
      exact Nat.lt_succ_self _

theorem Registry.WF.addMaster {s : Registry} (h : s.WF) (M ops : Ptr) (l : Option ComponentMatch) :
    (s.addMaster env M ops l).WF := by
  have hw : (s.warnEmpty M l).WF := by
    rcases warnEmpty_cases s M l with hw | hw <;> rw [hw]
    · exact h
    · exact h.log _
  have hs := hw.malloc env
  refine ⟨hs.components_nodup, hs.components_lt, ?_, fun m hm => ?_⟩
  · simp only [Registry.addMaster, Registry.pushMaster, List.map_append, List.map_cons,
      List.map_nil]
    refine List.nodup_append'.2 ⟨hs.masters_nodup, by simp, ?_⟩
    simp only [List.disjoint_singleton, List.mem_map, not_exists, not_and]
    exact fun m hm => Nat.ne_of_lt (warnEmpty_allocs s M l ▸ hw.masters_lt m hm)
  · rcases List.mem_append.1 hm with hm | hm
    · exact hs.masters_lt m hm
    · rw [List.mem_singleton.1 hm]
      exact Nat.lt_succ_of_le (Nat.le_of_eq (warnEmpty_allocs s M l).symm)

/-- With its only registration unlinked, a device has no match list. -/
theorem matchFor_unlinkMaster {s : Registry} {M ops : Ptr} {m : LkpiMaster} (hs : s.WF)
    (hm : s.masters.find? (fun m => m.dev == M && m.ops == ops) = some m)
    (hone : ∀ x ∈ s.masters, x.dev = M → x = m) : matchFor (s.unlinkMaster M ops) M = none := by
  have hnone : (s.unlinkMaster M ops).masters.find? (·.dev == M) = none := by
    simp only [List.find?_eq_none, beq_iff_eq]
    intro x hx hd
    obtain ⟨hx, hne⟩ := (TailQueue.mem_eraseP_iff hs.masters_nodup hm).1 hx
    exact hne (congrArg _ (hone x hx hd))
  simp [matchFor, lkpiMasterFor, hnone]

theorem componentMasterAddWithMatch_cases (env : Env) (M ops : Ptr)
    (l : Option ComponentMatch) (s : Registry) :
    componentMasterAddWithMatch env M ops l s = (-EINVAL, s) ∨
      componentMasterAddWithMatch env M ops l s =
        (-ENOMEM, ((s.warnEmpty M l).malloc env).2) ∨
      (M ≠ NULL ∧ ops ≠ NULL ∧ env.mallocOk s.allocs = true ∧
        componentMasterAddWithMatch env M ops l s =
          (0, lkpiTryBindMasters env (s.addMaster env M ops l))) := by
  unfold componentMasterAddWithMatch
  split
  · exact Or.inl rfl
  · next hok =>
    simp only [not_or] at hok
    refine Or.inr ?_
    cases hm : env.mallocOk s.allocs with
    | false => exact Or.inl (by simp [Registry.malloc, hm])
    | true =>
      exact Or.inr ⟨hok.1, hok.2, rfl, by simp [Registry.malloc, hm, Registry.addMaster]⟩

@[simp] theorem componentDel_masters (env : Env) (dev ops : Ptr) (s : Registry) :
    (componentDel env dev ops s).masters = s.masters := by
  unfold componentDel
  split
  · rfl
  · dsimp only
    split <;> rfl

@[simp] theorem componentDel_components (env : Env) (dev ops : Ptr) (s : Registry) :
    (componentDel env dev ops s).components =
      s.components.eraseP fun c => c.dev == dev && c.ops == ops := by
  unfold componentDel
  split
  · next h =>
    exact (List.eraseP_of_forall_not fun c hc => List.find?_eq_none.1 h c hc).symm
  · dsimp only
    split <;> rfl

theorem Registry.WF.unlinkComponent {s : Registry} (h : s.WF) (dev ops : Ptr) :
    (s.unlinkComponent dev ops).WF :=
  ⟨h.components_nodup.sublist (List.eraseP_sublist.map _),
    fun c hc => h.components_lt c (List.mem_of_mem_eraseP hc), h.masters_nodup, h.masters_lt⟩

theorem Registry.WF.componentDel {s : Registry} (h : s.WF) (env : Env) (dev ops : Ptr) :
    (componentDel env dev ops s).WF := by
  unfold KernelModules.componentDel
  split
  · exact h
  · dsimp only
    split
    · exact ((h.unlinkComponent dev ops).log _).log _
    · exact (h.unlinkComponent dev ops).log _

theorem Registry.WF.unlinkMaster {s : Registry} (h : s.WF) (M ops : Ptr) :
    (s.unlinkMaster M ops).WF :=
  ⟨h.components_nodup, h.components_lt, h.masters_nodup.sublist (List.eraseP_sublist.map _),
    fun m hm => h.masters_lt m (List.mem_of_mem_eraseP hm)⟩

/-! ## Runs -/

section Meets

variable (env) (C : Op → Registry → Prop)

/-- `C` holds at every call a callback makes. -/
def Script.Meets : Script → Registry → Prop
  | .done _, _ => True
  | .bindAll M d k, s => C (.bindAll M d) s ∧
      (k (componentBindAll env M d s).1).Meets (componentBindAll env M d s).2
  | .unbindAll M d k, s => C (.unbindAll M d) s ∧ k.Meets (componentUnbindAll env M d s)

/-- `C` holds at every call the bind callback of `m` makes, if it runs. -/
def MasterMeets (m : LkpiMaster) (s : Registry) : Prop :=
  m.bound = false → (env.masterOps m.ops).hasBind = true →
    lkpiMatchComplete m.matchList s.components = true →
    ((env.masterOps m.ops).bind (s.log (.masterBind m.dev)).trace m.dev).Meets env C
      (s.log (.masterBind m.dev))

/-- `C` holds at every call made from a walk over the masters. -/
def TryMeets : List LkpiMaster → Registry → Prop
  | [], _ => True
  | m :: ms, s => MasterMeets env C m s ∧ TryMeets ms (lkpiTryBindMaster env s m)

/-- `C` holds at the call `op` and at every call callbacks make from it. -/
def Op.Meets (op : Op) (s : Registry) : Prop :=
  C op s ∧ match op with
  | .add dev ops => (componentAdd env dev ops s).1 = 0 →
      TryMeets env C s.masters (s.addComponent env dev ops)
  | .masterAdd M ops l => (componentMasterAddWithMatch env M ops l s).1 = 0 →
      TryMeets env C (s.addMaster env M ops l).masters (s.addMaster env M ops l)
  | .masterDel M ops => ∀ m, s.masters.find? (fun m => m.dev == M && m.ops == ops) = some m →
      m.bound = true → (env.masterOps m.ops).hasUnbind = true →
      ((env.masterOps m.ops).unbind ((s.unlinkMaster M ops).log (.masterUnbind m.dev)).trace
        m.dev).Meets env C ((s.unlinkMaster M ops).log (.masterUnbind m.dev))
  | _ => True

/-- `C` holds at every call of a run from `s`. -/
def RunMeets : List Op → Registry → Prop
  | [], _ => True
  | op :: calls, s => op.Meets env C s ∧ RunMeets calls (op.step env s)

variable [∀ op s, Decidable (C op s)]

instance Script.decidableMeets : ∀ (k : Script) (s : Registry), Decidable (k.Meets env C s)
  | .done _, _ => isTrue trivial
  | .bindAll _ _ k, _ => @instDecidableAnd _ _ _ (decidableMeets (k _) _)
  | .unbindAll _ _ k, _ => @instDecidableAnd _ _ _ (decidableMeets k _)

instance (m : LkpiMaster) (s : Registry) : Decidable (MasterMeets env C m s) :=
  inferInstanceAs (Decidable (_ → _ → _ → _))

instance decidableTryMeets : ∀ (ms : List LkpiMaster) (s : Registry),
    Decidable (TryMeets env C ms s)
  | [], _ => isTrue trivial
  | _ :: ms, _ => @instDecidableAnd _ _ _ (decidableTryMeets ms _)

instance (op : Op) (s : Registry) : Decidable (op.Meets env C s) :=
  @instDecidableAnd _ _ _ <| match op with
  | .add _ _ => inferInstanceAs (Decidable (_ → _))
  | .masterAdd _ _ _ => inferInstanceAs (Decidable (_ → _))
  | .masterDel M ops =>
    match h : s.masters.find? (fun m => m.dev == M && m.ops == ops) with
    | none => isTrue fun m hm => by simp [h] at hm
    | some m => decidable_of_iff (m.bound = true → (env.masterOps m.ops).hasUnbind = true → _)
        ⟨fun hk m' hm' => by
          obtain rfl := Option.some.inj (h.symm.trans hm')
          exact hk, fun hk => hk m h⟩
  | .del _ _ => isTrue trivial
  | .bindAll _ _ => isTrue trivial
  | .unbindAll _ _ => isTrue trivial

instance decidableRunMeets : ∀ (calls : List Op) (s : Registry),
    Decidable (RunMeets env C calls s)
  | [], _ => isTrue trivial
  | _ :: calls, _ => @instDecidableAnd _ _ _ (decidableRunMeets calls _)

end Meets

theorem Script.meets_true : ∀ (k : Script) (s : Registry), k.Meets env (fun _ _ => True) s
  | .done _, _ => trivial
  | .bindAll _ _ k, _ => ⟨trivial, meets_true (k _) _⟩
  | .unbindAll _ _ k, _ => ⟨trivial, meets_true k _⟩

theorem tryMeets_true : ∀ (ms : List LkpiMaster) (s : Registry),
    TryMeets env (fun _ _ => True) ms s
  | [], _ => trivial
  | _ :: ms, _ => ⟨fun _ _ _ => Script.meets_true _ _, tryMeets_true ms _⟩

theorem Op.meets_true (op : Op) (s : Registry) : op.Meets env (fun _ _ => True) s := by
  refine ⟨trivial, ?_⟩
  cases op with
  | add dev ops => exact fun _ => tryMeets_true _ _
  | masterAdd M ops l => exact fun _ => tryMeets_true _ _
  | masterDel M ops => exact fun m _ _ _ => Script.meets_true _ _
  | del dev ops => trivial
  | bindAll M d => trivial
  | unbindAll M d => trivial

theorem runMeets_true : ∀ (calls : List Op) (s : Registry),
    RunMeets env (fun _ _ => True) calls s
  | [], _ => trivial
  | op :: calls, _ => ⟨op.meets_true _, runMeets_true calls _⟩

section Imp

variable {C C' : Op → Registry → Prop}
  (hbind : ∀ M d s, C (.bindAll M d) s → C' (.bindAll M d) s)
  (hunbind : ∀ M d s, C (.unbindAll M d) s → C' (.unbindAll M d) s)

include hbind hunbind

/-- Callbacks call no more than the two walks, so it is enough that `C` implies `C'` there. -/
theorem Script.Meets.imp : ∀ {k : Script} {s : Registry}, k.Meets env C s → k.Meets env C' s
  | .done _, _, _ => trivial
  | .bindAll M d _, s, h => ⟨hbind M d s h.1, imp h.2⟩
  | .unbindAll M d _, s, h => ⟨hunbind M d s h.1, imp h.2⟩

theorem TryMeets.imp : ∀ {ms : List LkpiMaster} {s : Registry}, TryMeets env C ms s →
    TryMeets env C' ms s
  | [], _, _ => trivial
  | _ :: _, _, h => ⟨fun hb hbind' hc => (h.1 hb hbind' hc).imp hbind hunbind, imp h.2⟩

theorem Op.Meets.imp {op : Op} {s : Registry} (h : op.Meets env C s) (hop : C op s → C' op s) :
    op.Meets env C' s := by
  refine ⟨hop h.1, ?_⟩
  cases op with
  | add dev ops => exact fun h0 => (h.2 h0).imp hbind hunbind
  | masterAdd M ops l => exact fun h0 => (h.2 h0).imp hbind hunbind
  | masterDel M ops => exact fun m hm hb hu => (h.2 m hm hb hu).imp hbind hunbind
  | del dev ops => trivial
  | bindAll M d => trivial
  | unbindAll M d => trivial

end Imp

/-- Entries of the trace that bind and unbind nothing and add or free no component. -/
def Event.Quiet : Event → Prop
  | .masterBind _ | .masterBindFailed _ | .masterUnbind _ | .emptyMatch _ => True
  | _ => False

/-- What an invariant has to keep, where the condition `C` holds at every call. -/
structure Preserves (env : Env) (C : Op → Registry → Prop) (I : Registry → Prop) : Prop where
  bindAll : ∀ {s} M d, I s → C (.bindAll M d) s → I (componentBindAll env M d s).2
  unbindAll : ∀ {s} M d, I s → C (.unbindAll M d) s → I (componentUnbindAll env M d s)
  log : ∀ {s e}, I s → e.Quiet → I (s.log e)
  mark : ∀ {s} a, I s → I (s.markBound a)
  malloc : ∀ {s}, I s → I (s.malloc env).2
  add : ∀ {s} dev ops, I s → dev ≠ NULL → C (.add dev ops) s → I (s.addComponent env dev ops)
  addMaster : ∀ {s} M ops l, I s → M ≠ NULL → C (.masterAdd M ops l) s →
    I (s.addMaster env M ops l)
  del : ∀ {s} dev ops, I s → C (.del dev ops) s → I (componentDel env dev ops s)
  unlink : ∀ {s} M ops, I s → C (.masterDel M ops) s → I (s.unlinkMaster M ops)

namespace Preserves

variable {C : Op → Registry → Prop} {I : Registry → Prop} (P : Preserves env C I)

include P

theorem script : ∀ (k : Script) {s : Registry}, I s → k.Meets env C s → I (k.run env s).2
  | .done _, _, hs, _ => hs
  | .bindAll M d k, _, hs, hk => script (k _) (P.bindAll M d hs hk.1) hk.2
  | .unbindAll M d k, _, hs, hk => script k (P.unbindAll M d hs hk.1) hk.2

theorem tryBindMaster {s : Registry} {m : LkpiMaster} (hs : I s) (hm : MasterMeets env C m s) :
    I (lkpiTryBindMaster env s m) := by
  unfold lkpiTryBindMaster
  split
  · exact hs
  · next hb =>
    simp only [Bool.or_eq_true, Bool.not_eq_true', not_or, Bool.not_eq_true,
      Bool.not_eq_false] at hb
    split
    · exact hs
    · next hc =>
      have hr := P.script _ (P.log hs (e := .masterBind m.dev) trivial)
        (hm hb.1 hb.2 (by simpa using hc))
      dsimp only
      split
      · next heq => exact P.mark _ (by rw [heq] at hr; exact hr)
      · next heq => exact P.log (by rw [heq] at hr; exact hr) trivial

theorem tryBindMasters : ∀ (ms : List LkpiMaster) {s : Registry}, I s → TryMeets env C ms s →
    I (ms.foldl (lkpiTryBindMaster env) s)
  | [], _, hs, _ => hs
  | _ :: ms, _, hs, hm => tryBindMasters ms (P.tryBindMaster hs hm.1) hm.2

theorem step {op : Op} {s : Registry} (hs : I s) (h : op.Meets env C s) : I (op.step env s) := by
  cases op with
  | add dev ops =>
    simp only [Op.step]
    rcases componentAdd_cases env dev ops s with he | he | ⟨hd, -, -, -, he⟩
    · rw [he]
      exact hs
    · rw [he]
      exact P.malloc hs
    · have hT := h.2 (by rw [he])
      rw [he]
      exact P.tryBindMasters _ (P.add dev ops hs hd h.1) hT
  | masterAdd M ops l =>
    simp only [Op.step]
    rcases componentMasterAddWithMatch_cases env M ops l s with he | he | ⟨hd, -, -, he⟩
    · rw [he]
      exact hs
    · rw [he]
      rcases warnEmpty_cases s M l with hw | hw <;> rw [hw]
      · exact P.malloc hs
      · exact P.malloc (P.log hs trivial)
    · have hT := h.2 (by rw [he])
      rw [he]
      exact P.tryBindMasters _ (P.addMaster M ops l hs hd h.1) hT
  | del dev ops => exact P.del dev ops hs h.1
  | bindAll M d => exact P.bindAll M d hs h.1
  | unbindAll M d => exact P.unbindAll M d hs h.1
  | masterDel M ops =>
    simp only [Op.step]
    unfold componentMasterDel
    split
    · exact hs
    · next m hm =>
      have hu := P.unlink M ops hs h.1
      dsimp only
      split
      · next hb =>
        rw [Bool.and_eq_true] at hb
        exact P.script _ (P.log hu trivial) (h.2 m hm hb.1 hb.2)
      · exact hu

/-- An invariant that holds at the start of a run holds at its end. -/
theorem foldl : ∀ (calls : List Op) {s : Registry}, I s → RunMeets env C calls s →
    I (calls.foldl (fun s op => op.step env s) s)
  | [], _, hs, _ => hs
  | _ :: calls, _, hs, h => foldl calls (P.step hs h.1) h.2

end Preserves

end KernelModules
