import KernelModules.Cooperative

/-!
# Requests that find no memory

A driver builds the match list of its master with `component_match_add`, one request for each
component it wants to wait for. The function returns nothing. A request whose allocation fails is
dropped, and `component_master_add_with_match` sees a list that is shorter, or none at all, and
takes it for the whole one.

The master is still never bound too early exactly if every dropped request is implied by one that
was kept (`neverBoundEarly_iff`), for instance by another request for the same device. Else there
is a run in which it is bound without a component for the dropped request.
-/

namespace KernelModules

/-! ## Requests -/

/-- Requests on a match pointer that is null at first. -/
def matchRequests (env : Env) (reqs : List LkpiMatchEntry) (s : Registry) :
    Option ComponentMatch × Registry :=
  reqs.foldl (fun r e => componentMatchAdd env r.1 e.compare e.data r.2) (none, s)

theorem matchRequests_concat (env : Env) (reqs : List LkpiMatchEntry) (e : LkpiMatchEntry)
    (s : Registry) : matchRequests env (reqs ++ [e]) s =
      componentMatchAdd env (matchRequests env reqs s).1 e.compare e.data
        (matchRequests env reqs s).2 := by
  simp [matchRequests]

/-- One of the first `n` requests found memory for the list, where the first allocation is number
`a`, and allocation `k` succeeds if `ok k`. -/
def Started (ok : ℕ → Bool) (a n : ℕ) : Prop :=
  ∃ j < n, ok (a + j) = true

/-- Request `i` found memory for its entry. -/
def Kept (ok : ℕ → Bool) (a i : ℕ) : Prop :=
  ok (a + i + 1) = true ∧ Started ok a (i + 1)

instance (ok : ℕ → Bool) (a n : ℕ) : Decidable (Started ok a n) :=
  inferInstanceAs (Decidable (∃ j < n, ok (a + j) = true))

theorem started_succ {ok : ℕ → Bool} {a n : ℕ} :
    Started ok a (n + 1) ↔ Started ok a n ∨ ok (a + n) = true := by
  simp only [Started, Nat.lt_succ_iff_lt_or_eq, or_and_right, exists_or, exists_eq_left]

/-- The entries of a match list; none for a null one. -/
def listEntries (l : Option ComponentMatch) : List LkpiMatchEntry :=
  (l.map ComponentMatch.entries).getD []

/-- What a sequence of requests leaves. -/
structure Requested (env : Env) (reqs : List LkpiMatchEntry) (s : Registry)
    (r : Option ComponentMatch × Registry) : Prop where
  list : r.1.isSome = true ↔ Started env.mallocOk s.allocs reqs.length
  registry : r.2 = { s with
    allocs := s.allocs + reqs.length + if r.1.isSome then 1 else 0 }
  mem : ∀ e, e ∈ listEntries r.1 ↔ ∃ i, reqs[i]? = some e ∧ Kept env.mallocOk s.allocs i

theorem exists_getElem?_concat {l : List LkpiMatchEntry} {x y : LkpiMatchEntry} {p : ℕ → Prop} :
    (∃ i, (l ++ [x])[i]? = some y ∧ p i) ↔ (∃ i, l[i]? = some y ∧ p i) ∨ (y = x ∧ p l.length) := by
  constructor
  · rintro ⟨i, hi, hp⟩
    by_cases hlt : i < l.length
    · rw [List.getElem?_append_left hlt] at hi
      exact Or.inl ⟨i, hi, hp⟩
    · obtain ⟨hle, rfl⟩ := List.getElem?_eq_some_iff.1 hi
      rw [List.length_append, List.length_singleton] at hle
      obtain rfl : i = l.length := by omega
      exact Or.inr ⟨by simp, hp⟩
  · rintro (⟨i, hi, hp⟩ | ⟨rfl, hp⟩)
    · exact ⟨i, by rw [List.getElem?_append_left (List.getElem?_eq_some_iff.1 hi).1, hi], hp⟩
    · exact ⟨l.length, by simp, hp⟩

/-- A request that has no list and gets no memory for one. -/
theorem componentMatchAdd_of_none {env : Env} {s : Registry}
    (hmalloc : env.mallocOk s.allocs = false) (e : LkpiMatchEntry) :
    componentMatchAdd env none e.compare e.data s = (none, { s with allocs := s.allocs + 1 }) := by
  simp [componentMatchAdd, Registry.malloc, hmalloc]

/-- With the list there, or made by the request, allocation `k` is the one for the entry. -/
theorem componentMatchAdd_of_list {env : Env} {l : Option ComponentMatch} {s : Registry} {k : ℕ}
    (hl : l.isSome = true ∧ k = s.allocs ∨
      l = none ∧ env.mallocOk s.allocs = true ∧ k = s.allocs + 1) (e : LkpiMatchEntry) :
    ∃ l', componentMatchAdd env l e.compare e.data s = (some l', { s with allocs := k + 1 }) ∧
      l'.entries = listEntries l ++ if env.mallocOk k then [e] else [] := by
  rcases hl with ⟨hl, rfl⟩ | ⟨rfl, hmalloc, rfl⟩
  · obtain ⟨l, rfl⟩ := Option.isSome_iff_exists.1 hl
    cases hk : env.mallocOk s.allocs with
    | false => exact ⟨l, by simp [componentMatchAdd, Registry.malloc, hk], by simp [listEntries]⟩
    | true =>
      exact ⟨l.add e, by simp [componentMatchAdd, Registry.malloc, hk],
        by simp [listEntries, ComponentMatch.add]⟩
  · cases hk : env.mallocOk (s.allocs + 1) with
    | false =>
      exact ⟨⟨[], 0, rfl⟩, by simp [componentMatchAdd, Registry.malloc, hmalloc, hk],
        by simp [listEntries]⟩
    | true =>
      exact ⟨⟨[e], 1, rfl⟩, by simp [componentMatchAdd, Registry.malloc, hmalloc, hk],
        by simp [listEntries]⟩

/-- One request more. -/
theorem Requested.concat {env : Env} {reqs : List LkpiMatchEntry} {s : Registry}
    {r : Option ComponentMatch × Registry} (h : Requested env reqs s r) (e : LkpiMatchEntry) :
    Requested env (reqs ++ [e]) s (componentMatchAdd env r.1 e.compare e.data r.2) := by
  obtain ⟨l, s'⟩ := r
  obtain ⟨hlist, hreg, hmem⟩ := h
  dsimp only at hlist hreg hmem
  have hlast : Kept env.mallocOk s.allocs reqs.length ↔
      env.mallocOk (s.allocs + reqs.length + 1) = true ∧
        (l.isSome = true ∨ env.mallocOk (s.allocs + reqs.length) = true) := by
    rw [Kept, started_succ, ← hlist]
  by_cases hstart : l = none ∧ env.mallocOk (s.allocs + reqs.length) = false
  · obtain ⟨rfl, hmalloc⟩ := hstart
    rw [componentMatchAdd_of_none (by simpa [hreg] using hmalloc)]
    refine ⟨?_, by simp [hreg, Nat.add_assoc], fun e' => ?_⟩
    · simp [started_succ, ← hlist, hmalloc]
    · rw [exists_getElem?_concat, ← hmem e', hlast]
      simp [hmalloc]
  · -- whether the list was there or not, the entry's allocation has the same number
    have hl : l.isSome = true ∧ s.allocs + reqs.length + 1 = s'.allocs ∨
        l = none ∧ env.mallocOk s'.allocs = true ∧ s.allocs + reqs.length + 1 = s'.allocs + 1 := by
      cases l with
      | none => exact Or.inr ⟨rfl, by simpa [hreg] using hstart, by simp [hreg]⟩
      | some l => exact Or.inl ⟨rfl, by simp [hreg]⟩
    obtain ⟨l', hadd, hentries⟩ := componentMatchAdd_of_list hl e
    have hsome : l.isSome = true ∨ env.mallocOk (s.allocs + reqs.length) = true := by
      cases l with
      | none => exact Or.inr (by simpa using hstart)
      | some l => exact Or.inl rfl
    rw [hadd]
    refine ⟨?_, by simp [hreg, Nat.add_assoc], fun e' => ?_⟩
    · rw [List.length_append, List.length_singleton, started_succ, ← hlist]
      exact iff_of_true rfl hsome
    · rw [exists_getElem?_concat, ← hmem e', hlast, and_iff_left hsome]
      simp only [listEntries, Option.map_some, Option.getD_some] at hentries ⊢
      rw [hentries, List.mem_append]
      cases env.mallocOk (s.allocs + reqs.length + 1) with
      | false => simp
      | true => simp

theorem requested_matchRequests (env : Env) (reqs : List LkpiMatchEntry) (s : Registry) :
    Requested env reqs s (matchRequests env reqs s) := by
  induction reqs using List.reverseRecOn with
  | nil => exact ⟨by simp [matchRequests, Started], by simp [matchRequests],
      by simp [matchRequests, listEntries]⟩
  | append_singleton reqs e ih =>
    rw [matchRequests_concat]
    exact ih.concat e

/-! ## Waiting for the list -/

section Devices

variable {env : Env}

/-- A write to a component that keeps its device. -/
theorem map_dev_updateComponent (s : Registry) (a : Ptr) {f : LkpiComponent → LkpiComponent}
    (hf : ∀ c, (f c).dev = c.dev) : (s.updateComponent a f).components.map LkpiComponent.dev =
      s.components.map LkpiComponent.dev := by
  rw [Registry.updateComponent_components, TailQueue.map_update _ hf]

theorem componentBindAll_map_dev (M d : Ptr) {s : Registry} (hs : s.WF) :
    (componentBindAll env M d s).2.components.map LkpiComponent.dev =
      s.components.map LkpiComponent.dev := by
  refine (componentBindAll_rule (I := fun s' => s'.WF ∧
    s'.components.map LkpiComponent.dev = s.components.map LkpiComponent.dev) (fun _ h => h.1)
    (fun s' c h _ _ _ => ⟨h.1.bindOne env M d c, ?_⟩) ⟨hs, rfl⟩).2
  rw [← h.2]
  rcases bindOne_cases env M d c s' with ⟨r, -, he⟩ | he <;> rw [he]
  · rfl
  · exact map_dev_updateComponent _ _ fun _ => rfl

theorem componentUnbindAll_map_dev (M d : Ptr) {s : Registry} (hs : s.WF) :
    (componentUnbindAll env M d s).components.map LkpiComponent.dev =
      s.components.map LkpiComponent.dev := by
  refine (componentUnbindAll_rule (I := fun s' => s'.WF ∧
    s'.components.map LkpiComponent.dev = s.components.map LkpiComponent.dev) (fun _ h => h.1)
    (fun s' c h _ _ _ => ⟨h.1.unbindOne M d c, ?_⟩) ⟨hs, rfl⟩).2
  rw [← h.2]
  exact map_dev_updateComponent _ _ fun _ => rfl

/-- The callbacks of masters neither add components nor take them away. -/
theorem Script.run_map_dev (env : Env) : ∀ (k : Script) {s : Registry}, s.WF → (k.run env s).2.WF ∧
    (k.run env s).2.components.map LkpiComponent.dev = s.components.map LkpiComponent.dev
  | .done _, _, hs => ⟨hs, rfl⟩
  | .bindAll _ _ k, _, hs => by
    obtain ⟨hwf, hdev⟩ := run_map_dev env (k _) (componentBindAll_wf env _ _ hs)
    exact ⟨hwf, hdev.trans (componentBindAll_map_dev _ _ hs)⟩
  | .unbindAll _ _ k, _, hs => by
    obtain ⟨hwf, hdev⟩ := run_map_dev env k (componentUnbindAll_wf env _ _ hs)
    exact ⟨hwf, hdev.trans (componentUnbindAll_map_dev _ _ hs)⟩

end Devices

/-- A list is complete if each of its entries selects the device of a component. -/
theorem lkpiMatchComplete_iff (l : Option ComponentMatch) (cs : List LkpiComponent) :
    lkpiMatchComplete l cs = true ↔
      ∀ e ∈ listEntries l, ∃ d ∈ cs.map LkpiComponent.dev, e.selects d = true := by
  cases l with
  | none => simp [lkpiMatchComplete, listEntries]
  | some l => simp [lkpiMatchComplete, listEntries]

/-- The master at the address `p` has the match list `l`, and is bound only if that is
complete. -/
structure WaitsFor (p : Ptr) (l : Option ComponentMatch) (s : Registry) : Prop extends s.WF where
  matchList : ∀ m ∈ s.masters, m.addr = p → m.matchList = l
  complete : ∀ m ∈ s.masters, m.addr = p → m.bound = true → lkpiMatchComplete l s.components = true
  dev_ne : ∀ d ∈ s.components.map LkpiComponent.dev, d ≠ NULL

namespace WaitsFor

variable {env : Env} {p : Ptr} {l : Option ComponentMatch} {s : Registry}

/-- A state with the same masters and devices waits for the same list. -/
theorem congr (h : WaitsFor p l s) {s' : Registry} (hwf : s'.WF) (hmasters : s'.masters = s.masters)
    (hdevs : s'.components.map LkpiComponent.dev = s.components.map LkpiComponent.dev) :
    WaitsFor p l s' where
  toWF := hwf
  matchList := by
    rw [hmasters]
    exact h.matchList
  complete := by
    rw [hmasters]
    intro m hm hp hb
    rw [lkpiMatchComplete_iff, hdevs]
    exact (lkpiMatchComplete_iff l _).1 (h.complete m hm hp hb)
  dev_ne := by
    rw [hdevs]
    exact h.dev_ne

theorem markBound (h : WaitsFor p l s) {m : LkpiMaster} (hm : m ∈ s.masters)
    (hcomplete : lkpiMatchComplete m.matchList s.components = true) :
    WaitsFor p l (s.markBound m.addr) where
  toWF := h.toWF.markBound _
  matchList := by
    intro m' hm' hp
    rcases TailQueue.mem_update.1 hm' with ⟨hm', -⟩ | ⟨m₀, hm₀, -, rfl⟩
    · exact h.matchList m' hm' hp
    · exact h.matchList m₀ hm₀ hp
  complete := by
    intro m' hm' hp hb
    rcases (TailQueue.mem_update_iff h.masters_nodup hm _).1 hm' with ⟨hm', -⟩ | rfl
    · exact h.complete m' hm' hp hb
    · rwa [← h.matchList m hm hp]
  dev_ne := h.dev_ne

theorem tryBindMaster (h : WaitsFor p l s) {m : LkpiMaster} (hm : m ∈ s.masters) :
    WaitsFor p l (lkpiTryBindMaster env s m) := by
  unfold lkpiTryBindMaster
  split
  · exact h
  split
  · exact h
  next hcomplete =>
  have hlog := h.toWF.log (.masterBind m.dev)
  have hmasters := Script.run_masters env
    ((env.masterOps m.ops).bind (s.log (.masterBind m.dev)).trace m.dev) hlog
  obtain ⟨hwf, hdevs⟩ := Script.run_map_dev env
    ((env.masterOps m.ops).bind (s.log (.masterBind m.dev)).trace m.dev) hlog
  have hrun := h.congr hwf hmasters hdevs
  dsimp only
  split
  · next s' heq =>
    rw [heq] at hrun hmasters hdevs
    refine hrun.markBound (hmasters ▸ hm) ?_
    rw [lkpiMatchComplete_iff, hdevs]
    exact (lkpiMatchComplete_iff _ _).1 (by simpa using hcomplete)
  · next s' _ heq =>
    rw [heq] at hrun
    exact hrun.congr (hrun.toWF.log _) rfl rfl

theorem tryBindMasters (h : WaitsFor p l s) : WaitsFor p l (lkpiTryBindMasters env s) :=
  lkpiTryBindMasters_rule (fun _ h => h.toWF) (fun _ _ h hm => h.tryBindMaster hm) h

theorem componentAdd (h : WaitsFor p l s) (dev ops : Ptr) :
    WaitsFor p l (componentAdd env dev ops s).2 := by
  rcases componentAdd_cases env dev ops s with he | he | ⟨hdev, -, -, -, he⟩ <;> rw [he]
  · exact h
  · exact h.congr (h.toWF.malloc env) rfl rfl
  · refine tryBindMasters ⟨h.toWF.addComponent dev ops, h.matchList, fun m hm hp hb => ?_, ?_⟩
    · rw [lkpiMatchComplete_iff]
      intro e he
      obtain ⟨d, hd, hsel⟩ := (lkpiMatchComplete_iff l _).1 (h.complete m hm hp hb) e he
      refine ⟨d, ?_, hsel⟩
      rw [Registry.addComponent, Registry.pushComponent_components, List.map_append]
      exact List.mem_append_left _ hd
    · intro d hd
      rw [Registry.addComponent, Registry.pushComponent_components, List.map_append] at hd
      rcases List.mem_append.1 hd with hd | hd
      · exact h.dev_ne d hd
      · rw [List.mem_singleton.1 hd]
        exact hdev

end WaitsFor

/-- A run of `component_add` calls, with the device and the operations of each. -/
def addComponents (env : Env) (adds : List (Ptr × Ptr)) (s : Registry) : Registry :=
  adds.foldl (fun s d => (componentAdd env d.1 d.2 s).2) s

theorem WaitsFor.addComponents {env : Env} {p : Ptr} {l : Option ComponentMatch} :
    ∀ (adds : List (Ptr × Ptr)) {s : Registry}, WaitsFor p l s →
      WaitsFor p l (addComponents env adds s)
  | [], _, h => h
  | d :: adds, _, h => WaitsFor.addComponents adds (h.componentAdd d.1 d.2)

theorem waitsFor_addMaster {env : Env} {s : Registry} (hs : s.WF)
    (hdev : ∀ c ∈ s.components, c.dev ≠ NULL) (M ops : Ptr) (l : Option ComponentMatch) :
    WaitsFor s.allocs l (s.addMaster env M ops l) := by
  -- the address of the new master is not that of an older one
  have hnew : ∀ m ∈ (s.addMaster env M ops l).masters, m.addr = s.allocs →
      m = ⟨s.allocs, M, ops, l, false⟩ := by
    intro m hm hp
    rw [addMaster_masters] at hm
    rcases List.mem_append.1 hm with hm | hm
    · exact absurd hp (Nat.ne_of_lt (hs.masters_lt m hm))
    · exact List.mem_singleton.1 hm
  refine ⟨hs.addMaster M ops l, fun m hm hp => ?_, fun m hm hp hb => ?_, fun d hd => ?_⟩
  · rw [hnew m hm hp]
  · rw [hnew m hm hp] at hb
    exact absurd hb (by simp)
  · rw [addMaster_components] at hd
    obtain ⟨c, hc, rfl⟩ := List.mem_map.1 hd
    exact hdev c hc

/-! ## No silently shortened list -/

/-- However memory was for other allocations, and whatever was registered before : if the requests
find memory as `ok` says, from allocation `a` on, then registering the master fails, or in every
later run of `component_add` calls it is bound only once there is a component for each request. -/
def NeverBoundEarly (ok : ℕ → Bool) (a : ℕ) (reqs : List LkpiMatchEntry) : Prop :=
  ∀ (env : Env) (s : Registry), s.WF → (∀ c ∈ s.components, c.dev ≠ NULL) → s.allocs = a →
    (∀ n, a ≤ n → n < (matchRequests env reqs s).2.allocs → env.mallocOk n = ok n) →
    ∀ master ops : Ptr,
      (componentMasterAddWithMatch env master ops (matchRequests env reqs s).1
        (matchRequests env reqs s).2).1 ≠ 0 ∨
      ∀ adds : List (Ptr × Ptr), ∀ m ∈ (addComponents env adds
        (componentMasterAddWithMatch env master ops (matchRequests env reqs s).1
          (matchRequests env reqs s).2).2).masters,
        m.addr = (matchRequests env reqs s).2.allocs → m.bound = true →
        ∀ e ∈ reqs, ∃ c ∈ (addComponents env adds
          (componentMasterAddWithMatch env master ops (matchRequests env reqs s).1
            (matchRequests env reqs s).2).2).components, e.selects c.dev = true

/-- Every dropped request is implied by one that was kept. -/
def LossesImplied (ok : ℕ → Bool) (a : ℕ) (reqs : List LkpiMatchEntry) : Prop :=
  ∀ i r, reqs[i]? = some r → ¬Kept ok a i → ∃ k e, reqs[k]? = some e ∧ Kept ok a k ∧
    ∀ dev, dev ≠ NULL → e.selects dev = true → r.selects dev = true

theorem Started.mono {ok : ℕ → Bool} {a m n : ℕ} (h : Started ok a m) (hle : m ≤ n) :
    Started ok a n := by
  obtain ⟨j, hj, hok⟩ := h
  exact ⟨j, Nat.lt_of_lt_of_le hj hle, hok⟩

/-- Which requests are kept depends on the allocations of the requests only. -/
theorem kept_congr {ok ok' : ℕ → Bool} {a n : ℕ}
    (h : ∀ k, a ≤ k → k < a + n + (if Started ok a n then 1 else 0) → ok k = ok' k) {i : ℕ}
    (hi : i < n) : Kept ok a i ↔ Kept ok' a i := by
  have hstarted : Started ok a (i + 1) ↔ Started ok' a (i + 1) := by
    refine exists_congr fun j => and_congr_right fun hj => ?_
    rw [h (a + j) (Nat.le_add_right _ _) (by omega)]
  rw [Kept, Kept, ← hstarted]
  refine and_congr_left fun hst => ?_
  rw [h (a + i + 1) (by omega) (by rw [if_pos (hst.mono hi)]; omega)]

theorem allocs_matchRequests (env : Env) (reqs : List LkpiMatchEntry) (s : Registry) :
    (matchRequests env reqs s).2.allocs =
      s.allocs + reqs.length + if Started env.mallocOk s.allocs reqs.length then 1 else 0 := by
  have h := requested_matchRequests env reqs s
  rw [h.registry]
  exact congrArg _ (if_congr h.list rfl rfl)

/-- If every dropped request is implied by one that was kept, the list waits for all of them. -/
theorem neverBoundEarly_of_lossesImplied {ok : ℕ → Bool} {a : ℕ} {reqs : List LkpiMatchEntry}
    (h : LossesImplied ok a reqs) : NeverBoundEarly ok a reqs := by
  rintro env s hs hdev rfl hok master ops
  have hreq := requested_matchRequests env reqs s
  rw [allocs_matchRequests] at hok
  have hmem := hreq.mem
  have hwf : (matchRequests env reqs s).2.WF := by
    rw [hreq.registry]
    exact hs.allocs (Nat.le_trans (Nat.le_add_right _ _) (Nat.le_add_right _ _))
  have hdev' : ∀ c ∈ (matchRequests env reqs s).2.components, c.dev ≠ NULL := by
    rw [hreq.registry]
    exact hdev
  generalize matchRequests env reqs s = built at hmem hwf hdev'
  rcases componentMasterAddWithMatch_cases env master ops built.1 built.2 with
    he | he | ⟨-, -, -, he⟩ <;> rw [he]
  · exact Or.inl (by decide : -EINVAL ≠ 0)
  · exact Or.inl (by decide : -ENOMEM ≠ 0)
  refine Or.inr fun adds m hm hp hb e he => ?_
  have hwaits : WaitsFor built.2.allocs built.1 (addComponents env adds
      (lkpiTryBindMasters env (built.2.addMaster env master ops built.1))) :=
    WaitsFor.addComponents adds (waitsFor_addMaster hwf hdev' master ops built.1).tryBindMasters
  have hcomplete := (lkpiMatchComplete_iff _ _).1 (hwaits.complete m hm hp hb)
  -- a kept request that implies `e`, with the component that is there for it
  obtain ⟨i, hi⟩ := List.getElem?_of_mem he
  obtain ⟨k, e', hk, hkept, himp⟩ : ∃ k e', reqs[k]? = some e' ∧ Kept ok s.allocs k ∧
      ∀ dev, dev ≠ NULL → e'.selects dev = true → e.selects dev = true := by
    by_cases hkept : Kept ok s.allocs i
    · exact ⟨i, e, hi, hkept, fun _ _ hsel => hsel⟩
    · exact h i e hi hkept
  have hkept := (kept_congr hok (List.getElem?_eq_some_iff.1 hk).1).2 hkept
  obtain ⟨d, hd, hsel⟩ := hcomplete e' ((hmem e').2 ⟨k, hk, hkept⟩)
  obtain ⟨c, hc, rfl⟩ := List.mem_map.1 hd
  exact ⟨c, hc, himp _ (hwaits.dev_ne _ hd) hsel⟩

/-! ## A run that shows a loss -/

/-- Callbacks that succeed and do nothing. Allocations succeed as `ok` says, and all from number `b`
on. -/
def eager (ok : ℕ → Bool) (b : ℕ) : Env where
  componentOps _ := ⟨true, fun _ _ _ _ => 0, true⟩
  masterOps _ := ⟨true, fun _ _ => .done 0, true, fun _ _ => .done 0⟩
  mallocOk n := ok n || decide (b ≤ n)

/-- One master, bound exactly if its match list is complete, and only succeeding allocations to
come. -/
structure OnlyMaster (b : ℕ) (m : LkpiMaster) (s : Registry) : Prop where
  masters : s.masters = [{ m with bound := lkpiMatchComplete m.matchList s.components }]
  allocs : b ≤ s.allocs

/-- The only master is bound as soon as its list is complete. -/
theorem onlyMaster_lkpiTryBindMasters (ok : ℕ → Bool) {b : ℕ} {m : LkpiMaster} {s : Registry}
    {bound : Bool} (hs : s.masters = [{ m with bound := bound }])
    (hbound : bound = true → lkpiMatchComplete m.matchList s.components = true)
    (hb : b ≤ s.allocs) :
    OnlyMaster b m (lkpiTryBindMasters (eager ok b) s) ∧
      (lkpiTryBindMasters (eager ok b) s).components = s.components := by
  have hfold : lkpiTryBindMasters (eager ok b) s =
      lkpiTryBindMaster (eager ok b) s { m with bound := bound } := by
    rw [lkpiTryBindMasters, hs]
    rfl
  rw [hfold]
  cases bound with
  | true =>
    have hskip : lkpiTryBindMaster (eager ok b) s { m with bound := true } = s := by
      simp [lkpiTryBindMaster]
    rw [hskip]
    exact ⟨⟨by rw [hs, hbound rfl], hb⟩, rfl⟩
  | false =>
    cases hcomplete : lkpiMatchComplete m.matchList s.components with
    | false =>
      have hskip : lkpiTryBindMaster (eager ok b) s { m with bound := false } = s := by
        simp [lkpiTryBindMaster, hcomplete]
      rw [hskip]
      exact ⟨⟨by rw [hs, hcomplete], hb⟩, rfl⟩
    | true =>
      have hbind : lkpiTryBindMaster (eager ok b) s { m with bound := false } =
          (s.log (.masterBind m.dev)).markBound m.addr := by
        simp [lkpiTryBindMaster, hcomplete, eager, Script.run]
      rw [hbind]
      refine ⟨⟨?_, hb⟩, rfl⟩
      simp [hs, TailQueue.update, LkpiMaster.mark, hcomplete]

/-- A component more, and the master is bound if its list is complete now. -/
theorem OnlyMaster.add (ok : ℕ → Bool) {b : ℕ} {m : LkpiMaster} {s : Registry}
    (h : OnlyMaster b m s) {d : Ptr} (hd : d ≠ NULL) :
    OnlyMaster b m (componentAdd (eager ok b) d 1 s).2 ∧
      (componentAdd (eager ok b) d 1 s).2.components.map LkpiComponent.dev =
        s.components.map LkpiComponent.dev ++ [d] := by
  have hmalloc : (eager ok b).mallocOk s.allocs = true := by
    simp [eager, h.allocs]
  have hadd : componentAdd (eager ok b) d 1 s =
      (0, lkpiTryBindMasters (eager ok b) (s.addComponent (eager ok b) d 1)) := by
    simp [componentAdd, hd, Registry.malloc, hmalloc, Registry.addComponent,
      show (eager ok b).componentOps 1 = ⟨true, fun _ _ _ _ => 0, true⟩ from rfl]
  have hmono : lkpiMatchComplete m.matchList s.components = true →
      lkpiMatchComplete m.matchList (s.addComponent (eager ok b) d 1).components = true := by
    simp only [lkpiMatchComplete_iff]
    intro hall e he
    obtain ⟨d', hd', hsel⟩ := hall e he
    exact ⟨d', by simp [Registry.addComponent, List.mem_map.1 hd'], hsel⟩
  have honly := onlyMaster_lkpiTryBindMasters ok (s := s.addComponent (eager ok b) d 1)
    h.masters hmono (Nat.le_succ_of_le h.allocs)
  rw [hadd]
  refine ⟨honly.1, ?_⟩
  rw [honly.2]
  simp [Registry.addComponent]

/-- Components for the devices `ds`, one after the other. -/
theorem OnlyMaster.adds (ok : ℕ → Bool) {b : ℕ} {m : LkpiMaster} : ∀ (ds : List Ptr)
    {s : Registry}, OnlyMaster b m s → (∀ d ∈ ds, d ≠ NULL) →
    OnlyMaster b m (addComponents (eager ok b) (ds.map (·, 1)) s) ∧
      (addComponents (eager ok b) (ds.map (·, 1)) s).components.map LkpiComponent.dev =
        s.components.map LkpiComponent.dev ++ ds
  | [], s, h, _ => ⟨h, by simp [addComponents]⟩
  | d :: ds, s, h, hds => by
    obtain ⟨hd, hds⟩ := List.forall_mem_cons.1 hds
    obtain ⟨hone, hdevs⟩ := h.add ok hd
    obtain ⟨hrest, hdevs'⟩ := hone.adds ok ds hds
    refine ⟨hrest, hdevs'.trans ?_⟩
    rw [hdevs, List.append_assoc, List.singleton_append]

/-- Registering the only master, with allocations that succeed. -/
theorem onlyMaster_addMaster (ok : ℕ → Bool) {b : ℕ} {s : Registry} (hmasters : s.masters = [])
    (hcomponents : s.components = []) (hb : s.allocs = b) (l : Option ComponentMatch) :
    ∃ s', componentMasterAddWithMatch (eager ok b) 1 1 l s = (0, s') ∧
      OnlyMaster b ⟨b, 1, 1, l, false⟩ s' ∧ s'.components = [] := by
  have hmalloc : (eager ok b).mallocOk s.allocs = true := by
    simp [eager, hb]
  have hadd : (s.addMaster (eager ok b) 1 1 l).masters = [⟨b, 1, 1, l, false⟩] := by
    rw [addMaster_masters, hmasters, hb]
    rfl
  have hallocs : b ≤ (s.addMaster (eager ok b) 1 1 l).allocs :=
    Nat.le_succ_of_le (Nat.le_of_eq (by rw [warnEmpty_allocs, hb]))
  have honly := onlyMaster_lkpiTryBindMasters ok (m := ⟨b, 1, 1, l, false⟩) hadd
    (fun h => absurd h (by decide)) hallocs
  refine ⟨_, ?_, honly.1, ?_⟩
  · simp [componentMasterAddWithMatch, Registry.malloc, hmalloc, Registry.addMaster]
  · rw [honly.2, addMaster_components, hcomponents]

/-- The only master is bound by components that complete its list. -/
theorem onlyMaster_bound (ok : ℕ → Bool) {b : ℕ} {s : Registry} (hmasters : s.masters = [])
    (hcomponents : s.components = []) (hb : s.allocs = b) (l : Option ComponentMatch)
    (ds : List Ptr) (hds : ∀ d ∈ ds, d ≠ NULL)
    (hall : ∀ e ∈ listEntries l, ∃ d ∈ ds, e.selects d = true) :
    ∃ s', componentMasterAddWithMatch (eager ok b) 1 1 l s = (0, s') ∧
      (addComponents (eager ok b) (ds.map (·, 1)) s').masters = [⟨b, 1, 1, l, true⟩] ∧
      (addComponents (eager ok b) (ds.map (·, 1)) s').components.map LkpiComponent.dev = ds := by
  obtain ⟨s', hadd, honly, hnone⟩ := onlyMaster_addMaster ok hmasters hcomponents hb l
  obtain ⟨hend, hdevs⟩ := honly.adds ok ds hds
  rw [hnone, List.map_nil, List.nil_append] at hdevs
  have hcomplete : lkpiMatchComplete l
      (addComponents (eager ok b) (ds.map (·, 1)) s').components = true := by
    rw [lkpiMatchComplete_iff, hdevs]
    exact hall
  refine ⟨s', hadd, ?_, hdevs⟩
  have hmaster := hend.masters
  dsimp only at hmaster
  rwa [hcomplete] at hmaster

/-- A dropped request that nothing implies : the master is bound when there is a component for
each entry of its list, and none for the request. -/
theorem lossesImplied_of_neverBoundEarly {ok : ℕ → Bool} {a : ℕ} {reqs : List LkpiMatchEntry}
    (h : NeverBoundEarly ok a reqs) : LossesImplied ok a reqs := by
  by_contra hloss
  simp only [LossesImplied, not_forall, not_exists, not_and] at hloss
  obtain ⟨i, r, hi, hlost, hunimplied⟩ := hloss
  -- the requests find memory as `ok` says, and everything behind them succeeds
  generalize hb : a + reqs.length + (if Started ok a reqs.length then 1 else 0) = b
  have hok : ∀ k, a ≤ k → k < b → (eager ok b).mallocOk k = ok k := fun k _ hk => by
    simp [eager, Nat.not_le.2 hk]
  have hstarted : Started (eager ok b).mallocOk a reqs.length ↔ Started ok a reqs.length := by
    refine exists_congr fun j => and_congr_right fun hj => ?_
    rw [hok (a + j) (Nat.le_add_right _ _) (by omega)]
  have hreq := requested_matchRequests (eager ok b) reqs { allocs := a }
  have hallocs : (matchRequests (eager ok b) reqs { allocs := a }).2.allocs = b := by
    rw [allocs_matchRequests]
    exact (congrArg _ (if_congr hstarted rfl rfl)).trans hb
  have hcomponents : (matchRequests (eager ok b) reqs { allocs := a }).2.components = [] := by
    rw [hreq.registry]
  have hmasters : (matchRequests (eager ok b) reqs { allocs := a }).2.masters = [] := by
    rw [hreq.registry]
  have hkept : ∀ e ∈ listEntries (matchRequests (eager ok b) reqs { allocs := a }).1,
      ∃ d, d ≠ NULL ∧ e.selects d = true ∧ ¬r.selects d = true := by
    intro e he
    obtain ⟨k, hk, hkept⟩ := (hreq.mem e).1 he
    have hlt := (List.getElem?_eq_some_iff.1 hk).1
    obtain ⟨d, hd, hsel, hr⟩ := hunimplied k e hk
      ((kept_congr (fun n hn hlt => (hok n hn (hb ▸ hlt)).symm) hlt).2 hkept)
    exact ⟨d, hd, hsel, hr⟩
  choose! f hf using hkept
  have hwf : ({ allocs := a } : Registry).WF := ⟨by simp, by simp, by simp, by simp⟩
  have hrun := h (eager ok b) { allocs := a } hwf (by simp) rfl
    (fun k hk hlt => hok k hk (hallocs ▸ hlt)) 1 1
  generalize matchRequests (eager ok b) reqs { allocs := a } = built at *
  -- a component for each entry of the list, and the master is bound
  obtain ⟨s', hadd, hmaster, hdevs⟩ := onlyMaster_bound ok hmasters hcomponents hallocs built.1
    ((listEntries built.1).map f)
    (fun d hd => by
      obtain ⟨e, he, rfl⟩ := List.mem_map.1 hd
      exact (hf e he).1)
    fun e he => ⟨f e, List.mem_map_of_mem he, (hf e he).2.1⟩
  rw [hadd] at hrun
  -- so one of the components is for the dropped request
  obtain ⟨c, hc, hsel⟩ := (hrun.resolve_left (by simp)) (((listEntries built.1).map f).map (·, 1))
    ⟨b, 1, 1, built.1, true⟩ (hmaster ▸ List.mem_singleton_self _) hallocs.symm rfl r
    (List.mem_of_getElem? hi)
  have hdev : c.dev ∈ (listEntries built.1).map f := hdevs ▸ List.mem_map_of_mem hc
  obtain ⟨e, he, heq⟩ := List.mem_map.1 hdev
  exact (hf e he).2.2 (heq ▸ hsel)

/-- The master is never bound before there is a component for every request exactly if each dropped
request is implied by one that was kept. -/
theorem neverBoundEarly_iff (ok : ℕ → Bool) (a : ℕ) (reqs : List LkpiMatchEntry) :
    NeverBoundEarly ok a reqs ↔ LossesImplied ok a reqs :=
  ⟨lossesImplied_of_neverBoundEarly, neverBoundEarly_of_lossesImplied⟩

/-- Two requests, the second of which finds no memory, the master, and the first component. -/
def twoRequests : Registry :=
  addComponents (eager (· != 3) 4) [(10, 1)]
    (componentMasterAddWithMatch (eager (· != 3) 4) 100 2
      (matchRequests (eager (· != 3) 4) [.ofDev 10, .ofDev 20] {}).1
      (matchRequests (eager (· != 3) 4) [.ofDev 10, .ofDev 20] {}).2).2

/-- The master is bound with a component for the first request only. -/
theorem not_neverBoundEarly_twoRequests : ¬NeverBoundEarly (· != 3) 1 [.ofDev 10, .ofDev 20] := by
  intro h
  have hpattern : ∀ n, 1 ≤ n →
      n < (matchRequests (eager (· != 3) 4) [.ofDev 10, .ofDev 20] {}).2.allocs →
      (eager (· != 3) 4).mallocOk n = (n != 3) := fun n _ hn => by
    have hn : n < 4 := hn
    simp [eager, Nat.not_le.2 hn]
  have hrun := (h (eager (· != 3) 4) {} wf_init (by simp) rfl hpattern 100 2).resolve_left
    (by decide) [(10, 1)]
  have hmasters : twoRequests.masters =
    [⟨4, 100, 2, some ⟨[.ofDev 10], 1, rfl⟩, true⟩] := rfl
  have hcomponents : twoRequests.components = [⟨5, 10, 1, false, NULL, NULL⟩] := rfl
  have hmem : ⟨4, 100, 2, some ⟨[.ofDev 10], 1, rfl⟩, true⟩ ∈ twoRequests.masters := by
    rw [hmasters]
    exact List.mem_singleton_self _
  obtain ⟨c, hc, hsel⟩ := hrun _ hmem rfl rfl (.ofDev 20) (by simp)
  obtain rfl := List.mem_singleton.1 (hcomponents ▸ hc : c ∈ [_])
  rw [selects_ofDev] at hsel
  exact absurd hsel (by decide)

end KernelModules
