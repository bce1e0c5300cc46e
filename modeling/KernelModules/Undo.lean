import KernelModules.MatchOrder
import KernelModules.Teardown

/-!
# `component_unbind_all` undoes `component_bind_all`

`component_bind_all` keeps no record of what it bound. `component_unbind_all` walks the match list
backwards and takes, for each entry, the first bound component the entry selects.

For a match list over distinct devices, whose components are all registered and unbound, the two
walks pick the same component for each entry. So whatever the bind callbacks return, every
component is as before, and the unbind callbacks are those of the components just bound, from the
last one back to the first (`componentUnbindAll_undoes`). A component without an unbind callback
gets no call (`componentUnbindAll_no_callback`).
-/

namespace KernelModules

variable {env : Env}

/-- The components whose bind callback returned 0, by address, in order. -/
def bindSuccesses (tr : List Event) : List Ptr :=
  tr.filterMap fun
    | .bind addr _ _ _ ret => if ret = 0 then some addr else none
    | _ => none

/-- The match entries that name the devices of components. -/
def entriesOfComponents (cl : List LkpiComponent) : List LkpiMatchEntry :=
  cl.map fun c => .ofDev c.dev

/-! ## Binding -/

/-- Along a match list that names distinct, unbound components, `component_bind_all` binds those
before the first one that fails. -/
theorem bindEntries_entriesOfComponents (env : Env) (M x : Ptr) :
    ∀ (cl : List LkpiComponent) (s : Registry),
    (cl.map (·.dev)).Nodup → (s.components.map (·.addr)).Nodup →
    (s.components.map (·.dev)).Nodup → (∀ c ∈ cl, c ∈ s.components ∧ c.bound = false) →
    ∃ k ≤ cl.length, ∃ events,
      (bindEntries env M x (entriesOfComponents cl) s).2 = { s with
        components := s.components.map (bindDevs ((cl.take k).map (·.dev)) M x)
        trace := s.trace ++ events } ∧
      bindSuccesses events = (cl.take k).map (·.addr)
  | [], s, _, _, _, _ => ⟨0, Nat.le_refl 0, [], by
      simp [entriesOfComponents, bindEntries], rfl⟩
  | c :: cl, s, hnd, haddr, hdev, hfree => by
    obtain ⟨hc, hnd⟩ := List.nodup_cons.1 hnd
    obtain ⟨⟨hmem, hb⟩, hfree⟩ := List.forall_mem_cons.1 hfree
    rw [entriesOfComponents, List.map_cons]
    rcases bindOne_cases env M x c s with ⟨r, hr, hone⟩ | hone
    · -- the callback fails, and the walk stops
      refine ⟨0, Nat.zero_le _, [.bind c.addr c.dev M x r], ?_, by simp [bindSuccesses, hr]⟩
      rw [bindEntries, bindCandidate_ofDev hdev hmem hb]
      dsimp only
      rw [hone]
      split
      · next heq => exact absurd (Prod.mk.inj heq).1 hr
      · next heq =>
        obtain ⟨-, rfl⟩ := Prod.mk.inj heq
        simp [Registry.log]
    · obtain ⟨k, hk, events, hrest, hsuccesses⟩ := bindEntries_entriesOfComponents env M x cl
        { s with
          components := s.components.map (bindDevs [c.dev] M x)
          trace := s.trace ++ [.bind c.addr c.dev M x 0] } hnd
        (by simpa [Function.comp_def] using haddr) (by simpa [Function.comp_def] using hdev)
        fun c' hc' => by
          obtain ⟨hmem', hb'⟩ := hfree c' hc'
          have hne : c'.dev ≠ c.dev := fun h => hc (List.mem_map.2 ⟨c', hc', h⟩)
          exact ⟨mem_map_bindDevs_of_ne hmem' hne M x, hb'⟩
      have hnotin : c.dev ∉ (cl.take k).map (·.dev) := fun h =>
        hc (List.map_subset _ (List.take_subset k cl) h)
      refine ⟨k + 1, Nat.succ_le_succ hk, .bind c.addr c.dev M x 0 :: events, ?_, ?_⟩
      · rw [bindEntries_cons_ofDev haddr hdev hmem hb (congrArg Prod.fst hone)]
        refine hrest.trans ?_
        rw [List.take_succ_cons, List.map_cons, ← map_bindDevs_cons hnotin]
        simp
      · simpa [bindSuccesses] using hsuccesses

/-! ## Unbinding -/

section Unbinding

variable {cs : List LkpiComponent} (haddr : (cs.map (·.addr)).Nodup) (hdev : (cs.map (·.dev)).Nodup)

/-- A component that was unbound, with the fields of an unbound one. -/
def LkpiComponent.Fresh (c : LkpiComponent) : Prop :=
  c.bound = false ∧ c.master = NULL ∧ c.masterData = NULL

instance (c : LkpiComponent) : Decidable c.Fresh :=
  inferInstanceAs (Decidable (_ ∧ _))

theorem LkpiComponent.Fresh.release_bindTo {c : LkpiComponent} (h : c.Fresh) (M x : Ptr) :
    (c.bindTo M x).release = c := by
  obtain ⟨addr, dev, ops, bound, master, data⟩ := c
  obtain ⟨rfl, rfl, rfl⟩ := h
  rfl

include haddr hdev in
/-- Releasing one of the components just bound. -/
theorem update_release_bindDevs {c : LkpiComponent} (hc : c ∈ cs) (hfresh : c.Fresh)
    {bound : List Ptr} (hbound : c.dev ∈ bound) (M x : Ptr) :
    TailQueue.update LkpiComponent.addr c.addr .release (cs.map (bindDevs bound M x)) =
      cs.map (bindDevs (bound.filter (· ≠ c.dev)) M x) := by
  rw [TailQueue.update, List.map_map]
  refine List.map_congr_left fun c' hc' => ?_
  rw [Function.comp_apply, bindDevs_addr, if_congr (addr_eq_iff_dev_eq haddr hdev hc hc') rfl rfl]
  by_cases h : c'.dev = c.dev
  · obtain rfl := List.inj_on_of_nodup_map hdev hc' hc h
    rw [if_pos rfl]
    simp [bindDevs, hbound, hfresh.release_bindTo]
  · rw [if_neg h]
    simp [bindDevs, h]

include hdev in
/-- The entry for a component finds it if it is bound, and else nothing. -/
theorem unbindCandidate_ofDev {c : LkpiComponent} (hc : c ∈ cs) (hfresh : c.Fresh)
    {bound : List Ptr} {M x : Ptr} {s : Registry}
    (hs : s.components = cs.map (bindDevs bound M x)) :
    unbindCandidate s (.ofDev c.dev) = if c.dev ∈ bound then some (c.bindTo M x) else none := by
  split
  · next hbound =>
    have hbindDevs : bindDevs bound M x c = c.bindTo M x := if_pos hbound
    have hin : c.bindTo M x ∈ s.components := by
      rw [hs, ← hbindDevs]
      exact List.mem_map_of_mem hc
    have hnd : (s.components.map (·.dev)).Nodup := by
      simpa [hs, Function.comp_def] using hdev
    refine TailQueue.find?_eq_some_of_mem hnd hin (by simp [LkpiComponent.bindTo]) fun c' hp => ?_
    rw [Bool.and_eq_true, selects_ofDev] at hp
    exact hp.2
  · next hbound =>
    refine List.find?_eq_none.2 fun c' hc' hp => ?_
    rw [Bool.and_eq_true, selects_ofDev] at hp
    rw [hs] at hc'
    obtain ⟨c₀, hc₀, rfl⟩ := List.mem_map.1 hc'
    rw [bindDevs_dev] at hp
    obtain rfl := List.inj_on_of_nodup_map hdev hc₀ hc hp.2
    have hbindDevs : bindDevs bound M x c₀ = c₀ := if_neg hbound
    rw [hbindDevs, hfresh.1] at hp
    exact absurd hp.1 (by decide)

include haddr hdev in
/-- The walk over entries that name all bound components releases them. -/
theorem unbindEntries_entriesOfComponents (env : Env) (M x : Ptr) : ∀ (cl : List LkpiComponent)
    (bound : List Ptr) (s : Registry), (cl.map (·.dev)).Nodup → (∀ c ∈ cl, c ∈ cs ∧ c.Fresh) →
    (∀ n ∈ bound, n ∈ cl.map (·.dev)) → s.components = cs.map (bindDevs bound M x) →
    unbindEntries env M x (entriesOfComponents cl) s = { s with
      components := cs
      trace := s.trace ++ (cl.filter (·.dev ∈ bound)).map fun c =>
        .unbind .unbindAll c.addr c.dev M x (env.componentOps c.ops).hasUnbind }
  | [], bound, s, _, _, hbound, hs => by
    obtain rfl : bound = [] := List.eq_nil_iff_forall_not_mem.2 fun n hn => by
      simpa using hbound n hn
    rw [bindDevs_nil, List.map_id] at hs
    simp [entriesOfComponents, unbindEntries, ← hs]
  | c :: cl, bound, s, hnd, hfresh, hbound, hs => by
    obtain ⟨hc, hnd⟩ := List.nodup_cons.1 hnd
    obtain ⟨⟨hmem, hc'⟩, hfresh⟩ := List.forall_mem_cons.1 hfresh
    rw [entriesOfComponents, List.map_cons, unbindEntries,
      unbindCandidate_ofDev hdev hmem hc' hs, ← entriesOfComponents]
    by_cases hin : c.dev ∈ bound
    · rw [if_pos hin]
      dsimp only
      have hfilter : cl.filter (·.dev ∈ bound.filter (· ≠ c.dev)) = cl.filter (·.dev ∈ bound) :=
        List.filter_congr fun c' hc' => by
          have hne : c'.dev ≠ c.dev := fun h => hc (List.mem_map.2 ⟨c', hc', h⟩)
          simp [hne]
      rw [unbindEntries_entriesOfComponents env M x cl (bound.filter (· ≠ c.dev)) _ hnd hfresh
        ?_ ?_, hfilter, List.filter_cons_of_pos (by simpa using hin)]
      · simp [unbindOne, LkpiComponent.bindTo]
      · intro n hn
        have hn := List.mem_filter.1 hn
        exact (List.mem_cons.1 (hbound n hn.1)).resolve_left (by simpa using hn.2)
      · rw [← update_release_bindDevs haddr hdev hmem hc' hin, ← hs]
        rfl
    · rw [if_neg hin, List.filter_cons_of_neg (by simpa using hin)]
      exact unbindEntries_entriesOfComponents env M x cl bound s hnd hfresh
        (fun n hn => (List.mem_cons.1 (hbound n hn)).resolve_left fun h : n = c.dev =>
          hin (h ▸ hn)) hs

end Unbinding

/-! ## The undo -/

/-- Components for the names of a match list. -/
theorem exists_components_of_names {cs : List LkpiComponent} : ∀ {names : List Ptr},
    (∀ n ∈ names, ∃ c ∈ cs, c.dev = n ∧ c.Fresh) →
    ∃ cl : List LkpiComponent, cl.map (·.dev) = names ∧ ∀ c ∈ cl, c ∈ cs ∧ c.Fresh
  | [], _ => ⟨[], rfl, by simp⟩
  | n :: names, h => by
    obtain ⟨⟨c, hc, rfl, hfresh⟩, hrest⟩ := List.forall_mem_cons.1 h
    obtain ⟨cl, rfl, hcl⟩ := exists_components_of_names hrest
    exact ⟨c :: cl, rfl, List.forall_mem_cons.2 ⟨⟨hc, hfresh⟩, hcl⟩⟩

/-- With distinct devices, the components named by the first `k` are the first `k`. -/
theorem filter_dev_mem_take {cl : List LkpiComponent} (hnd : (cl.map (·.dev)).Nodup) {k : ℕ} :
    cl.filter (·.dev ∈ (cl.take k).map (·.dev)) = cl.take k := by
  have hnd' := hnd
  rw [← List.take_append_drop k cl, List.map_append, List.nodup_append] at hnd'
  obtain ⟨-, -, hdisjoint⟩ := hnd'
  generalize hbound : (cl.take k).map (·.dev) = bound at *
  conv_lhs => rw [← List.take_append_drop k cl]
  rw [List.filter_append, List.filter_eq_self.2 ?_, List.filter_eq_nil_iff.2 ?_, List.append_nil]
  · intro c hc hmem
    exact hdisjoint c.dev (of_decide_eq_true hmem) c.dev (List.mem_map_of_mem hc) rfl
  · intro c hc
    rw [decide_eq_true_eq, ← hbound]
    exact List.mem_map_of_mem hc

/-- Whether the component at an address has an unbind callback. -/
def hasUnbindAt (env : Env) (s : Registry) (a : Ptr) : Bool :=
  s.components.any fun c => c.addr == a && (env.componentOps c.ops).hasUnbind

theorem hasUnbindAt_eq {s : Registry} (hs : s.WF) {c : LkpiComponent} (hc : c ∈ s.components) :
    hasUnbindAt env s c.addr = (env.componentOps c.ops).hasUnbind := by
  rw [hasUnbindAt, Bool.eq_iff_iff, List.any_eq_true]
  constructor
  · rintro ⟨c', hc', h⟩
    rw [Bool.and_eq_true, beq_iff_eq] at h
    rw [List.inj_on_of_nodup_map hs.components_nodup hc' hc h.1] at h
    exact h.2
  · exact fun h => ⟨c, hc, by simp [h]⟩

section MatchList

variable {s : Registry} (hs : s.WF) (hdev : (s.components.map (·.dev)).Nodup) {M : Ptr}
  {cl : List LkpiComponent} (hmatch : matchFor s M = some (.ofDevs (cl.map (·.dev))))
  (hnd : (cl.map (·.dev)).Nodup) (hcl : ∀ c ∈ cl, c ∈ s.components ∧ c.Fresh)

theorem entries_ofDevs_map_dev (cl : List LkpiComponent) :
    (ComponentMatch.ofDevs (cl.map (·.dev))).entries = entriesOfComponents cl := by
  rw [entries_ofDevs, List.map_map]
  rfl

include hs hdev hmatch hnd hcl

/-- `component_bind_all` binds the components before the first one that fails. -/
theorem componentBindAll_take (env : Env) (x : Ptr) : ∃ k, ∃ events,
    (componentBindAll env M x s).2 = { s with
      components := s.components.map (bindDevs ((cl.take k).map (·.dev)) M x)
      trace := s.trace ++ events } ∧
    bindSuccesses events = (cl.take k).map (·.addr) := by
  obtain ⟨k, -, events, hbind, hsuccesses⟩ := bindEntries_entriesOfComponents env M x cl s
    hnd hs.components_nodup hdev fun c hc => ⟨(hcl c hc).1, (hcl c hc).2.1⟩
  refine ⟨k, events, ?_, hsuccesses⟩
  rw [componentBindAll, hmatch]
  dsimp only
  rw [entries_ofDevs_map_dev]
  exact hbind

/-- `component_unbind_all` releases them, from the last one back to the first. -/
theorem componentUnbindAll_take (env : Env) (x : Ptr) {k : ℕ} {events : List Event} {s' : Registry}
    (hs' : s' = { s with
      components := s.components.map (bindDevs ((cl.take k).map (·.dev)) M x)
      trace := s.trace ++ events }) :
    componentUnbindAll env M x s' = { s with
      trace := s.trace ++ events ++ (cl.take k).reverse.map fun c =>
        .unbind .unbindAll c.addr c.dev M x (env.componentOps c.ops).hasUnbind } := by
  have hmatch' : matchFor s' M = some (.ofDevs (cl.map (·.dev))) := by
    rw [hs']
    exact hmatch
  have hreverse : (ComponentMatch.ofDevs (cl.map (·.dev))).entries.reverse =
      entriesOfComponents cl.reverse := by
    rw [entries_ofDevs_map_dev, entriesOfComponents, entriesOfComponents, List.map_reverse]
  have hbound : cl.reverse.filter (·.dev ∈ (cl.take k).map (·.dev)) = (cl.take k).reverse := by
    rw [List.filter_reverse, filter_dev_mem_take hnd]
  rw [componentUnbindAll, hmatch']
  dsimp only
  rw [hreverse, hs', unbindEntries_entriesOfComponents hs.components_nodup hdev env M x cl.reverse
    ((cl.take k).map (·.dev)) _ ?_ ?_ ?_ rfl, hbound]
  · rw [List.map_reverse]
    exact List.nodup_reverse.2 hnd
  · exact fun c hc => hcl c (List.mem_reverse.1 hc)
  · intro n hn
    rw [List.map_reverse]
    exact List.mem_reverse.2 (List.map_subset _ (List.take_subset k cl) hn)

end MatchList

/-- `component_unbind_all` after a complete or partial `component_bind_all` leaves every component
as it was. It calls the unbind callbacks of the components just bound, of those that have one, in
the reverse of the order they were bound in. -/
theorem componentUnbindAll_undoes (env : Env) {s : Registry} (hs : s.WF)
    (hdev : (s.components.map (·.dev)).Nodup) {M : Ptr} (x : Ptr) {names : List Ptr}
    (hmatch : matchFor s M = some (.ofDevs names)) (hnd : names.Nodup)
    (hnamed : ∀ n ∈ names, ∃ c ∈ s.components, c.dev = n ∧ c.Fresh) :
    (componentUnbindAll env M x (componentBindAll env M x s).2).components = s.components ∧
    unbindCalls ((componentUnbindAll env M x (componentBindAll env M x s).2).trace.drop
        (componentBindAll env M x s).2.trace.length) =
      ((bindSuccesses ((componentBindAll env M x s).2.trace.drop s.trace.length)).filter
        (hasUnbindAt env s)).reverse := by
  obtain ⟨cl, rfl, hcl⟩ := exists_components_of_names hnamed
  obtain ⟨k, events, hbind, hsuccesses⟩ := componentBindAll_take hs hdev hmatch hnd hcl env x
  have hcalls : (cl.take k).filter (fun c => (env.componentOps c.ops).hasUnbind) =
      (cl.take k).filter fun c => hasUnbindAt env s c.addr :=
    List.filter_congr fun c hc => (hasUnbindAt_eq hs (hcl c (List.mem_of_mem_take hc)).1).symm
  rw [componentUnbindAll_take hs hdev hmatch hnd hcl env x hbind, hbind]
  refine ⟨rfl, ?_⟩
  dsimp only
  rw [List.drop_left, List.drop_left, hsuccesses, unbindCalls_map, List.filter_reverse,
    List.map_reverse, hcalls, List.filter_map]
  rfl

/-- Components whose bind callback fails on the device 30, and masters that bind nothing by
themselves. -/
def manual (hasUnbind : Bool) : Env where
  componentOps _ := ⟨true, fun _ dev _ _ => if dev = 30 then 5 else 0, hasUnbind⟩
  masterOps _ := ⟨false, fun _ _ => .done 0, false, fun _ _ => .done 0⟩
  mallocOk _ := true

/-- Components for four devices, one of them not named. The third one named fails. -/
def fourComponents : Registry :=
  run (manual true)
    [.add 10 1, .add 20 1, .add 30 1, .add 40 1, .masterAdd 100 2 (some (.ofDevs [20, 10, 30]))]

theorem componentUnbindAll_undoes_fourComponents :
    bindSuccesses ((componentBindAll (manual true) 100 7 fourComponents).2.trace.drop
      fourComponents.trace.length) = [2, 1] ∧
    unbindCalls ((componentUnbindAll (manual true) 100 7
      (componentBindAll (manual true) 100 7 fourComponents).2).trace.drop
        (componentBindAll (manual true) 100 7 fourComponents).2.trace.length) = [1, 2] := by
  have hmatch : matchFor fourComponents 100 = some (.ofDevs [20, 10, 30]) := rfl
  have hs : fourComponents.WF := (tied_run (manual true) _).toWF
  have hundo := (componentUnbindAll_undoes (manual true) hs (by decide) 7 hmatch (by decide)
    (by decide)).2
  refine ⟨by decide, ?_⟩
  rw [hundo]
  decide

/-- A component without an unbind callback is bound, and no callback is made when it is unbound. -/
theorem componentUnbindAll_no_callback :
    ∃ s : Registry, s = run (manual false) [.add 10 1, .masterAdd 100 2 (some (.ofDevs [10]))] ∧
      s.components = [⟨1, 10, 1, false, NULL, NULL⟩] ∧
      matchFor s 100 = some (.ofDevs [10]) ∧
      bindSuccesses ((componentBindAll (manual false) 100 7 s).2.trace.drop s.trace.length) = [1] ∧
      unbindCalls ((componentUnbindAll (manual false) 100 7
        (componentBindAll (manual false) 100 7 s).2).trace.drop
          (componentBindAll (manual false) 100 7 s).2.trace.length) = [] :=
  ⟨_, rfl, by decide, rfl, by decide, by decide⟩

end KernelModules
