import KernelModules.Bindable

/-!
# What a master's removal unbinds

`component_master_del` takes the master off the list before it runs the unbind
callback, so the `component_unbind_all` of that callback no longer finds the master's
match list : it walks the whole component list backwards and unbinds everything that is
bound (`unbindCalls_componentMasterDel`). For a master that is the only one of its device this
mirrors the bring-up exactly if all its components have unbind callbacks, no others are bound
that do, and they were bound in the order they registered (`componentMasterDel_mirrors_iff`).
-/

namespace KernelModules

open Ledger

variable {env : Env}

/-- The components whose unbind callback was called, by address, in order. -/
def unbindCalls (tr : List Event) : List Ptr :=
  tr.filterMap fun
    | .unbind _ addr _ _ _ true => some addr
    | _ => none

/-- `component_master_del(M, ops)` calls the unbind callbacks of exactly the components
bound to `M`, in the reverse of the order they were bound in. -/
def TeardownMirrors (env : Env) (M ops : Ptr) (s : Registry) : Prop :=
  unbindCalls ((componentMasterDel env M ops s).trace.drop s.trace.length) =
    (boundTo M s.trace).reverse

instance (M ops : Ptr) (s : Registry) : Decidable (TeardownMirrors env M ops s) :=
  inferInstanceAs (Decidable (_ = _))

/-- The order a master's components registered in, by address. -/
def registrationOrder (M : Ptr) (s : Registry) : List Ptr :=
  (s.recorded M).map LkpiComponent.addr

/-! ## The walk without a match list -/

theorem unbindList_trace (M d : Ptr) : ∀ (cs : List LkpiComponent) (s : Registry),
    (unbindList env M d cs s).trace = s.trace ++ (cs.filter (·.bound)).map fun c =>
      .unbind .unbindAll c.addr c.dev M d (env.componentOps c.ops).hasUnbind
  | [], s => by simp [unbindList]
  | c :: cs, s => by
    cases hb : c.bound with
    | false => simpa [unbindList, hb] using unbindList_trace M d cs s
    | true => simp [unbindList, hb, unbindList_trace M d cs, unbindOne]

theorem unbindCalls_append (tr tr' : List Event) :
    unbindCalls (tr ++ tr') = unbindCalls tr ++ unbindCalls tr' :=
  List.filterMap_append

theorem unbindCalls_map (M d : Ptr) (cs : List LkpiComponent) :
    unbindCalls (cs.map fun c =>
      .unbind .unbindAll c.addr c.dev M d (env.componentOps c.ops).hasUnbind) =
      (cs.filter fun c => (env.componentOps c.ops).hasUnbind).map LkpiComponent.addr := by
  induction cs with
  | nil => rfl
  | cons c cs ih =>
    cases h : (env.componentOps c.ops).hasUnbind <;> simpa [unbindCalls, h] using ih

/-- The unbind callbacks of `component_master_del` : those of all bound components, in
reverse registration order. -/
theorem unbindCalls_componentMasterDel {s : Registry} {M ops data : Ptr} {r : Int}
    {m : LkpiMaster} (hs : s.WF)
    (hm : s.masters.find? (fun m => m.dev == M && m.ops == ops) = some m)
    (hone : ∀ x ∈ s.masters, x.dev = M → x = m) (hb : m.bound = true)
    (hhas : (env.masterOps ops).hasUnbind = true)
    (hscript : ∀ tr, (env.masterOps ops).unbind tr M = .unbindAll M data (.done r)) :
    unbindCalls ((componentMasterDel env M ops s).trace.drop s.trace.length) =
      ((s.components.filter fun c =>
        c.bound && (env.componentOps c.ops).hasUnbind).map LkpiComponent.addr).reverse := by
  have hp := List.find?_some hm
  simp only [Bool.and_eq_true, beq_iff_eq] at hp
  obtain ⟨rfl, rfl⟩ := hp
  have hnone : matchFor ((s.unlinkMaster m.dev m.ops).log (.masterUnbind m.dev)) m.dev = none :=
    matchFor_unlinkMaster hs hm hone
  have htr : (componentMasterDel env m.dev m.ops s).trace = s.trace ++ (.masterUnbind m.dev ::
      (s.components.reverse.filter (·.bound)).map fun c =>
        .unbind .unbindAll c.addr c.dev m.dev data (env.componentOps c.ops).hasUnbind) := by
    simp only [componentMasterDel, hm, hb, hhas, Bool.and_self, if_true, hscript, Script.run,
      componentUnbindAll, hnone, unbindList_trace]
    simp [Registry.unlinkMaster]
  rw [htr, List.drop_left, ← List.singleton_append, unbindCalls_append, unbindCalls_map]
  simp [unbindCalls, List.filter_reverse, List.map_reverse, Bool.and_comm]

/-! ## When the teardown mirrors the bring-up -/

theorem mem_boundTo {s : Registry} (hs : s.Tied) {M a : Ptr} :
    a ∈ boundTo M s.trace ↔ ∃ c ∈ s.components, c.addr = a ∧ c.bound = true ∧ c.master = M := by
  simp only [boundTo, List.mem_map, List.mem_filter, beq_iff_eq]
  constructor
  · rintro ⟨⟨a, M', d⟩, ⟨h, rfl⟩, rfl⟩
    obtain ⟨c, hc, ha, hb, hm, -⟩ := (hs.mem_holdings _ _ _).1 h
    exact ⟨c, hc, ha, hb, hm⟩
  · rintro ⟨c, hc, rfl, hb, rfl⟩
    exact ⟨_, ⟨(hs.mem_holdings _ _ _).2 ⟨c, hc, rfl, hb, rfl, rfl⟩, rfl⟩, rfl⟩

/-- Removing a bound master mirrors its bring-up exactly if its components have unbind callbacks,
no other bound component has one, and the master's components were bound in registration order. -/
theorem componentMasterDel_mirrors_iff (env : Env) (calls : List Op) {M ops data : Ptr} {r : Int}
    {m : LkpiMaster}
    (hm : (run env calls).masters.find? (fun m => m.dev == M && m.ops == ops) = some m)
    (hone : ∀ x ∈ (run env calls).masters, x.dev = M → x = m) (hb : m.bound = true)
    (hhas : (env.masterOps ops).hasUnbind = true)
    (hscript : ∀ tr, (env.masterOps ops).unbind tr M = .unbindAll M data (.done r)) :
    TeardownMirrors env M ops (run env calls) ↔
      (∀ c ∈ (run env calls).components, c.bound = true →
        ((env.componentOps c.ops).hasUnbind = true ↔ c.master = M)) ∧
      boundTo M (run env calls).trace = registrationOrder M (run env calls) := by
  have hs := tied_run env calls
  rw [TeardownMirrors, unbindCalls_componentMasterDel hs.toWF hm hone hb hhas hscript,
    List.reverse_inj]
  generalize run env calls = s at *
  -- the components that are called back are those of the master
  have hagree : (∀ c ∈ s.components, c.bound = true →
      ((env.componentOps c.ops).hasUnbind = true ↔ c.master = M)) →
        (s.components.filter fun c => c.bound && (env.componentOps c.ops).hasUnbind).map
          LkpiComponent.addr = registrationOrder M s := by
    intro hown
    rw [registrationOrder, Registry.recorded]
    congr 1
    refine List.filter_congr fun c hc => ?_
    cases h1 : c.bound with
    | false => rfl
    | true =>
      rw [Bool.true_and, Bool.true_and, Bool.eq_iff_iff, beq_iff_eq]
      exact hown c hc h1
  constructor
  · intro h
    have hown : ∀ c ∈ s.components, c.bound = true →
        ((env.componentOps c.ops).hasUnbind = true ↔ c.master = M) := by
      intro c hc h1
      constructor
      · intro h2
        have hmem : c.addr ∈ boundTo M s.trace := by
          rw [← h]
          exact List.mem_map_of_mem (List.mem_filter.2 ⟨hc, by simp [h1, h2]⟩)
        obtain ⟨c', hc', ha, -, hM⟩ := (mem_boundTo hs).1 hmem
        rw [← List.inj_on_of_nodup_map hs.components_nodup hc' hc ha]
        exact hM
      · intro hM
        have hmem : c.addr ∈ boundTo M s.trace := (mem_boundTo hs).2 ⟨c, hc, rfl, h1, hM⟩
        rw [← h] at hmem
        obtain ⟨c', hc', ha⟩ := List.mem_map.1 hmem
        obtain ⟨hc', hboth⟩ := List.mem_filter.1 hc'
        rw [← List.inj_on_of_nodup_map hs.components_nodup hc' hc ha]
        exact (Bool.and_eq_true_iff.1 hboth).2
    exact ⟨hown, h ▸ hagree hown⟩
  · rintro ⟨hown, h⟩
    rw [h]
    exact hagree hown

/-- Two components and a master that names them in the order `names`. -/
def twoComponents (names : List Ptr) : Registry :=
  run (cooperative fun _ => 7) [.add 10 1, .add 20 1, .masterAdd 100 2 (some (.ofDevs names))]

/-- Named in registration order, the two components are torn down in reverse. -/
theorem componentMasterDel_mirrors_twoComponents :
    TeardownMirrors (cooperative fun _ => 7) 100 2 (twoComponents [10, 20]) := by
  have hmasters : (twoComponents [10, 20]).masters =
    [⟨3, 100, 2, some (.ofDevs [10, 20]), true⟩] := rfl
  exact (componentMasterDel_mirrors_iff (cooperative fun _ => 7)
    [.add 10 1, .add 20 1, .masterAdd 100 2 (some (.ofDevs [10, 20]))] rfl
    (fun x hx _ => List.mem_singleton.1 (hmasters ▸ hx)) rfl rfl fun _ => rfl).2
    ⟨by decide, by decide⟩

/-- Named in the other order, they are bound in the other order, and torn down in the
order they were bound in. -/
theorem componentMasterDel_not_mirrors :
    (twoComponents [20, 10]).masters.map (fun m => (m.dev, m.ops, m.bound, m.entries.map (·.data)))
        = [(100, 2, true, [20, 10])] ∧
      boundTo 100 (twoComponents [20, 10]).trace = [2, 1] ∧
      ¬TeardownMirrors (cooperative fun _ => 7) 100 2 (twoComponents [20, 10]) := by
  decide

end KernelModules
