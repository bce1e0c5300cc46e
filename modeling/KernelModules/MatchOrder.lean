import KernelModules.Cooperative

/-!
# Bring-up along a match list

`component_bind_all` on a match list over distinct devices, all of them registered and
unbound : if every bind callback succeeds, the components are bound in the order of the
list, and no other component is touched (`bindEntries_ofDevs`).
-/

namespace KernelModules

variable {env : Env}

/-- The address of the component with a device. -/
def addrOf (cs : List LkpiComponent) (d : Ptr) : Ptr :=
  ((cs.find? (·.dev == d)).map LkpiComponent.addr).getD NULL

/-- The devices whose bind callback was called for the master `M`, in order. -/
def bindTrace (M : Ptr) (tr : List Event) : List Ptr :=
  tr.filterMap fun
    | .bind _ dev M' _ _ => if M' = M then some dev else none
    | _ => none

@[simp] theorem bindTrace_append (M : Ptr) (tr tr' : List Event) :
    bindTrace M (tr ++ tr') = bindTrace M tr ++ bindTrace M tr' :=
  List.filterMap_append

/-- The components with their devices in `names` bound to `M` with `x`. -/
def bindDevs (names : List Ptr) (M x : Ptr) (c : LkpiComponent) : LkpiComponent :=
  if c.dev ∈ names then c.bindTo M x else c

@[simp] theorem bindDevs_nil (M x : Ptr) : bindDevs [] M x = id :=
  funext fun _ => if_neg List.not_mem_nil

@[simp] theorem bindDevs_dev (names : List Ptr) (M x : Ptr) (c : LkpiComponent) :
    (bindDevs names M x c).dev = c.dev := by
  unfold bindDevs
  split <;> rfl

@[simp] theorem bindDevs_ops (names : List Ptr) (M x : Ptr) (c : LkpiComponent) :
    (bindDevs names M x c).ops = c.ops := by
  unfold bindDevs
  split <;> rfl

@[simp] theorem bindDevs_addr (names : List Ptr) (M x : Ptr) (c : LkpiComponent) :
    (bindDevs names M x c).addr = c.addr := by
  unfold bindDevs
  split <;> rfl

/-- Binding a device and then others. -/
theorem map_bindDevs_cons {d : Ptr} {names : List Ptr} (hd : d ∉ names) (M x : Ptr)
    (cs : List LkpiComponent) :
    (cs.map (bindDevs [d] M x)).map (bindDevs names M x) = cs.map (bindDevs (d :: names) M x) := by
  rw [List.map_map]
  refine List.map_congr_left fun c _ => ?_
  by_cases h : c.dev = d
  · simp [bindDevs, LkpiComponent.bindTo, h, hd]
  · simp [bindDevs, h]

/-- A component for another device is left alone. -/
theorem mem_map_bindDevs_of_ne {cs : List LkpiComponent} {c : LkpiComponent} (hc : c ∈ cs) {d : Ptr}
    (hne : c.dev ≠ d) (M x : Ptr) : c ∈ cs.map (bindDevs [d] M x) :=
  List.mem_map.2 ⟨c, hc, by simp [bindDevs, hne]⟩

theorem addrOf_map_bindDevs (names : List Ptr) (M x : Ptr) (cs : List LkpiComponent) (d : Ptr) :
    addrOf (cs.map (bindDevs names M x)) d = addrOf cs d := by
  simp [addrOf, List.find?_map, Option.map_map, Function.comp_def]

section Distinct

variable {cs : List LkpiComponent} (haddr : (cs.map (·.addr)).Nodup)
  (hdev : (cs.map (·.dev)).Nodup) {c : LkpiComponent}

include haddr hdev

/-- With distinct devices and addresses, a component is told by either. -/
theorem addr_eq_iff_dev_eq (hc : c ∈ cs) {c' : LkpiComponent} (hc' : c' ∈ cs) :
    c'.addr = c.addr ↔ c'.dev = c.dev :=
  ⟨fun h => congrArg _ (List.inj_on_of_nodup_map haddr hc' hc h),
    fun h => congrArg _ (List.inj_on_of_nodup_map hdev hc' hc h)⟩

/-- A write through the address of the component with device `d` is a write to the component with
device `d`. -/
theorem update_eq_map_bindDevs (hc : c ∈ cs) (M x : Ptr) :
    TailQueue.update LkpiComponent.addr c.addr (.bindTo M x) cs =
      cs.map (bindDevs [c.dev] M x) :=
  List.map_congr_left fun _ hc' =>
    if_congr ((addr_eq_iff_dev_eq haddr hdev hc hc').trans List.mem_singleton.symm) rfl rfl

end Distinct

/-- A bind that succeeded, with distinct devices and addresses. -/
theorem updateComponent_bindTo {s : Registry} (haddr : (s.components.map (·.addr)).Nodup)
    (hdev : (s.components.map (·.dev)).Nodup) {c : LkpiComponent} (hc : c ∈ s.components)
    (M x : Ptr) (e : Event) : (s.log e).updateComponent c.addr (.bindTo M x) = { s with
      components := s.components.map (bindDevs [c.dev] M x)
      trace := s.trace ++ [e] } := by
  rw [← update_eq_map_bindDevs haddr hdev hc]
  rfl

theorem bindCandidate_ofDev {s : Registry} (hdev : (s.components.map (·.dev)).Nodup)
    {c : LkpiComponent} (hc : c ∈ s.components) (hb : c.bound = false) :
    bindCandidate s (.ofDev c.dev) = some c := by
  refine TailQueue.find?_eq_some_of_mem hdev hc (by simp [hb]) fun c' hp => ?_
  rw [Bool.and_eq_true, selects_ofDev] at hp
  exact hp.2

theorem addrOf_eq {cs : List LkpiComponent} (hdev : (cs.map (·.dev)).Nodup) {c : LkpiComponent}
    (hc : c ∈ cs) : addrOf cs c.dev = c.addr := by
  have hfind : cs.find? (·.dev == c.dev) = some c :=
    TailQueue.find?_eq_some_of_mem hdev hc (beq_self_eq_true _) fun _ hp => beq_iff_eq.1 hp
  rw [addrOf, hfind]
  rfl

/-- The walk goes on behind an entry whose component was bound. -/
theorem bindEntries_cons_ofDev {s : Registry} (haddr : (s.components.map (·.addr)).Nodup)
    (hdev : (s.components.map (·.dev)).Nodup) {c : LkpiComponent} (hc : c ∈ s.components)
    (hb : c.bound = false) {M x : Ptr} (hret : (bindOne env M x c s).1 = 0)
    (es : List LkpiMatchEntry) : bindEntries env M x (.ofDev c.dev :: es) s =
      bindEntries env M x es { s with
        components := s.components.map (bindDevs [c.dev] M x)
        trace := s.trace ++ [.bind c.addr c.dev M x 0] } := by
  rw [bindEntries, bindCandidate_ofDev hdev hc hb]
  rcases bindOne_cases env M x c s with ⟨r, hr, he⟩ | he
  · rw [he] at hret
    exact absurd hret hr
  · simp only [he, updateComponent_bindTo haddr hdev hc]

/-- Along a match list over distinct devices, all registered and unbound, a successful
`component_bind_all` binds the named components in the order of the list. -/
theorem bindEntries_ofDevs (hbind : ∀ ops tr dev M d, (env.componentOps ops).bind tr dev M d = 0)
    (M x : Ptr) : ∀ (names : List Ptr) (s : Registry), names.Nodup →
      (s.components.map (·.addr)).Nodup → (s.components.map (·.dev)).Nodup →
      (∀ d ∈ names, ∃ c ∈ s.components, c.dev = d ∧ c.bound = false) →
      bindEntries env M x (names.map .ofDev) s = (0, { s with
        components := s.components.map (bindDevs names M x)
        trace := s.trace ++ names.map fun d => .bind (addrOf s.components d) d M x 0 })
  | [], s, _, _, _, _ => by
    simp [bindEntries]
  | d :: names, s, hnd', haddr, hdev, hfree' => by
    obtain ⟨hd, hnd⟩ := List.nodup_cons.1 hnd'
    obtain ⟨⟨c, hc, rfl, hb⟩, hfree⟩ := List.forall_mem_cons.1 hfree'
    have hret : (bindOne env M x c s).1 = 0 := by simp [bindOne, hbind]
    rw [List.map_cons, bindEntries_cons_ofDev haddr hdev hc hb hret,
      bindEntries_ofDevs hbind M x names _ hnd (by simpa [Function.comp_def] using haddr)
        (by simpa [Function.comp_def] using hdev)]
    · dsimp only
      rw [map_bindDevs_cons hd]
      simp [addrOf_eq hdev hc, addrOf_map_bindDevs]
    · intro d' hd'
      obtain ⟨c', hc', rfl, hb'⟩ := hfree d' hd'
      have hne : c'.dev ≠ c.dev := fun h => hd (h ▸ hd')
      exact ⟨c', mem_map_bindDevs_of_ne hc' hne M x, rfl, hb'⟩

/-- The bind callbacks along a match list are calls for its own master, in list order. -/
theorem bindTrace_map_bind (M x M' : Ptr) (names : List Ptr) (a : Ptr → Ptr) :
    bindTrace M' (names.map fun d => .bind (a d) d M x 0) = if M = M' then names else [] := by
  by_cases h : M = M' <;> simp [bindTrace, List.filterMap_map, h]

end KernelModules
