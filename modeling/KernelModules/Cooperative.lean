import KernelModules.ComponentRules

/-!
# Match lists over devices, and cooperative callbacks

A driver builds its match list with `component_match_add` and `component_compare_dev`,
one entry per device : `ComponentMatch.ofDevs`. As long as no allocation fails the
calls build exactly that list (`foldl_componentMatchAdd`).

`Env.Cooperative` describes the callbacks the framework is written for : every bind
succeeds, a master's bind calls `component_bind_all` once on itself and its unbind calls
`component_unbind_all` once. `cooperative` is such an environment.
-/

namespace KernelModules

variable {env : Env}

/-! ## Match lists over devices -/

/-- The entry of `component_match_add(dev, match, component_compare_dev, d)`. -/
def LkpiMatchEntry.ofDev (d : Ptr) : LkpiMatchEntry :=
  ⟨componentCompareDev, d⟩

/-- The match list with one entry per device. -/
def ComponentMatch.ofDevs (names : List Ptr) : ComponentMatch :=
  ⟨names.map .ofDev, names.length, (List.length_map _).symm⟩

@[simp] theorem selects_ofDev (d dev : Ptr) :
    (LkpiMatchEntry.ofDev d).selects dev = true ↔ dev = d := by
  simp [LkpiMatchEntry.selects, LkpiMatchEntry.ofDev, componentCompareDev]

@[simp] theorem entries_ofDevs (names : List Ptr) :
    (ComponentMatch.ofDevs names).entries = names.map .ofDev :=
  rfl

/-- The list names the devices in order, none of them missing from the registry. -/
theorem lkpiMatchComplete_ofDevs (names : List Ptr) (cs : List LkpiComponent) :
    lkpiMatchComplete (some (.ofDevs names)) cs = true ↔ ∀ d ∈ names, ∃ c ∈ cs, c.dev = d := by
  simp [lkpiMatchComplete]

/-- One request for each device of `names`, in order. -/
def componentMatchAddDevs (env : Env) (names : List Ptr) (r : Option ComponentMatch × Registry) :
    Option ComponentMatch × Registry :=
  names.foldl (fun r d => componentMatchAdd env r.1 componentCompareDev d r.2) r

/-- The match list for the devices : a null pointer for none, since the list is allocated
with its first entry. -/
def matchOfDevs (names : List Ptr) : Option ComponentMatch :=
  if names = [] then none else some (.ofDevs names)

theorem matchOfDevs_of_ne {names : List Ptr} (h : names ≠ []) :
    matchOfDevs names = some (.ofDevs names) :=
  if_neg h

theorem componentMatchAdd_ofDevs (hmalloc : ∀ n, env.mallocOk n = true) (names : List Ptr)
    (d : Ptr) (s : Registry) :
    ∃ n, s.allocs ≤ n ∧ componentMatchAdd env (matchOfDevs names) componentCompareDev d s =
      (matchOfDevs (names ++ [d]), { s with allocs := n }) := by
  have hne : names ++ [d] ≠ [] := by simp
  rw [matchOfDevs_of_ne hne]
  by_cases h : names = []
  · refine ⟨s.allocs + 2, Nat.le_add_right _ _, ?_⟩
    simp [h, matchOfDevs, componentMatchAdd, Registry.malloc, hmalloc, ComponentMatch.ofDevs,
      LkpiMatchEntry.ofDev]
  · refine ⟨s.allocs + 1, Nat.le_add_right _ _, ?_⟩
    simp [matchOfDevs_of_ne h, componentMatchAdd, Registry.malloc, hmalloc, ComponentMatch.add,
      ComponentMatch.ofDevs, LkpiMatchEntry.ofDev]

/-- If no allocation fails, the requests build the match list for the devices. -/
theorem foldl_componentMatchAdd (hmalloc : ∀ n, env.mallocOk n = true) :
    ∀ (names prev : List Ptr) (s : Registry), ∃ n, s.allocs ≤ n ∧
      componentMatchAddDevs env names (matchOfDevs prev, s) =
        (matchOfDevs (prev ++ names), { s with allocs := n })
  | [], prev, s => ⟨s.allocs, Nat.le_refl _, by simp [componentMatchAddDevs]⟩
  | d :: names, prev, s => by
    obtain ⟨n, hn, hone⟩ := componentMatchAdd_ofDevs hmalloc prev d s
    obtain ⟨n', hn', hrest⟩ := foldl_componentMatchAdd hmalloc names (prev ++ [d])
      { s with allocs := n }
    refine ⟨n', Nat.le_trans hn hn', ?_⟩
    rw [componentMatchAddDevs, List.foldl_cons, hone]
    simpa [componentMatchAddDevs] using hrest

/-! ## Cooperative callbacks -/

/-- Every callback succeeds, masters bind and unbind their own components with the data
`data` gives them, and no allocation fails. -/
structure Env.Cooperative (env : Env) (data : Ptr → Ptr) : Prop where
  hasBind : ∀ ops, (env.componentOps ops).hasBind = true
  bind : ∀ ops tr dev M d, (env.componentOps ops).bind tr dev M d = 0
  hasMasterBind : ∀ ops, (env.masterOps ops).hasBind = true
  masterBind : ∀ ops tr M, (env.masterOps ops).bind tr M = .bindAll M (data M) .done
  hasMasterUnbind : ∀ ops, (env.masterOps ops).hasUnbind = true
  masterUnbind : ∀ ops tr M, (env.masterOps ops).unbind tr M = .unbindAll M (data M) (.done 0)
  malloc : ∀ n, env.mallocOk n = true

namespace Env.Cooperative

variable {data : Ptr → Ptr} (henv : env.Cooperative data)

include henv

theorem componentAdd_eq {dev ops : Ptr} (hd : dev ≠ NULL) (ho : ops ≠ NULL) (s : Registry) :
    componentAdd env dev ops s = (0, lkpiTryBindMasters env (s.addComponent env dev ops)) := by
  simp [componentAdd, hd, ho, henv.hasBind, Registry.malloc, henv.malloc, Registry.addComponent]

theorem componentMasterAddWithMatch_eq {M ops : Ptr} (hM : M ≠ NULL) (ho : ops ≠ NULL)
    (l : Option ComponentMatch) (s : Registry) :
    componentMasterAddWithMatch env M ops l s =
      (0, lkpiTryBindMasters env (s.addMaster env M ops l)) := by
  simp [componentMasterAddWithMatch, hM, ho, Registry.malloc, henv.malloc, Registry.addMaster]

end Env.Cooperative

/-- The cooperative environment for `data`, whose components all have an unbind
callback. -/
def cooperative (data : Ptr → Ptr) : Env where
  componentOps _ := ⟨true, fun _ _ _ _ => 0, true⟩
  masterOps _ := ⟨true, fun _ M => .bindAll M (data M) .done, true,
    fun _ M => .unbindAll M (data M) (.done 0)⟩
  mallocOk _ := true

theorem cooperative_cooperative (data : Ptr → Ptr) : (cooperative data).Cooperative data := by
  constructor <;> intros <;> rfl

end KernelModules
