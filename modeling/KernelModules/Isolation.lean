import KernelModules.ComponentTrace
import KernelModules.Cooperative

/-!
# Masters and each other's components

A master is isolated from the others (`Registry.Isolated`) if every component bound to a
registered master is named by that master's match list, and every unbind passes the
master and data the component was last bound with, so that
`component_unbind_all(M, ..)` unbinds only components of `M`.

Neither unbind walk looks at the master a component is recorded with, and without a
match list both walks take every component. `KeepsApart` is the condition on a call, in
the state it is made in, that keeps it from touching another master's components;
`isolated_run` says that masters stay isolated along every run whose calls, those from
callbacks included, meet it. Removing a master while another has components bound does
not (`not_isolated_twoMasters`).
-/

namespace KernelModules

open Ledger

variable {env : Env}

/-- Masters hold only components they name, and components are unbound only from the
master, and with the data, of their last successful bind. -/
structure Registry.Isolated (s : Registry) : Prop where
  named : ∀ m ∈ s.masters, ∀ c ∈ s.components, c.bound = true → c.master = m.dev →
    ∃ e ∈ m.entries, e.selects c.dev = true
  honoured : Honoured (ledger s.trace)

/-- A call that touches only the components of its own master. `component_bind_all(M)` may
only bind components every master registered for `M` names, `component_unbind_all(M, d)`
may only reach components bound to `M` with `d`, and a new master names the components
its device already holds. -/
def KeepsApart : Op → Registry → Prop
  | .bindAll M _, s => ∀ c ∈ s.components, c.bound = false → Selected s M c →
      ∀ m ∈ s.masters, m.dev = M → ∃ e ∈ m.entries, e.selects c.dev = true
  | .unbindAll M d, s => ∀ c ∈ s.components, c.bound = true → Selected s M c →
      c.master = M ∧ c.masterData = d
  | .masterAdd M _ l, s => ∀ c ∈ s.components, c.bound = true → c.master = M →
      ∃ e ∈ (l.map ComponentMatch.entries).getD [], e.selects c.dev = true
  | _, _ => True

instance (op : Op) (s : Registry) : Decidable (KeepsApart op s) :=
  match op with
  | .bindAll _ _ => inferInstanceAs (Decidable (∀ c ∈ s.components, _ → _ → ∀ m ∈ s.masters, _ → _))
  | .unbindAll _ _ => inferInstanceAs (Decidable (∀ c ∈ s.components, _ → _ → _))
  | .masterAdd _ _ _ => inferInstanceAs (Decidable (∀ c ∈ s.components, _ → _ → _))
  | .add _ _ => isTrue trivial
  | .del _ _ => isTrue trivial
  | .masterDel _ _ => isTrue trivial

theorem selected_congr {s s' : Registry} (h : s'.masters = s.masters) (M : Ptr)
    {c c' : LkpiComponent} (hd : c'.dev = c.dev) : Selected s' M c' ↔ Selected s M c := by
  simp [Selected, matchFor_congr h, hd]

/-! ## One component -/

theorem ledger_bindOne (env : Env) (M d : Ptr) (c : LkpiComponent) (s : Registry) :
    ledger (bindOne env M d c s).2.trace = ledger s.trace ∨
      ledger (bindOne env M d c s).2.trace = ledger s.trace ++ [.acquire c.addr (M, d)] := by
  rcases bindOne_cases env M d c s with ⟨r, hr, he⟩ | he <;> rw [he]
  · exact Or.inl (by simp [ledger_concat, Event.entry, hr])
  · exact Or.inr (by simp [ledger_concat, Event.entry])

namespace Registry.Isolated

variable {s : Registry}

theorem bindOne (hs : s.Tied) (h : s.Isolated) {M d : Ptr} {c : LkpiComponent}
    (hc : c ∈ s.components)
    (hname : ∀ m ∈ s.masters, m.dev = M → ∃ e ∈ m.entries, e.selects c.dev = true) :
    (bindOne env M d c s).2.Isolated := by
  refine ⟨fun m hm c' hc' hb hM => ?_, ?_⟩
  · rw [bindOne_masters] at hm
    rcases mem_bindOne_cases hs.toWF hc hc' with hc' | rfl
    · exact h.named m hm c' hc' hb hM
    · exact hname m hm hM.symm
  · rcases ledger_bindOne env M d c s with he | he <;> rw [he]
    · exact h.honoured
    · exact h.honoured.concat fun k v hkv => by simp at hkv

theorem unbindOne (hs : s.Tied) (h : s.Isolated) {M d : Ptr} {c : LkpiComponent}
    (hc : c ∈ s.components) (hb : c.bound = true) (hown : c.master = M ∧ c.masterData = d) :
    (unbindOne env M d c s).Isolated := by
  refine ⟨fun m hm c' hc' hb' hM => ?_, ?_⟩
  · rcases mem_unbindOne_cases hs.toWF hc hc' with hc' | rfl
    · exact h.named m hm c' hc' hb' hM
    · simp [LkpiComponent.release] at hb'
  · simp only [KernelModules.unbindOne, updateComponent_trace, log_trace, ledger_concat,
      Event.entry, Option.toList_some]
    refine h.honoured.concat fun k v hkv => ?_
    obtain ⟨rfl, rfl⟩ := Entry.release.inj hkv
    exact (hs.mem_holdings _ _ _).2 ⟨c, hc, rfl, hb, hown⟩

theorem log (h : s.Isolated) {e : Event} (he : e.entry = none) : (s.log e).Isolated :=
  ⟨h.named, by
    rw [log_trace, ledger_concat, he, Option.toList_none, List.append_nil]
    exact h.honoured⟩

theorem componentDel (hs : s.Tied) (h : s.Isolated) (dev ops : Ptr) :
    (componentDel env dev ops s).Isolated := by
  unfold KernelModules.componentDel
  split
  · exact h
  · next c hc =>
    have hmem := List.mem_of_find?_eq_some hc
    have hnamed : ∀ m ∈ s.masters, ∀ c' ∈ (s.unlinkComponent dev ops).components,
        c'.bound = true → c'.master = m.dev → ∃ e ∈ m.entries, e.selects c'.dev = true :=
      fun m hm c' hc' => h.named m hm c' (List.mem_of_mem_eraseP hc')
    dsimp only
    refine log ?_ rfl
    split
    · next hb =>
      refine ⟨hnamed, ?_⟩
      simp only [log_trace, ledger_concat, Event.entry, Option.toList_some]
      refine h.honoured.concat fun k v hkv => ?_
      obtain ⟨rfl, rfl⟩ := Entry.release.inj hkv
      exact (hs.mem_holdings _ _ _).2 ⟨c, hmem, rfl, hb, rfl, rfl⟩
    · exact ⟨hnamed, h.honoured⟩

end Registry.Isolated

/-! ## Runs -/

theorem isolated_bindAll {s : Registry} {M d : Ptr} (hs : s.Tied ∧ s.Isolated)
    (hC : KeepsApart (.bindAll M d) s) :
    (componentBindAll env M d s).2.Tied ∧ (componentBindAll env M d s).2.Isolated := by
  -- the condition at the call holds through the walk, so it goes into the invariant
  refine (componentBindAll_rule (I := fun s => (s.Tied ∧ s.Isolated) ∧ KeepsApart (.bindAll M d) s)
    (fun s h => h.1.1.toWF) (fun s c h hc hb hsel => ⟨⟨h.1.1.bindOne hc, ?_⟩, ?_⟩) ⟨hs, hC⟩).1
  · exact h.1.2.bindOne h.1.1 hc (h.2 c hc hb hsel)
  · intro c' hc' hb' hsel' m hm hM
    rw [bindOne_masters] at hm
    rw [selected_congr (bindOne_masters env M d c s) M rfl] at hsel'
    rcases mem_bindOne_cases h.1.1.toWF hc hc' with hc' | rfl
    · exact h.2 c' hc' hb' hsel' m hm hM
    · simp [LkpiComponent.bindTo] at hb'

theorem isolated_unbindAll {s : Registry} {M d : Ptr} (hs : s.Tied ∧ s.Isolated)
    (hC : KeepsApart (.unbindAll M d) s) :
    (componentUnbindAll env M d s).Tied ∧ (componentUnbindAll env M d s).Isolated := by
  refine (componentUnbindAll_rule
    (I := fun s => (s.Tied ∧ s.Isolated) ∧ KeepsApart (.unbindAll M d) s)
    (fun s h => h.1.1.toWF) (fun s c h hc hb hsel => ⟨⟨h.1.1.unbindOne hc, ?_⟩, ?_⟩) ⟨hs, hC⟩).1
  · exact h.1.2.unbindOne h.1.1 hc hb (h.2 c hc hb hsel)
  · intro c' hc' hb' hsel'
    rw [selected_congr (unbindOne_masters M d c s) M rfl] at hsel'
    rcases mem_unbindOne_cases h.1.1.toWF hc hc' with hc' | rfl
    · exact h.2 c' hc' hb' hsel'
    · simp [LkpiComponent.release] at hb'

theorem isolated_addMaster {s : Registry} {M ops : Ptr} {l : Option ComponentMatch}
    (hs : s.Isolated) (hC : KeepsApart (.masterAdd M ops l) s) :
    (s.addMaster env M ops l).Isolated := by
  have hpush : ∀ s' : Registry, s'.components = s.components → s'.masters = s.masters →
      s'.Isolated → ((s'.malloc env).2.pushMaster s.allocs M ops l).Isolated := by
    intro s' hcs hms hs'
    refine ⟨fun m hm c hc hb hM => ?_, hs'.honoured⟩
    rcases List.mem_append.1 hm with hm | hm
    · exact hs'.named m hm c hc hb hM
    · obtain rfl := List.mem_singleton.1 hm
      exact hC c (hcs ▸ hc) hb hM
  unfold Registry.addMaster
  rcases warnEmpty_cases s M l with hw | hw <;> rw [hw]
  · exact hpush s rfl rfl hs
  · exact hpush _ rfl rfl (hs.log rfl)

theorem isolated_preserves :
    Preserves env KeepsApart fun s => s.Tied ∧ s.Isolated where
  bindAll _ _ hs hC := isolated_bindAll hs hC
  unbindAll _ _ hs hC := isolated_unbindAll hs hC
  log hs he := ⟨hs.1.log he.entry, hs.2.log he.entry⟩
  mark a hs := by
    refine ⟨⟨hs.1.toWF.markBound a, hs.1.2⟩, ⟨fun m hm c hc hb hM => ?_, hs.2.2⟩⟩
    rcases TailQueue.mem_update.1 hm with ⟨hm, -⟩ | ⟨m', hm', -, rfl⟩
    · exact hs.2.named m hm c hc hb hM
    · exact hs.2.named m' hm' c hc hb hM
  malloc hs := ⟨hs.1.malloc, ⟨hs.2.named, hs.2.honoured⟩⟩
  add dev ops hs _ _ := by
    refine ⟨hs.1.addComponent dev ops, ⟨fun m hm c hc hb hM => ?_, ?_⟩⟩
    · rcases List.mem_append.1 hc with hc | hc
      · exact hs.2.named m hm c hc hb hM
      · obtain rfl := List.mem_singleton.1 hc
        simp at hb
    · rw [Registry.addComponent, Registry.pushComponent_trace, ledger_concat]
      simpa [Event.entry] using hs.2.honoured
  addMaster M ops l hs _ hC := ⟨hs.1.addMaster M ops l, isolated_addMaster hs.2 hC⟩
  del dev ops hs _ := ⟨hs.1.componentDel dev ops, hs.2.componentDel hs.1 dev ops⟩
  unlink M ops hs _ := ⟨hs.1.unlinkMaster M ops,
    ⟨fun m hm => hs.2.named m (List.mem_of_mem_eraseP hm), hs.2.honoured⟩⟩

theorem isolated_init : ({} : Registry).Isolated :=
  ⟨by simp, honoured_nil⟩

theorem RunMeets.take {C : Op → Registry → Prop} : ∀ {calls : List Op} {s : Registry} (k : ℕ),
    RunMeets env C calls s → RunMeets env C (calls.take k) s
  | _, _, 0, _ => trivial
  | [], _, _ + 1, _ => trivial
  | _ :: _, _, k + 1, h => ⟨h.1, RunMeets.take k h.2⟩

/-- Masters are isolated in every state of every run whose calls keep them apart. -/
theorem isolated_run (env : Env) (calls : List Op) (h : RunMeets env KeepsApart calls {}) (k : ℕ) :
    (run env (calls.take k)).Isolated :=
  (isolated_preserves.foldl _ ⟨tied_init, isolated_init⟩ (h.take k)).2

/-- Two masters, each naming one component. -/
def twoMasters : List Op :=
  [.masterAdd 100 2 (some (.ofDevs [10])), .add 10 1, .masterAdd 200 2 (some (.ofDevs [20])),
    .add 20 1]

/-- The two masters are isolated while both are registered, also when one unbinds and
a component leaves. -/
theorem isolated_twoMasters :
    (run (cooperative fun M => M + 1) (twoMasters ++ [.unbindAll 100 101, .del 20 1])).Isolated := by
  have h := isolated_run (cooperative fun M => M + 1)
    (twoMasters ++ [.unbindAll 100 101, .del 20 1]) (by decide) 6
  exact h

/-- Removing the first master unbinds the component of the second, and hands its unbind
callback the first master and its data. -/
theorem not_isolated_twoMasters :
    ¬(run (cooperative fun M => M + 1) (twoMasters ++ [.masterDel 100 2])).Isolated := by
  intro h
  have hprefix : ledger ((run (cooperative fun M => M + 1) twoMasters).trace) ++
      [.release 4 (100, 101)] <+:
        ledger (run (cooperative fun M => M + 1) (twoMasters ++ [.masterDel 100 2])).trace := by
    decide
  have hheld := h.honoured _ _ _ hprefix
  revert hheld
  decide

end KernelModules
