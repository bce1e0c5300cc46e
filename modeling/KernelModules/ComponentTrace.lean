import KernelModules.ComponentRules

/-!
# The trace of a run and the state it leads to

The successful binds and the unbinds of a trace form a ledger (`ledger`) : the key is
the component's address, the terms are the master and the data. `Registry.Tied` says
that the ledger's holdings are exactly the bound components, each with the master and
data it is recorded with. It holds along every run (`tied_run`), so the trace alone
says which components are bound to a master, and in which order they were bound
(`boundTo`).
-/

namespace KernelModules

open Ledger

variable {env : Env}

/-- A successful bind acquires the component, an unbind releases it. -/
def Event.entry : Event → Option (Entry Ptr (Ptr × Ptr))
  | .bind addr _ master data ret => if ret = 0 then some (.acquire addr (master, data)) else none
  | .unbind _ addr _ master data _ => some (.release addr (master, data))
  | _ => none

/-- The successful binds and the unbinds of a trace. -/
def ledger (tr : List Event) : List (Entry Ptr (Ptr × Ptr)) :=
  tr.filterMap Event.entry

theorem ledger_concat (tr : List Event) (e : Event) :
    ledger (tr ++ [e]) = ledger tr ++ e.entry.toList := by
  cases h : e.entry <;> simp [ledger, h]

theorem Event.Quiet.entry {e : Event} (h : e.Quiet) : e.entry = none := by
  cases e <;> first | rfl | exact h.elim

/-- The components bound to `M` after a trace, by address, in the order of their binds. -/
def boundTo (M : Ptr) (tr : List Event) : List Ptr :=
  ((holdings (ledger tr)).filter fun h => h.2.1 == M).map Prod.fst

/-- The holdings of the trace are the bound components. -/
structure Registry.Tied (s : Registry) : Prop extends s.WF where
  mem_holdings : ∀ a M d, (a, (M, d)) ∈ holdings (ledger s.trace) ↔
    ∃ c ∈ s.components, c.addr = a ∧ c.bound = true ∧ c.master = M ∧ c.masterData = d

/-! ## One step -/

namespace Registry.Tied

variable {s : Registry} (h : s.Tied)

include h

/-- An entry of the trace that binds and unbinds nothing changes nothing. -/
theorem log {e : Event} (he : e.entry = none) : (s.log e).Tied := by
  refine ⟨h.toWF.log e, fun a M d => ?_⟩
  rw [Registry.log_trace, ledger_concat, he, Option.toList_none, List.append_nil]
  exact h.mem_holdings a M d

theorem bindOne {M d : Ptr} {c : LkpiComponent} (hc : c ∈ s.components) :
    (bindOne env M d c s).2.Tied := by
  have hwf := h.toWF.bindOne env M d c
  rcases bindOne_cases env M d c s with ⟨r, hr, he⟩ | he
  · rw [he]
    exact h.log (by simp [Event.entry, hr])
  · rw [he] at hwf ⊢
    refine ⟨hwf, fun a M' d' => ?_⟩
    simp only [updateComponent_trace, log_trace, ledger_concat, Event.entry, if_pos,
      Option.toList_some, holdings_concat, mem_post_acquire, h.mem_holdings, Prod.mk.injEq,
      updateComponent_components, log_components, TailQueue.mem_update_iff h.components_nodup hc]
    constructor
    · rintro (⟨⟨c', hc', rfl, hb⟩, hne⟩ | ⟨rfl, rfl, rfl⟩)
      · exact ⟨c', Or.inl ⟨hc', hne⟩, rfl, hb⟩
      · exact ⟨_, Or.inr rfl, rfl, rfl, rfl, rfl⟩
    · rintro ⟨c', ⟨hc', hne⟩ | rfl, rfl, hb, rfl, rfl⟩
      · exact Or.inl ⟨⟨c', hc', rfl, hb, rfl, rfl⟩, hne⟩
      · exact Or.inr ⟨rfl, rfl, rfl⟩

theorem unbindOne {M d : Ptr} {c : LkpiComponent} (hc : c ∈ s.components) :
    (unbindOne env M d c s).Tied := by
  refine ⟨h.toWF.unbindOne M d c, fun a M' d' => ?_⟩
  simp only [KernelModules.unbindOne, updateComponent_trace, log_trace, ledger_concat, Event.entry,
    Option.toList_some, holdings_concat, mem_post_release, h.mem_holdings,
    updateComponent_components, log_components, TailQueue.mem_update_iff h.components_nodup hc]
  constructor
  · rintro ⟨⟨c', hc', rfl, hb⟩, hne⟩
    exact ⟨c', Or.inl ⟨hc', hne⟩, rfl, hb⟩
  · rintro ⟨c', ⟨hc', hne⟩ | rfl, rfl, hb, rfl, rfl⟩
    · exact ⟨⟨c', hc', rfl, hb, rfl, rfl⟩, hne⟩
    · exact absurd hb (by simp [LkpiComponent.release])

theorem malloc : (s.malloc env).2.Tied :=
  ⟨h.toWF.malloc env, h.2⟩

theorem addComponent (dev ops : Ptr) : (s.addComponent env dev ops).Tied := by
  refine ⟨h.toWF.addComponent dev ops, fun a M d => ?_⟩
  simp only [Registry.addComponent, pushComponent_trace, ledger_concat, Event.entry,
    Option.toList_none, List.append_nil, pushComponent_components, List.mem_append,
    List.mem_singleton, malloc_trace, malloc_components]
  rw [h.mem_holdings]
  constructor
  · rintro ⟨c, hc, hp⟩
    exact ⟨c, Or.inl hc, hp⟩
  · rintro ⟨c, hc | rfl, ha, hb, hp⟩
    · exact ⟨c, hc, ha, hb, hp⟩
    · simp at hb

theorem addMaster (M ops : Ptr) (l : Option ComponentMatch) :
    (s.addMaster env M ops l).Tied := by
  refine ⟨h.toWF.addMaster M ops l, ?_⟩
  unfold Registry.addMaster
  rcases warnEmpty_cases s M l with hw | hw <;> rw [hw]
  · exact h.mem_holdings
  · exact (h.log rfl).mem_holdings

theorem unlinkMaster (M ops : Ptr) : (s.unlinkMaster M ops).Tied :=
  ⟨h.toWF.unlinkMaster M ops, h.2⟩

theorem componentDel (dev ops : Ptr) : (componentDel env dev ops s).Tied := by
  unfold KernelModules.componentDel
  split
  · exact h
  · next c hc =>
    have hmem := List.mem_of_find?_eq_some hc
    have herase : ∀ c', c' ∈ (s.unlinkComponent dev ops).components ↔
        c' ∈ s.components ∧ c'.addr ≠ c.addr :=
      fun _ => TailQueue.mem_eraseP_iff h.components_nodup hc
    have hwf := h.toWF.unlinkComponent dev ops
    dsimp only
    refine log ?_ rfl
    split
    · refine ⟨hwf.log _, fun a M d => ?_⟩
      simp only [log_trace, ledger_concat, Event.entry, Option.toList_some, holdings_concat,
        mem_post_release, log_components, herase]
      rw [show (s.unlinkComponent dev ops).trace = s.trace from rfl, h.mem_holdings]
      constructor
      · rintro ⟨⟨c', hc', rfl, hb⟩, hne⟩
        exact ⟨c', ⟨hc', hne⟩, rfl, hb⟩
      · rintro ⟨c', ⟨hc', hne⟩, rfl, hb⟩
        exact ⟨⟨c', hc', rfl, hb⟩, hne⟩
    · next hb =>
      refine ⟨hwf, fun a M d => ?_⟩
      rw [show (s.unlinkComponent dev ops).trace = s.trace from rfl, h.mem_holdings]
      constructor
      · rintro ⟨c', hc', rfl, hb', hp⟩
        refine ⟨c', (herase c').2 ⟨hc', fun ha => hb ?_⟩, rfl, hb', hp⟩
        rw [← List.inj_on_of_nodup_map h.components_nodup hc' hmem ha]
        exact hb'
      · rintro ⟨c', hc', hp⟩
        exact ⟨c', ((herase c').1 hc').1, hp⟩

end Registry.Tied

/-! ## Runs -/

theorem tied_init : ({} : Registry).Tied :=
  ⟨wf_init, by simp [ledger]⟩

theorem tied_preserves (C : Op → Registry → Prop) : Preserves env C Registry.Tied where
  bindAll _ _ hs _ :=
    componentBindAll_rule (fun _ h => h.toWF) (fun _ _ h hc _ _ => h.bindOne hc) hs
  unbindAll _ _ hs _ :=
    componentUnbindAll_rule (fun _ h => h.toWF) (fun _ _ h hc _ _ => h.unbindOne hc) hs
  log hs he := hs.log he.entry
  mark a hs := ⟨hs.toWF.markBound a, hs.2⟩
  malloc hs := hs.malloc
  add dev ops hs _ _ := hs.addComponent dev ops
  addMaster M ops l hs _ _ := hs.addMaster M ops l
  del dev ops hs _ := hs.componentDel dev ops
  unlink M ops hs _ := hs.unlinkMaster M ops

/-- Along every run, the trace and the state agree on what is bound. -/
theorem tied_run (env : Env) (calls : List Op) : (run env calls).Tied :=
  (tied_preserves fun _ _ => True).foldl calls tied_init (runMeets_true calls _)

end KernelModules
