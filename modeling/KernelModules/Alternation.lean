import KernelModules.ComponentTrace
import KernelModules.Cooperative

/-!
# Bind and unbind take turns

`component_bind_all` tests the bound flag of a component before it binds it,
`component_unbind_all` before it unbinds it, and `component_del` before it frees it. Along every
run the flag says what the trace says (`tied_run`), so a component is bound only while it is not
bound, unbound only while it is, and not freed while it is (`takesTurns_run`).

With masters that are not null and components that have an unbind callback, this reads off the
calls of the callbacks and the recorded masters (`callbacksAlternate_run`).
-/

namespace KernelModules

open Ledger

variable {env : Env}

/-! ## Binds and unbinds in turn -/

/-- Only unbound components are bound, only bound ones are unbound, and no component is freed while
it is bound. -/
structure TakesTurns (tr : List Event) : Prop where
  consistent : Consistent (ledger tr)
  freed : ∀ tr₁ a, tr₁ ++ [.free a] <+: tr → ∀ v, (a, v) ∉ holdings (ledger tr₁)

namespace TakesTurns

theorem nil : TakesTurns [] :=
  ⟨consistent_nil, fun tr₁ a h => by simp at h⟩

variable {tr : List Event} (h : TakesTurns tr)

include h

theorem concat {e : Event}
    (hentry : ∀ x, e.entry = some x →
      ((∃ v, (x.key, v) ∈ holdings (ledger tr)) ↔ x.turn = .release))
    (hfree : ∀ a, e = .free a → ∀ v, (a, v) ∉ holdings (ledger tr)) : TakesTurns (tr ++ [e]) := by
  refine ⟨?_, fun tr₁ a hl => ?_⟩
  · rw [ledger_concat]
    cases hx : e.entry with
    | none => simpa using h.consistent
    | some x => exact consistent_concat_iff.2 ⟨h.consistent, hentry x hx⟩
  · rcases concat_prefix_concat_iff.1 hl with ⟨rfl, heq⟩ | hpre
    · exact hfree a heq.symm
    · exact h.freed tr₁ a hpre

theorem concat_entry {e : Event} {x : Entry Ptr (Ptr × Ptr)} (he : e.entry = some x)
    (hx : (∃ v, (x.key, v) ∈ holdings (ledger tr)) ↔ x.turn = .release) : TakesTurns (tr ++ [e]) := by
  refine h.concat (fun y hy => ?_) fun a ha => ?_
  · obtain rfl := Option.some.inj (he.symm.trans hy)
    exact hx
  · rw [ha] at he
    exact absurd he (by simp [Event.entry])

theorem concat_free {a : Ptr} (ha : ∀ v, (a, v) ∉ holdings (ledger tr)) :
    TakesTurns (tr ++ [.free a]) :=
  h.concat (fun x hx => by simp [Event.entry] at hx) fun a' ha' => by
    obtain rfl := Event.free.inj ha'
    exact ha

/-- An entry that is neither a bind, nor an unbind, nor a free. -/
theorem concat_of_ne {e : Event} (he : e.entry = none) (hne : ∀ a, e ≠ .free a) :
    TakesTurns (tr ++ [e]) :=
  h.concat (fun x hx => by simp [he] at hx) fun a ha => absurd ha (hne a)

end TakesTurns

/-! ## One step -/

section Steps

variable {s : Registry} (hs : s.Tied)

include hs

/-- A component of the list is held exactly if it is bound. -/
theorem Registry.Tied.held_iff {c : LkpiComponent} (hc : c ∈ s.components) :
    (∃ v, (c.addr, v) ∈ holdings (ledger s.trace)) ↔ c.bound = true := by
  constructor
  · rintro ⟨⟨M, d⟩, hv⟩
    obtain ⟨c', hc', haddr, hb, -, -⟩ := (hs.mem_holdings _ _ _).1 hv
    rwa [← List.inj_on_of_nodup_map hs.components_nodup hc' hc haddr]
  · exact fun hb => ⟨(c.master, c.masterData),
      (hs.mem_holdings _ _ _).2 ⟨c, hc, rfl, hb, rfl, rfl⟩⟩

variable (h : TakesTurns s.trace)

include h

theorem takesTurns_bindOne {M d : Ptr} {c : LkpiComponent} (hc : c ∈ s.components)
    (hb : c.bound = false) : TakesTurns (bindOne env M d c s).2.trace := by
  rcases bindOne_cases env M d c s with ⟨r, hr, he⟩ | he <;> rw [he]
  · exact h.concat_of_ne (by simp [Event.entry, hr]) (by simp)
  · refine h.concat_entry (x := .acquire c.addr (M, d)) (by simp [Event.entry]) ?_
    rw [Entry.key, hs.held_iff hc, hb]
    simp [Entry.turn]

theorem takesTurns_unbindOne {M d : Ptr} {c : LkpiComponent} (hc : c ∈ s.components)
    (hb : c.bound = true) : TakesTurns (unbindOne env M d c s).trace := by
  refine h.concat_entry (x := .release c.addr (M, d)) rfl ?_
  rw [Entry.key, hs.held_iff hc, hb]
  exact iff_of_true rfl rfl

theorem takesTurns_componentDel (dev ops : Ptr) : TakesTurns (componentDel env dev ops s).trace := by
  unfold componentDel
  split
  · exact h
  next c hc =>
  have hmem := List.mem_of_find?_eq_some hc
  have hheld := hs.held_iff hmem
  dsimp only
  split
  · next hb =>
    refine (h.concat_entry (x := .release c.addr (c.master, c.masterData)) rfl ?_).concat_free ?_
    · rw [Entry.key, hheld, hb]
      exact iff_of_true rfl rfl
    · intro v hv
      simp [ledger_concat, Event.entry, mem_post_release] at hv
  · next hb => exact h.concat_free fun v hv => hb (hheld.1 ⟨v, hv⟩)

end Steps

/-! ## Runs -/

theorem takesTurns_preserves (C : Op → Registry → Prop) :
    Preserves env C fun s => s.Tied ∧ TakesTurns s.trace where
  bindAll _ _ hs _ :=
    componentBindAll_rule (I := fun s => s.Tied ∧ TakesTurns s.trace) (fun _ h => h.1.toWF)
      (fun _ _ h hc hb _ => ⟨h.1.bindOne hc, takesTurns_bindOne h.1 h.2 hc hb⟩) hs
  unbindAll _ _ hs _ :=
    componentUnbindAll_rule (I := fun s => s.Tied ∧ TakesTurns s.trace) (fun _ h => h.1.toWF)
      (fun _ _ h hc hb _ => ⟨h.1.unbindOne hc, takesTurns_unbindOne h.1 h.2 hc hb⟩) hs
  log hs he := ⟨hs.1.log he.entry, hs.2.concat_of_ne he.entry fun a ha => by rw [ha] at he; exact he⟩
  mark a hs := ⟨⟨hs.1.toWF.markBound a, hs.1.mem_holdings⟩, hs.2⟩
  malloc hs := ⟨hs.1.malloc, hs.2⟩
  add dev ops hs _ _ := ⟨hs.1.addComponent dev ops, hs.2.concat_of_ne rfl (by simp)⟩
  addMaster {s} M ops l hs _ _ := by
    refine ⟨hs.1.addMaster M ops l, ?_⟩
    unfold Registry.addMaster
    rcases warnEmpty_cases s M l with hw | hw <;> rw [hw]
    · exact hs.2
    · exact hs.2.concat_of_ne rfl (by simp)
  del dev ops hs _ := ⟨hs.1.componentDel dev ops, takesTurns_componentDel hs.1 hs.2 dev ops⟩
  unlink M ops hs _ := ⟨hs.1.unlinkMaster M ops, hs.2⟩

/-- Along every run, components are bound while they are not bound, and unbound while they are. -/
theorem takesTurns_run (env : Env) (calls : List Op) : TakesTurns (run env calls).trace :=
  ((takesTurns_preserves fun _ _ => True).foldl calls ⟨tied_init, TakesTurns.nil⟩
    (runMeets_true calls _)).2

/-! ## Callbacks -/

/-- A callback of a component. -/
inductive Callback where
  | bind
  | unbind
deriving DecidableEq, Repr

/-- The bind calls that succeeded and the unbind calls on the component at the address `a`. -/
def componentCalls (a : Ptr) (tr : List Event) : List Callback :=
  tr.filterMap fun
    | .bind addr _ _ _ ret => if addr = a ∧ ret = 0 then some .bind else none
    | .unbind _ addr _ _ _ called => if addr = a ∧ called = true then some .unbind else none
    | _ => none

/-- The callback that an entry of the ledger stands for. -/
def Callback.ofTurn : Turn → Callback
  | .acquire => .bind
  | .release => .unbind

theorem Callback.ofTurn_injective : Function.Injective Callback.ofTurn := by
  rintro (_ | _) (_ | _) h <;> first | rfl | exact absurd h (by decide)

/-- No unbind is without a call. -/
def Called (tr : List Event) : Prop :=
  ∀ cause a dev M d called, .unbind cause a dev M d called ∈ tr → called = true

theorem componentCalls_append (a : Ptr) (tr tr' : List Event) :
    componentCalls a (tr ++ tr') = componentCalls a tr ++ componentCalls a tr' :=
  List.filterMap_append

theorem Called.of_prefix {tr tr₁ : List Event} (h : Called tr) (hpre : tr₁ <+: tr) : Called tr₁ :=
  fun cause a dev M d called hmem => h cause a dev M d called (hpre.subset hmem)

theorem called_append {tr tr' : List Event} : Called (tr ++ tr') ↔ Called tr ∧ Called tr' := by
  simp only [Called, List.mem_append, or_imp, forall_and]

theorem called_of_quiet {e : Event} (h : e.Quiet) : Called [e] := by
  rintro cause a dev M d called hmem
  obtain rfl := List.mem_singleton.1 hmem
  exact h.elim

theorem componentCalls_singleton {e : Event} (h : Called [e]) (a : Ptr) :
    componentCalls a [e] = (turns a e.entry.toList).map .ofTurn := by
  cases e with
  | bind addr dev M d ret =>
    by_cases hret : ret = 0
    · by_cases ha : addr = a <;>
        simp [componentCalls, turns, Event.entry, Entry.key, Entry.turn, Callback.ofTurn, hret, ha]
    · simp [componentCalls, Event.entry, hret]
  | unbind cause addr dev M d called =>
    obtain rfl := h cause addr dev M d called (List.mem_singleton_self _)
    by_cases ha : addr = a <;>
      simp [componentCalls, turns, Event.entry, Entry.key, Entry.turn, Callback.ofTurn, ha]
  | _ => rfl

/-- If every unbind calls, the calls are the entries of the ledger. -/
theorem componentCalls_eq {tr : List Event} (h : Called tr) (a : Ptr) :
    componentCalls a tr = (turns a (ledger tr)).map .ofTurn := by
  induction tr using List.reverseRecOn with
  | nil => rfl
  | append_singleton tr e ih =>
    obtain ⟨h, he⟩ := called_append.1 h
    rw [componentCalls_append, ih h, componentCalls_singleton he, ledger_concat, turns_append,
      List.map_append]

/-- Masters are not null, and components that are registered have an unbind callback. -/
def NonNull (env : Env) : Op → Registry → Prop
  | .add dev ops, s => (componentAdd env dev ops s).1 = 0 → (env.componentOps ops).hasUnbind = true
  | .bindAll M _, _ => M ≠ NULL
  | _, _ => True

instance (env : Env) (op : Op) (s : Registry) : Decidable (NonNull env op s) :=
  match op with
  | .add _ _ => inferInstanceAs (Decidable (_ → _))
  | .bindAll _ _ => inferInstanceAs (Decidable (_ ≠ _))
  | .del _ _ | .unbindAll _ _ | .masterAdd _ _ _ | .masterDel _ _ => isTrue trivial

/-- A component with an unbind callback that has a master exactly if it is bound. -/
structure LkpiComponent.Regular (env : Env) (c : LkpiComponent) : Prop where
  master_iff : c.master ≠ NULL ↔ c.bound = true
  hasUnbind : (env.componentOps c.ops).hasUnbind = true

theorem LkpiComponent.Regular.bindTo {c : LkpiComponent} (h : c.Regular env) {M : Ptr}
    (hM : M ≠ NULL) (d : Ptr) : (c.bindTo M d).Regular env :=
  ⟨iff_of_true hM rfl, h.hasUnbind⟩

theorem LkpiComponent.Regular.release {c : LkpiComponent} (h : c.Regular env) :
    c.release.Regular env :=
  ⟨iff_of_false (not_not.2 rfl) Bool.false_ne_true, h.hasUnbind⟩

/-- The components are regular, and every unbind called. -/
structure Registry.Regular (env : Env) (s : Registry) : Prop extends s.WF where
  components : ∀ c ∈ s.components, c.Regular env
  called : Called s.trace

theorem regular_init : ({} : Registry).Regular env :=
  ⟨wf_init, by simp, by simp [Called]⟩

namespace Registry.Regular

variable {s : Registry} (h : s.Regular env)

include h

theorem log {e : Event} (he : Called [e]) : (s.log e).Regular env :=
  ⟨h.toWF.log e, h.components, called_append.2 ⟨h.called, he⟩⟩

theorem bindOne {M d : Ptr} (hM : M ≠ NULL) {c : LkpiComponent} (hc : c ∈ s.components) :
    (bindOne env M d c s).2.Regular env := by
  refine ⟨h.toWF.bindOne env M d c, fun c' hc' => ?_, ?_⟩
  · rcases mem_bindOne_cases h.toWF hc hc' with hc' | rfl
    · exact h.components c' hc'
    · exact (h.components c hc).bindTo hM d
  · rcases bindOne_cases env M d c s with ⟨r, -, he⟩ | he <;> rw [he]
    · exact called_append.2 ⟨h.called, by simp [Called]⟩
    · exact called_append.2 ⟨h.called, by simp [Called]⟩

theorem unbindOne {M d : Ptr} {c : LkpiComponent} (hc : c ∈ s.components) :
    (unbindOne env M d c s).Regular env := by
  refine ⟨h.toWF.unbindOne M d c, fun c' hc' => ?_, ?_⟩
  · rcases mem_unbindOne_cases h.toWF hc hc' with hc' | rfl
    · exact h.components c' hc'
    · exact (h.components c hc).release
  · exact called_append.2 ⟨h.called, by simp [Called, (h.components c hc).hasUnbind]⟩

theorem addComponent (dev : Ptr) {ops : Ptr} (hops : (env.componentOps ops).hasUnbind = true) :
    (s.addComponent env dev ops).Regular env := by
  refine ⟨h.toWF.addComponent dev ops, fun c hc => ?_, ?_⟩
  · rcases List.mem_append.1 hc with hc | hc
    · exact h.components c hc
    · rw [List.mem_singleton.1 hc]
      exact ⟨iff_of_false (not_not.2 rfl) Bool.false_ne_true, hops⟩
  · exact called_append.2 ⟨h.called, by simp [Called]⟩

theorem addMaster (M ops : Ptr) (l : Option ComponentMatch) :
    (s.addMaster env M ops l).Regular env := by
  refine ⟨h.toWF.addMaster M ops l, ?_, ?_⟩
  · rw [addMaster_components]
    exact h.components
  · obtain ⟨evs, htrace, hevs⟩ := addMaster_trace env s M ops l
    rw [htrace]
    refine called_append.2 ⟨h.called, fun cause a dev M d called hmem => ?_⟩
    exact absurd (hevs _ hmem) (by simp)

theorem componentDel (dev ops : Ptr) : (componentDel env dev ops s).Regular env := by
  have hunlink : (s.unlinkComponent dev ops).Regular env :=
    ⟨h.toWF.unlinkComponent dev ops, fun c hc => h.components c (List.mem_of_mem_eraseP hc),
      h.called⟩
  unfold KernelModules.componentDel
  split
  · exact h
  next c hc =>
  have hcalls := (h.components c (List.mem_of_find?_eq_some hc)).hasUnbind
  dsimp only
  refine log ?_ (by simp [Called])
  split
  · exact hunlink.log (by simp [Called, hcalls])
  · exact hunlink

end Registry.Regular

/-- The condition on a call under which the step lemmas of `Registry.Regular` apply. -/
def NonNullOps (env : Env) : Op → Registry → Prop
  | .add _ ops, _ => (env.componentOps ops).hasUnbind = true
  | op, s => NonNull env op s

theorem regular_preserves : Preserves env (NonNullOps env) (Registry.Regular env) where
  bindAll _ _ hs hM :=
    componentBindAll_rule (fun _ h => h.toWF) (fun _ _ h hc _ _ => h.bindOne hM hc) hs
  unbindAll _ _ hs _ :=
    componentUnbindAll_rule (fun _ h => h.toWF) (fun _ _ h hc _ _ => h.unbindOne hc) hs
  log hs he := hs.log (called_of_quiet he)
  mark a hs := ⟨hs.toWF.markBound a, hs.components, hs.called⟩
  malloc hs := ⟨hs.toWF.malloc env, hs.components, hs.called⟩
  add dev _ hs _ hops := hs.addComponent dev hops
  addMaster M ops l hs _ _ := hs.addMaster M ops l
  del dev ops hs _ := hs.componentDel dev ops
  unlink M ops hs _ := ⟨hs.toWF.unlinkMaster M ops, hs.components, hs.called⟩

/-- A `component_add` that is refused registers nothing, whatever its operations. -/
theorem regular_step {op : Op} {s : Registry} (hs : s.Regular env)
    (h : op.Meets env (NonNull env) s) : (op.step env s).Regular env := by
  have hbind : ∀ M d s, NonNull env (.bindAll M d) s → NonNullOps env (.bindAll M d) s :=
    fun _ _ _ hM => hM
  have hunbind : ∀ M d s, NonNull env (.unbindAll M d) s → NonNullOps env (.unbindAll M d) s :=
    fun _ _ _ hM => hM
  have hstep : (NonNull env op s → NonNullOps env op s) → (op.step env s).Regular env :=
    fun hop => regular_preserves.step hs (Op.Meets.imp hbind hunbind h hop)
  cases op with
  | add dev ops =>
    rcases componentAdd_cases env dev ops s with he | he | ⟨-, -, -, -, he⟩
    · rw [Op.step, he]
      exact hs
    · rw [Op.step, he]
      exact regular_preserves.malloc hs
    · exact hstep fun hop => hop (by rw [he])
  | del dev ops => exact hstep fun hop => hop
  | bindAll M d => exact hstep fun hop => hop
  | unbindAll M d => exact hstep fun hop => hop
  | masterAdd M ops l => exact hstep fun hop => hop
  | masterDel M ops => exact hstep fun hop => hop

theorem regular_run : ∀ (calls : List Op) {s : Registry}, s.Regular env →
    RunMeets env (NonNull env) calls s →
    (calls.foldl (fun s op => op.step env s) s).Regular env
  | [], _, hs, _ => hs
  | _ :: calls, _, hs, h => regular_run calls (regular_step hs h.1) h.2

/-! ## Alternation -/

/-- Successful binds and unbinds of a component alternate, a bind comes first, and the flag and the
recorded master say which one was last. A component that is freed was not bound last. -/
structure CallbacksAlternate (s : Registry) : Prop where
  alternates : ∀ a, Alternates .bind (componentCalls a s.trace)
  bound_iff : ∀ c ∈ s.components,
    c.bound = true ↔ (componentCalls c.addr s.trace).getLast? = some .bind
  master_iff : ∀ c ∈ s.components, c.master ≠ NULL ↔ c.bound = true
  freed : ∀ tr a, tr ++ [.free a] <+: s.trace → (componentCalls a tr).getLast? ≠ some .bind

/-- The last call is a bind exactly if the component is held. -/
theorem getLast?_componentCalls {tr : List Event} (h : Called tr) (a : Ptr) :
    (componentCalls a tr).getLast? = some .bind ↔ ∃ v, (a, v) ∈ holdings (ledger tr) := by
  rw [componentCalls_eq h, List.getLast?_map, exists_mem_holdings_iff]
  exact (Option.map_injective Callback.ofTurn_injective).eq_iff' rfl

/-- In every run with masters that are not null and components that have an unbind callback, the
callbacks of each component alternate. -/
theorem callbacksAlternate_run (env : Env) (calls : List Op)
    (h : RunMeets env (NonNull env) calls {}) : CallbacksAlternate (run env calls) := by
  have htied := tied_run env calls
  have hturns := takesTurns_run env calls
  have hreg : (run env calls).Regular env := regular_run calls regular_init h
  refine ⟨fun a => ?_, fun c hc => ?_, fun c hc => (hreg.components c hc).master_iff,
    fun tr a hpre => ?_⟩
  · rw [componentCalls_eq hreg.called]
    exact (hturns.consistent.alternates a).map Callback.ofTurn_injective
  · rw [getLast?_componentCalls hreg.called, htied.held_iff hc]
  · rw [Ne, getLast?_componentCalls (hreg.called.of_prefix ((List.prefix_append _ _).trans hpre))]
    rintro ⟨v, hv⟩
    exact hturns.freed tr a hpre v hv

/-- The component on the device 20 does not bind until a master has failed. A master that fails
unbinds what it bound. -/
def flaky : Env where
  componentOps _ :=
    ⟨true, fun tr dev _ _ => if dev = 20 ∧ .masterBindFailed 5 ∉ tr then 5 else 0, true⟩
  masterOps _ := ⟨true, fun _ M => .bindAll M 7 fun ret =>
    if ret = 0 then .done 0 else .unbindAll M 7 (.done ret), true,
    fun _ M => .unbindAll M 7 (.done 0)⟩
  mallocOk _ := true

/-- The first component is bound twice, and removed while it is bound. -/
def flakyCalls : List Op :=
  [.masterAdd 100 1 (some (.ofDevs [10, 20])), .add 10 1, .add 20 1, .add 30 1, .del 10 1,
    .masterDel 100 1]

theorem callbacksAlternate_flaky : CallbacksAlternate (run flaky flakyCalls) ∧
    componentCalls 2 (run flaky flakyCalls).trace = [.bind, .unbind, .bind, .unbind] :=
  ⟨callbacksAlternate_run flaky flakyCalls (by decide), by decide⟩

end KernelModules
