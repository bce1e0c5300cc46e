import Mathlib.Data.List.Perm.Subperm
import KernelModules.ComponentTrace
import KernelModules.Cooperative

/-!
# Complete and bindable

`lkpi_match_complete` asks of each match entry that some registered component satisfies
it, bound or not, and lets entries share a component. `component_bind_all` gives each
entry a component of its own, unbound until then, and passes over an entry with none left.
So a master can be marked bound with fewer components than its match list has entries.

A walk that succeeds binds the first choices of the entries (`firstChoices`) : in list
order, each entry takes the first unbound component it selects that no earlier entry
took. A master that was just marked bound has a component of its own for every entry if they
can be served in this way, apart from entries that get a component which was already recorded
with the master (`Served`). Where no entry selects both a recorded and an unbound component
this is an equivalence (`assignable_marked_iff`).
-/

namespace KernelModules

variable {env : Env}

/-- Distinct components of `cs`, one for each entry, each selected by its entry. -/
def Assignable (es : List LkpiMatchEntry) (cs : List LkpiComponent) : Prop :=
  ∃ as : List LkpiComponent,
    List.Forall₂ (fun e c => c ∈ cs ∧ e.selects c.dev = true) es as ∧
      (as.map LkpiComponent.addr).Nodup

/-- The components bound and recorded with the master `M`. -/
def Registry.recorded (s : Registry) (M : Ptr) : List LkpiComponent :=
  s.components.filter fun c => c.bound && c.master == M

/-- The unbound components, in registration order. -/
def Registry.unbound (s : Registry) : List LkpiComponent :=
  s.components.filter (!·.bound)

/-- In order, each entry's first choice among the components that are left. -/
def firstChoices : List LkpiMatchEntry → List LkpiComponent → List LkpiComponent
  | [], _ => []
  | e :: es, cs =>
    match cs.find? (e.selects ·.dev) with
    | none => firstChoices es cs
    | some c => c :: firstChoices es (cs.filter (·.addr != c.addr))

/-- The unbound components within the reach of `component_bind_all(M)` : the first choices
of the match list it walks, all of them without one. -/
def Registry.choices (s : Registry) (M : Ptr) : List LkpiComponent :=
  match matchFor s M with
  | none => s.unbound
  | some l => firstChoices l.entries s.unbound

/-! ## Assignments -/

theorem Registry.mem_recorded {s : Registry} {M : Ptr} {c : LkpiComponent} :
    c ∈ s.recorded M ↔ c ∈ s.components ∧ c.bound = true ∧ c.master = M := by
  simp [Registry.recorded]

theorem forall₂_transfer {cs cs' : List LkpiComponent}
    (h : ∀ c ∈ cs, ∃ c' ∈ cs', c'.addr = c.addr ∧ c'.dev = c.dev) {es : List LkpiMatchEntry}
    {as : List LkpiComponent}
    (has : List.Forall₂ (fun e c => c ∈ cs ∧ e.selects c.dev = true) es as) :
    ∃ as' : List LkpiComponent,
      List.Forall₂ (fun e c => c ∈ cs' ∧ e.selects c.dev = true) es as' ∧
        as'.map LkpiComponent.addr = as.map LkpiComponent.addr := by
  induction has with
  | nil => exact ⟨[], .nil, rfl⟩
  | cons hc _ ih =>
    obtain ⟨as', has', haddr⟩ := ih
    obtain ⟨c', hc', ha, hd⟩ := h _ hc.1
    exact ⟨c' :: as', .cons ⟨hc', by rw [hd]; exact hc.2⟩ has', by simp [ha, haddr]⟩

theorem exists_of_forall₂_right {R : LkpiMatchEntry → LkpiComponent → Prop}
    {es : List LkpiMatchEntry} {as : List LkpiComponent} (h : List.Forall₂ R es as)
    {c : LkpiComponent} (hc : c ∈ as) : ∃ e ∈ es, R e c := by
  induction h with
  | nil => exact absurd hc List.not_mem_nil
  | cons hone _ ih =>
    rcases List.mem_cons.1 hc with rfl | hc
    · exact ⟨_, List.mem_cons_self, hone⟩
    · obtain ⟨e, he, hR⟩ := ih hc
      exact ⟨e, List.mem_cons_of_mem _ he, hR⟩

theorem forall₂_imp_of_mem {R S : LkpiMatchEntry → LkpiComponent → Prop}
    {es : List LkpiMatchEntry} {as : List LkpiComponent} (h : List.Forall₂ R es as)
    (himp : ∀ e ∈ es, ∀ c ∈ as, R e c → S e c) : List.Forall₂ S es as := by
  induction h with
  | nil => exact .nil
  | cons hone _ ih =>
    refine .cons (himp _ List.mem_cons_self _ List.mem_cons_self hone) (ih fun e he c hc => ?_)
    exact himp e (List.mem_cons_of_mem _ he) c (List.mem_cons_of_mem _ hc)

/-- Assignments depend on the addresses and devices of the components only. -/
theorem Assignable.transfer {es : List LkpiMatchEntry} {cs cs' : List LkpiComponent}
    (h : ∀ c ∈ cs, ∃ c' ∈ cs', c'.addr = c.addr ∧ c'.dev = c.dev) :
    Assignable es cs → Assignable es cs' := by
  rintro ⟨as, has, hnd⟩
  obtain ⟨as', has', haddr⟩ := forall₂_transfer h has
  exact ⟨as', has', haddr ▸ hnd⟩

/-! ## The walks -/

theorem bindCandidate_eq (s : Registry) (e : LkpiMatchEntry) :
    bindCandidate s e = s.unbound.find? (e.selects ·.dev) := by
  simp [bindCandidate, Registry.unbound, List.find?_filter]

/-- The unbound components that are left once `c` is bound. -/
theorem unbound_bound (s : Registry) (M x : Ptr) (c : LkpiComponent) (e : Event) :
    ((s.log e).updateComponent c.addr (.bindTo M x)).unbound =
      s.unbound.filter (·.addr != c.addr) := by
  simp only [Registry.unbound, Registry.updateComponent_components, Registry.log_components,
    TailQueue.update, List.filter_map, List.filter_filter]
  induction s.components with
  | nil => rfl
  | cons b bs ih =>
    by_cases h : b.addr = c.addr
    · simpa [h, LkpiComponent.bindTo, Function.comp_def] using ih
    · cases hb : b.bound <;> simpa [h, hb, Function.comp_def] using ih

/-- Binding the unbound component `c` records it, and nothing else. -/
theorem mem_recorded_bound {s : Registry} (hs : s.WF) {M x : Ptr} {c : LkpiComponent}
    (hc : c ∈ s.unbound) (e : Event) (c' : LkpiComponent) :
    c' ∈ ((s.log e).updateComponent c.addr (.bindTo M x)).recorded M ↔
      c' ∈ s.recorded M ∨ c' = c.bindTo M x := by
  obtain ⟨hmem, hb⟩ := List.mem_filter.1 hc
  have hupd : c' ∈ TailQueue.update LkpiComponent.addr c.addr (.bindTo M x) s.components ↔
      (c' ∈ s.components ∧ c'.addr ≠ c.addr) ∨ c' = c.bindTo M x :=
    TailQueue.mem_update_iff hs.components_nodup hmem _
  simp only [Registry.mem_recorded, Registry.updateComponent_components, Registry.log_components,
    hupd]
  constructor
  · rintro ⟨⟨h, -⟩ | h, hp⟩
    · exact Or.inl ⟨h, hp⟩
    · exact Or.inr h
  · rintro (⟨h, hcb, hM⟩ | rfl)
    · refine ⟨Or.inl ⟨h, fun ha => ?_⟩, hcb, hM⟩
      rw [List.inj_on_of_nodup_map hs.components_nodup h hmem ha] at hcb
      simp [hcb] at hb
    · exact ⟨Or.inr rfl, rfl, rfl⟩

/-- Along a match list, a walk that returns 0 records the first choices. -/
theorem mem_recorded_bindEntries (M x : Ptr) (c' : LkpiComponent) :
    ∀ (es : List LkpiMatchEntry) (s : Registry), s.WF → (bindEntries env M x es s).1 = 0 →
      (c' ∈ (bindEntries env M x es s).2.recorded M ↔
        c' ∈ s.recorded M ∨ ∃ c ∈ firstChoices es s.unbound, c' = c.bindTo M x)
  | [], s, _, _ => by simp [bindEntries, firstChoices]
  | e :: es, s, hs, hok => by
    rw [bindEntries, bindCandidate_eq] at hok ⊢
    rw [firstChoices]
    cases hf : s.unbound.find? (e.selects ·.dev) with
    | none =>
      simp only [hf] at hok ⊢
      exact mem_recorded_bindEntries M x c' es s hs hok
    | some c =>
      simp only [hf] at hok ⊢
      have hwf := hs.bindOne env M x c
      rcases bindOne_cases env M x c s with ⟨r, hr, he⟩ | he
      · simp [he, hr] at hok
      · simp only [he] at hok hwf ⊢
        rw [mem_recorded_bindEntries M x c' es _ hwf hok, unbound_bound,
          mem_recorded_bound hs (List.mem_of_find?_eq_some hf)]
        simp [or_assoc]

/-- Without a match list, a walk that returns 0 records every unbound component. -/
theorem mem_recorded_bindList (M x : Ptr) (c' : LkpiComponent) :
    ∀ (cs : List LkpiComponent) (s : Registry), s.WF → (∀ c ∈ cs, c ∈ s.components) →
      (cs.map LkpiComponent.addr).Nodup → (bindList env M x cs s).1 = 0 →
      (c' ∈ (bindList env M x cs s).2.recorded M ↔
        c' ∈ s.recorded M ∨ ∃ c ∈ cs.filter (!·.bound), c' = c.bindTo M x)
  | [], s, _, _, _, _ => by simp [bindList]
  | c :: cs, s, hs, hmem, hnd, hok => by
    obtain ⟨hc, hcs⟩ := List.forall_mem_cons.1 hmem
    rw [List.map_cons, List.nodup_cons] at hnd
    rw [bindList] at hok ⊢
    cases hb : c.bound with
    | true =>
      simp only [hb, if_true] at hok ⊢
      simpa [hb] using mem_recorded_bindList M x c' cs s hs hcs hnd.2 hok
    | false =>
      simp only [hb, Bool.false_eq_true, if_false] at hok ⊢
      have hwf := hs.bindOne env M x c
      have hcs' : ∀ a ∈ cs, a ∈ (bindOne env M x c s).2.components := fun a ha =>
        mem_bindOne (hcs a ha) fun h => hnd.1 (h ▸ List.mem_map_of_mem ha)
      rcases bindOne_cases env M x c s with ⟨r, hr, he⟩ | he
      · simp [he, hr] at hok
      · simp only [he] at hok hwf hcs' ⊢
        rw [mem_recorded_bindList M x c' cs _ hwf hcs' hnd.2 hok,
          mem_recorded_bound hs (List.mem_filter.2 ⟨hc, by simp [hb]⟩)]
        simp [hb, or_assoc]

/-- `component_bind_all(M)` that returns 0 records the components within its reach. -/
theorem mem_recorded_componentBindAll {s : Registry} (hs : s.WF) {M x : Ptr}
    (hok : (componentBindAll env M x s).1 = 0) (c' : LkpiComponent) :
    c' ∈ (componentBindAll env M x s).2.recorded M ↔
      c' ∈ s.recorded M ∨ ∃ c ∈ s.choices M, c' = c.bindTo M x := by
  unfold componentBindAll Registry.choices at *
  cases hl : matchFor s M with
  | none =>
    simp only [hl] at hok ⊢
    exact mem_recorded_bindList M x c' _ s hs (fun _ h => h) hs.components_nodup hok
  | some l =>
    simp only [hl] at hok ⊢
    exact mem_recorded_bindEntries M x c' _ s hs hok

/-! ## A master that is marked bound -/

/-- The master has an assignment afterwards if there was one among what it had and the choices. -/
theorem assignable_recorded_iff {s s' : Registry} {M x : Ptr}
    (hrec : ∀ c, c ∈ s'.recorded M ↔ c ∈ s.recorded M ∨ ∃ b ∈ s.choices M, c = b.bindTo M x)
    {es : List LkpiMatchEntry} :
    Assignable es (s'.recorded M) ↔ Assignable es (s.recorded M ++ s.choices M) := by
  refine ⟨Assignable.transfer fun c hc => ?_, Assignable.transfer fun c hc => ?_⟩
  · rcases (hrec c).1 hc with hc | ⟨b, hb, rfl⟩
    · exact ⟨c, List.mem_append_left _ hc, rfl, rfl⟩
    · exact ⟨b, List.mem_append_right _ hb, rfl, rfl⟩
  · rcases List.mem_append.1 hc with hc | hc
    · exact ⟨c, (hrec c).2 (Or.inl hc), rfl, rfl⟩
    · exact ⟨c.bindTo M x, (hrec _).2 (Or.inr ⟨c, hc, rfl⟩), rfl, rfl⟩

/-- The unbound components are distinct, and others than the recorded ones. -/
theorem Registry.WF.unbound_apart {s : Registry} (hs : s.WF) (M : Ptr) :
    (s.unbound.map LkpiComponent.addr).Nodup ∧
      ∀ a ∈ s.recorded M, ∀ b ∈ s.unbound, a.addr ≠ b.addr := by
  refine ⟨hs.components_nodup.sublist (List.filter_sublist.map _), fun a ha b hb haddr => ?_⟩
  obtain ⟨hamem, hab, -⟩ := Registry.mem_recorded.1 ha
  obtain ⟨hbmem, hbb⟩ := List.mem_filter.1 hb
  rw [List.inj_on_of_nodup_map hs.components_nodup hamem hbmem haddr] at hab
  simp [hab] at hbb

/-- An iteration whose bind callback called `component_bind_all` once and got 0. -/
theorem lkpiTryBindMaster_marked {s : Registry} {m : LkpiMaster} (hmb : m.bound = false)
    (hhas : (env.masterOps m.ops).hasBind = true)
    (hcomplete : lkpiMatchComplete m.matchList s.components = true) {x : Ptr} {k : Int → Script}
    (hscript : (env.masterOps m.ops).bind (s.log (.masterBind m.dev)).trace m.dev =
      .bindAll m.dev x k) (hk : k 0 = .done 0)
    (hok : (componentBindAll env m.dev x (s.log (.masterBind m.dev))).1 = 0) :
    lkpiTryBindMaster env s m =
      (componentBindAll env m.dev x (s.log (.masterBind m.dev))).2.markBound m.addr := by
  rw [Registry.log_trace] at hscript
  simp [lkpiTryBindMaster, hmb, hhas, hcomplete, hscript, Script.run, hok, hk]

/-! ## Entries that are served -/

/-- Each entry in turn gets a component of its own : one that is kept, or the first one it selects
among the free ones that are left. -/
inductive Served : List LkpiMatchEntry → List LkpiComponent → List LkpiComponent → Prop where
  | nil (free kept : List LkpiComponent) : Served [] free kept
  | keep {e : LkpiMatchEntry} {es : List LkpiMatchEntry} {free kept : List LkpiComponent}
      {c : LkpiComponent} (hc : c ∈ kept) (hsel : e.selects c.dev = true)
      (hrest : Served es free (kept.filter (·.addr != c.addr))) : Served (e :: es) free kept
  | take {e : LkpiMatchEntry} {es : List LkpiMatchEntry} {free kept : List LkpiComponent}
      {c : LkpiComponent} (hc : free.find? (e.selects ·.dev) = some c)
      (hrest : Served es (free.filter (·.addr != c.addr)) kept) : Served (e :: es) free kept

section Served

variable {free kept : List LkpiComponent}

theorem mem_filter_addr {c : LkpiComponent} {a : Ptr} {cs : List LkpiComponent} :
    c ∈ cs.filter (·.addr != a) ↔ c ∈ cs ∧ c.addr ≠ a := by
  rw [List.mem_filter, bne_iff_ne]

/-- The components that are left when a walk took those at some addresses. -/
def leftOf (taken : List Ptr) (free : List LkpiComponent) : List LkpiComponent :=
  free.filter (·.addr ∉ taken)

theorem mem_leftOf {c : LkpiComponent} {taken : List Ptr} :
    c ∈ leftOf taken free ↔ c ∈ free ∧ c.addr ∉ taken := by
  rw [leftOf, List.mem_filter, decide_eq_true_iff]

theorem leftOf_cons (a : Ptr) (taken : List Ptr) (free : List LkpiComponent) :
    leftOf (a :: taken) free = (leftOf taken free).filter (·.addr != a) := by
  rw [leftOf, leftOf, List.filter_filter]
  refine List.filter_congr fun c _ => ?_
  rw [Bool.eq_iff_iff]
  simp [not_or]

theorem leftOf_filter (a : Ptr) (taken : List Ptr) (free : List LkpiComponent) :
    leftOf taken (free.filter (·.addr != a)) = leftOf (a :: taken) free := by
  rw [leftOf_cons, leftOf, leftOf, List.filter_filter, List.filter_filter]
  exact List.filter_congr fun c _ => Bool.and_comm ..

theorem leftOf_cons_of_mem {a : Ptr} {taken : List Ptr} (ha : a ∈ taken)
    (free : List LkpiComponent) : leftOf (a :: taken) free = leftOf taken free := by
  refine List.filter_congr fun c _ => ?_
  rw [decide_eq_decide, List.mem_cons, not_or]
  exact ⟨fun h => h.2, fun h => ⟨fun heq => h (heq ▸ ha), h⟩⟩

theorem find?_leftOf {taken : List Ptr} {p : LkpiComponent → Bool} {c : LkpiComponent}
    (hc : free.find? p = some c) (htaken : c.addr ∉ taken) :
    (leftOf taken free).find? p = some c := by
  obtain ⟨hp, l₁, l₂, rfl, hl₁⟩ := List.find?_eq_some_iff_append.1 hc
  refine List.find?_eq_some_iff_append.2 ⟨hp, leftOf taken l₁, leftOf taken l₂, ?_,
    fun a ha => hl₁ a (mem_leftOf.1 ha).1⟩
  rw [leftOf, List.filter_append, List.filter_cons_of_pos (by simpa using htaken)]
  rfl

/-- Whatever the walk takes for one entry more, what it takes for the others it takes before or
then. -/
theorem exists_taken_cons (e : LkpiMatchEntry) (es : List LkpiMatchEntry) (taken : List Ptr)
    (hnd : (free.map LkpiComponent.addr).Nodup) : ∃ taken', taken ⊆ taken' ∧ ∀ a ∈ free,
      (a.addr ∈ taken' ∨ a ∈ firstChoices es (leftOf taken' free)) →
        a.addr ∈ taken ∨ a ∈ firstChoices (e :: es) (leftOf taken free) := by
  rw [firstChoices]
  cases hf : (leftOf taken free).find? (e.selects ·.dev) with
  | none => exact ⟨taken, List.Subset.refl taken, fun _ _ => id⟩
  | some b =>
    have hb := (mem_leftOf.1 (List.mem_of_find?_eq_some hf)).1
    refine ⟨b.addr :: taken, List.subset_cons_self _ _, fun a ha hor => ?_⟩
    rw [leftOf_cons, List.mem_cons] at hor
    rcases hor with (haddr | htaken) | hlater
    · rw [List.inj_on_of_nodup_map hnd ha hb haddr]
      exact Or.inr List.mem_cons_self
    · exact Or.inl htaken
    · exact Or.inr (List.mem_cons_of_mem _ hlater)

/-- The same for an entry whose first choice is `c` : then `c` is taken, before or for it. -/
theorem exists_taken_take {e : LkpiMatchEntry} {c : LkpiComponent}
    (hc : free.find? (e.selects ·.dev) = some c) (es : List LkpiMatchEntry) (taken : List Ptr)
    (hnd : (free.map LkpiComponent.addr).Nodup) :
    (c.addr ∈ taken ∨ c ∈ firstChoices (e :: es) (leftOf taken free)) ∧
      ∃ taken', ∀ a ∈ free.filter (·.addr != c.addr), (a.addr ∈ taken' ∨
        a ∈ firstChoices es (leftOf taken' (free.filter (·.addr != c.addr)))) →
          a.addr ∈ taken ∨ a ∈ firstChoices (e :: es) (leftOf taken free) := by
  by_cases htaken : c.addr ∈ taken
  · obtain ⟨taken', hsub, hwalk⟩ := exists_taken_cons e es taken hnd
    refine ⟨Or.inl htaken, taken', fun a ha hor => hwalk a (mem_filter_addr.1 ha).1 ?_⟩
    rwa [leftOf_filter, leftOf_cons_of_mem (hsub htaken)] at hor
  · rw [firstChoices, find?_leftOf hc htaken]
    refine ⟨Or.inr List.mem_cons_self, taken, fun a _ hor => ?_⟩
    rw [leftOf_filter, leftOf_cons] at hor
    exact hor.imp_right fun hlater => List.mem_cons_of_mem _ hlater

theorem nodup_cons_of_forall₂ {R : LkpiMatchEntry → LkpiComponent → Prop}
    {es : List LkpiMatchEntry} {as : List LkpiComponent} {c : LkpiComponent}
    (has : List.Forall₂ R es as) (hne : ∀ {e a}, R e a → a.addr ≠ c.addr)
    (hnd : (as.map LkpiComponent.addr).Nodup) : ((c :: as).map LkpiComponent.addr).Nodup := by
  refine List.nodup_cons.2 ⟨fun hmem => ?_, hnd⟩
  obtain ⟨a, ha, haddr⟩ := List.mem_map.1 hmem
  obtain ⟨e, -, hR⟩ := exists_of_forall₂_right has ha
  exact hne hR haddr

/-- What is served is inside of what the walk takes : the walk also gives components to the entries
that keep one, and may have taken some before. -/
theorem Served.exists_assignment {es : List LkpiMatchEntry} (h : Served es free kept) :
    ∀ taken : List Ptr, (free.map LkpiComponent.addr).Nodup →
      (∀ a ∈ kept, ∀ b ∈ free, a.addr ≠ b.addr) →
      ∃ as : List LkpiComponent,
        List.Forall₂ (fun e c => (c ∈ kept ∨ c ∈ free ∧
          (c.addr ∈ taken ∨ c ∈ firstChoices es (leftOf taken free))) ∧
            e.selects c.dev = true) es as ∧ (as.map LkpiComponent.addr).Nodup := by
  induction h with
  | nil => exact fun _ _ _ => ⟨[], .nil, List.nodup_nil⟩
  | @keep e es free kept c hc hsel hrest ih =>
    intro taken hnd hapart
    -- the walk may take a component for the entry all the same
    obtain ⟨taken', -, hwalk⟩ := exists_taken_cons e es taken hnd
    obtain ⟨as, has, hasnd⟩ := ih taken' hnd fun a ha => hapart a (mem_filter_addr.1 ha).1
    refine ⟨c :: as, .cons ⟨Or.inl hc, hsel⟩ (has.imp fun e a h => ⟨h.1.imp
      (fun hk => (mem_filter_addr.1 hk).1) fun hf => ⟨hf.1, hwalk a hf.1 hf.2⟩, h.2⟩),
      nodup_cons_of_forall₂ has (fun {_ a} h => ?_) hasnd⟩
    rcases h.1 with hk | hf
    · exact (mem_filter_addr.1 hk).2
    · exact (hapart c hc a hf.1).symm
  | @take e es free kept c hc hrest ih =>
    intro taken hnd hapart
    have hcfree := List.mem_of_find?_eq_some hc
    have hsel : e.selects c.dev = true := by simpa using List.find?_some hc
    obtain ⟨hhead, taken', hwalk⟩ := exists_taken_take hc es taken hnd
    obtain ⟨as, has, hasnd⟩ := ih taken' (hnd.sublist (List.filter_sublist.map _))
      fun a ha b hb => hapart a ha b (mem_filter_addr.1 hb).1
    refine ⟨c :: as, .cons ⟨Or.inr ⟨hcfree, hhead⟩, hsel⟩ (has.imp fun e a h =>
      ⟨h.1.imp_right fun hf => ⟨(mem_filter_addr.1 hf.1).1, hwalk a hf.1 hf.2⟩, h.2⟩),
      nodup_cons_of_forall₂ has (fun {_ a} h => ?_) hasnd⟩
    rcases h.1 with hk | hf
    · exact hapart a hk c hcfree
    · exact (mem_filter_addr.1 hf.1).2

theorem Served.assignable {es : List LkpiMatchEntry} (h : Served es free kept)
    (hnd : (free.map LkpiComponent.addr).Nodup)
    (hapart : ∀ a ∈ kept, ∀ b ∈ free, a.addr ≠ b.addr) :
    Assignable es (kept ++ firstChoices es free) := by
  obtain ⟨as, has, hasnd⟩ := h.exists_assignment [] hnd hapart
  have hall : leftOf [] free = free := List.filter_eq_self.2 fun _ _ => rfl
  rw [hall] at has
  refine ⟨as, has.imp fun e c hc => ⟨List.mem_append.2 (hc.1.imp_right fun hf => ?_), hc.2⟩, hasnd⟩
  exact hf.2.resolve_left List.not_mem_nil

theorem mem_of_mem_firstChoices {c : LkpiComponent} :
    ∀ (es : List LkpiMatchEntry) {free : List LkpiComponent}, c ∈ firstChoices es free → c ∈ free
  | [], _, h => absurd h List.not_mem_nil
  | e :: es, free, h => by
    rw [firstChoices] at h
    cases hf : free.find? (e.selects ·.dev) with
    | none =>
      rw [hf] at h
      exact mem_of_mem_firstChoices es h
    | some b =>
      rw [hf] at h
      rcases List.mem_cons.1 h with rfl | h
      · exact List.mem_of_find?_eq_some hf
      · exact (mem_filter_addr.1 (mem_of_mem_firstChoices es h)).1

/-- Entries that select none of the free components, as those of `q`, add no choices. -/
theorem length_firstChoices_le {q : LkpiMatchEntry → Bool} :
    ∀ (es : List LkpiMatchEntry) (free : List LkpiComponent),
      (∀ e ∈ es, q e = true → ∀ c ∈ free, e.selects c.dev = false) →
        (firstChoices es free).length ≤ es.countP fun e => !q e
  | [], _, _ => Nat.le_refl 0
  | e :: es, free, hq => by
    obtain ⟨he, hes⟩ := List.forall_mem_cons.1 hq
    rw [firstChoices]
    cases hf : free.find? (e.selects ·.dev) with
    | none =>
      exact (length_firstChoices_le es free hes).trans (List.sublist_cons_self e es).countP_le
    | some b =>
      have hb := List.mem_of_find?_eq_some hf
      have hsel : e.selects b.dev = true := by simpa using List.find?_some hf
      have hqe : q e = false := Bool.eq_false_iff.2 fun hqe =>
        Bool.false_ne_true ((he hqe b hb).symm.trans hsel)
      have hle := length_firstChoices_le es (free.filter (·.addr != b.addr)) fun e' he' hqe' c hc =>
        hes e' he' hqe' c (mem_filter_addr.1 hc).1
      rw [List.countP_cons_of_pos (by simp [hqe]), List.length_cons]
      exact Nat.succ_le_succ hle

/-- If no choice is missing, the entries are served. -/
theorem served_of_length {q : LkpiMatchEntry → Bool} :
    ∀ {es : List LkpiMatchEntry} {free kept as : List LkpiComponent},
      (∀ e ∈ es, q e = true → ∀ c ∈ free, e.selects c.dev = false) →
      List.Forall₂ (fun e c => q e = true → c ∈ kept ∧ e.selects c.dev = true) es as →
      (as.map LkpiComponent.addr).Nodup →
      (es.countP fun e => !q e) ≤ (firstChoices es free).length → Served es free kept
  | [], _, _, _, _, _, _, _ => .nil ..
  | e :: es, free, kept, _, hq, .cons (b := a) ha has, hnd, hlength => by
    obtain ⟨he, hes⟩ := List.forall_mem_cons.1 hq
    rw [List.map_cons, List.nodup_cons] at hnd
    rw [firstChoices] at hlength
    cases hqe : q e with
    | true =>
      obtain ⟨hkept, hsel⟩ := ha hqe
      have hnone : free.find? (e.selects ·.dev) = none :=
        List.find?_eq_none.2 fun c hc => by simpa using he hqe c hc
      rw [hnone, List.countP_cons_of_neg (by simp [hqe])] at hlength
      have has' : List.Forall₂ (fun e c => q e = true →
          c ∈ kept.filter (·.addr != a.addr) ∧ e.selects c.dev = true) es _ :=
        forall₂_imp_of_mem has fun _ _ c hc h hqe' => ⟨mem_filter_addr.2 ⟨(h hqe').1,
          fun haddr => hnd.1 (haddr ▸ List.mem_map_of_mem hc)⟩, (h hqe').2⟩
      exact .keep hkept hsel (served_of_length hes has' hnd.2 hlength)
    | false =>
      rw [List.countP_cons_of_pos (by simp [hqe])] at hlength
      cases hf : free.find? (e.selects ·.dev) with
      | none =>
        -- without a choice for this entry there are too few
        rw [hf] at hlength
        have hle := length_firstChoices_le es free hes
        exact absurd (hlength.trans hle) (Nat.not_succ_le_self _)
      | some b =>
        rw [hf] at hlength
        refine .take hf (served_of_length (fun e' he' hqe' c hc => ?_) has hnd.2
          (Nat.le_of_succ_le_succ hlength))
        exact hes e' he' hqe' c (mem_filter_addr.1 hc).1

/-- If the walk passes over no entry, all of them are served by the free components alone. -/
theorem served_of_choices : ∀ (es : List LkpiMatchEntry) (free : List LkpiComponent),
    (firstChoices es free).length = es.length → Served es free kept
  | [], _, _ => .nil ..
  | e :: es, free, hlength => by
    rw [firstChoices, List.length_cons] at hlength
    cases hf : free.find? (e.selects ·.dev) with
    | none =>
      have hle := length_firstChoices_le (q := fun _ => false) es free (by simp)
      simp only [hf, Bool.not_false, List.countP_true] at hlength hle
      exact absurd (hlength ▸ hle) (Nat.not_succ_le_self _)
    | some b =>
      rw [hf] at hlength
      exact .take hf (served_of_choices es _ (Nat.succ.inj hlength))

/-- Distinct components of `cs` for the entries outside of `q` are at most as many as `cs`. -/
theorem countP_le_length {q : LkpiMatchEntry → Bool} {es : List LkpiMatchEntry}
    {as cs : List LkpiComponent}
    (has : List.Forall₂ (fun e c => q e = false → c ∈ cs) es as) (hnd : as.Nodup) :
    (es.countP fun e => !q e) ≤ cs.length := by
  obtain ⟨bs, hsub, hlength, hmem⟩ : ∃ bs : List LkpiComponent, bs.Sublist as ∧
      bs.length = (es.countP fun e => !q e) ∧ bs ⊆ cs := by
    clear hnd
    induction has with
    | nil => exact ⟨[], .slnil, rfl, List.nil_subset _⟩
    | @cons e c es as hone _ ih =>
      obtain ⟨bs, hsub, hlength, hmem⟩ := ih
      cases hqe : q e with
      | true =>
        refine ⟨bs, hsub.cons _, ?_, hmem⟩
        rw [List.countP_cons_of_neg (by simp [hqe]), hlength]
      | false =>
        refine ⟨c :: bs, hsub.cons_cons _, ?_, List.cons_subset.2 ⟨hone hqe, hmem⟩⟩
        rw [List.countP_cons_of_pos (by simp [hqe]), List.length_cons, hlength]
  rw [← hlength]
  exact ((hnd.sublist hsub).subperm hmem).length_le

/-- Where no entry selects both a kept and a free component, entries that can be assigned to the
kept components and the choices of the walk are served : an entry that selects a kept component
adds no choice, so that none of the others is without one. -/
theorem served_of_assignable {es : List LkpiMatchEntry}
    (hone : ∀ e ∈ es, (∃ c ∈ kept, e.selects c.dev = true) → ∀ c ∈ free, e.selects c.dev = false)
    (h : Assignable es (kept ++ firstChoices es free)) : Served es free kept := by
  obtain ⟨as, has, hnd⟩ := h
  have hq : ∀ {e : LkpiMatchEntry}, (kept.any fun c => e.selects c.dev) = true ↔
      ∃ c ∈ kept, e.selects c.dev = true := List.any_eq_true
  refine served_of_length (q := fun e => kept.any fun c => e.selects c.dev)
    (fun e he hqe => hone e he (hq.1 hqe)) ?_ hnd (countP_le_length ?_ hnd.of_map)
  · refine forall₂_imp_of_mem has fun e he c _ ⟨hc, hsel⟩ hqe => ⟨?_, hsel⟩
    refine (List.mem_append.1 hc).resolve_right fun hfree => ?_
    exact absurd (hone e he (hq.1 hqe) c (mem_of_mem_firstChoices es hfree)) (by simp [hsel])
  · refine has.imp fun e c ⟨hc, hsel⟩ hqe => (List.mem_append.1 hc).resolve_left fun hkept => ?_
    exact absurd (hq.2 ⟨c, hkept, hsel⟩) (by simp [hqe])

end Served

/-- A master that `lkpi_master_for` finds for its device is marked bound once its bind callback
called `component_bind_all` and got 0. It then has a component of its own for every match entry if
the entries were served by the components recorded with it and by the unbound ones, and only then
where no entry selected one of both. If they were not, the walk passed over an entry. -/
theorem assignable_marked_iff (env : Env) {s : Registry} (hs : s.WF) {m : LkpiMaster}
    (hm : m ∈ s.masters) (hmb : m.bound = false)
    (hhas : (env.masterOps m.ops).hasBind = true)
    (hcomplete : lkpiMatchComplete m.matchList s.components = true) {x : Ptr} {k : Int → Script}
    (hscript : (env.masterOps m.ops).bind (s.log (.masterBind m.dev)).trace m.dev =
      .bindAll m.dev x k) (hk : k 0 = .done 0)
    (hok : (componentBindAll env m.dev x (s.log (.masterBind m.dev))).1 = 0)
    (hfound : matchFor s m.dev = m.matchList) :
    m.mark ∈ (lkpiTryBindMaster env s m).masters ∧
      (Served m.entries s.unbound (s.recorded m.dev) →
        Assignable m.entries ((lkpiTryBindMaster env s m).recorded m.dev)) ∧
      ((∀ e ∈ m.entries, (∃ c ∈ s.recorded m.dev, e.selects c.dev = true) →
          ∀ c ∈ s.unbound, e.selects c.dev = false) →
        (Assignable m.entries ((lkpiTryBindMaster env s m).recorded m.dev) ↔
          Served m.entries s.unbound (s.recorded m.dev))) ∧
      (¬ Served m.entries s.unbound (s.recorded m.dev) →
        (firstChoices m.entries s.unbound).length ≠ m.entries.length) := by
  have hrec : ∀ c, c ∈ (lkpiTryBindMaster env s m).recorded m.dev ↔
      c ∈ s.recorded m.dev ∨ ∃ b ∈ s.choices m.dev, c = b.bindTo m.dev x := by
    rw [lkpiTryBindMaster_marked hmb hhas hcomplete hscript hk hok]
    exact mem_recorded_componentBindAll (hs.log _) hok
  have hmark : m.mark ∈ (lkpiTryBindMaster env s m).masters := by
    rw [lkpiTryBindMaster_marked hmb hhas hcomplete hscript hk hok, Registry.markBound_masters,
      componentBindAll_masters env _ _ (hs.log _)]
    exact TailQueue.mem_update.2 (Or.inr ⟨m, hm, rfl, rfl⟩)
  cases hl : m.matchList with
  | none =>
    have hnil : m.entries = [] := by simp [LkpiMaster.entries, hl]
    have hserved := Served.nil s.unbound (s.recorded m.dev)
    rw [hnil]
    exact ⟨hmark, fun _ => ⟨[], .nil, List.nodup_nil⟩, fun _ => ⟨fun _ => hserved,
      fun _ => ⟨[], .nil, List.nodup_nil⟩⟩, fun hnot => absurd hserved hnot⟩
  | some l =>
    have hentries : m.entries = l.entries := by simp [LkpiMaster.entries, hl]
    have hchoices : s.choices m.dev = firstChoices l.entries s.unbound := by
      rw [Registry.choices, hfound, hl]
    obtain ⟨hnd, hapart⟩ := hs.unbound_apart m.dev
    rw [hentries, assignable_recorded_iff hrec, hchoices]
    refine ⟨hmark, fun hserved => hserved.assignable hnd hapart, fun hone => ?_,
      fun hnot hlength => hnot (served_of_choices _ _ hlength)⟩
    exact ⟨served_of_assignable hone, fun hserved => hserved.assignable hnd hapart⟩

/-- A match list whose two entries select every component. -/
def anyTwo : ComponentMatch :=
  ⟨[⟨fun _ _ => true, 0⟩, ⟨fun _ _ => true, 0⟩], 2, rfl⟩

/-- The state in which master 100 with the match list `anyTwo` is first looked at, after
components with the devices `devs` registered. -/
def anyTwoMaster (devs : List Ptr) : Registry :=
  (run (cooperative fun _ => 7) (devs.map (.add · 1))).addMaster (cooperative fun _ => 7) 100 2
    (some anyTwo)

/-- With two components each entry gets one. -/
theorem assignable_marked_twoDevices :
    Assignable anyTwo.entries ((lkpiTryBindMaster (cooperative fun _ => 7) (anyTwoMaster [10, 20])
      ⟨3, 100, 2, some anyTwo, false⟩).recorded 100) := by
  have hwf : (anyTwoMaster [10, 20]).WF := (tied_run _ _).toWF.addMaster 100 2 _
  have hunbound : (anyTwoMaster [10, 20]).unbound =
    [⟨1, 10, 1, false, NULL, NULL⟩, ⟨2, 20, 1, false, NULL, NULL⟩] := by decide
  have hserved : Served anyTwo.entries (anyTwoMaster [10, 20]).unbound
      ((anyTwoMaster [10, 20]).recorded 100) := by
    rw [hunbound]
    exact .take rfl (.take rfl (.nil ..))
  exact (assignable_marked_iff (cooperative fun _ => 7) hwf
    (m := ⟨3, 100, 2, some anyTwo, false⟩) (List.mem_singleton.2 rfl) rfl rfl rfl
    (x := 7) (k := .done) rfl rfl (by decide) rfl).2.1 hserved

/-- With one component the list is complete and the walk succeeds. The master is marked
bound with a single component for its two entries. -/
theorem not_assignable_oneDevice :
    ((run (cooperative fun _ => 7) [.add 10 1, .masterAdd 100 2 (some anyTwo)]).masters.map
        fun m => (m.dev, m.bound)) = [(100, true)] ∧
      ¬Assignable anyTwo.entries ((run (cooperative fun _ => 7)
        [.add 10 1, .masterAdd 100 2 (some anyTwo)]).recorded 100) := by
  have hrec : (run (cooperative fun _ => 7)
      [.add 10 1, .masterAdd 100 2 (some anyTwo)]).recorded 100 = [⟨1, 10, 1, true, 100, 7⟩] := by
    decide
  refine ⟨by decide, ?_⟩
  rw [hrec]
  rintro ⟨as, has, hnd⟩
  cases has with
  | cons h₁ has =>
    cases has with
    | cons h₂ has =>
      rw [List.mem_singleton.1 h₁.1, List.mem_singleton.1 h₂.1] at hnd
      simp at hnd

end KernelModules
