import KernelModules.Irq

/-!
# Interrupt requests and frees

`request_irq` and `devm_request_irq` look at the tag of the interrupt number.
`free_irq` and `devm_free_irq` do not : they go to the kernel, which knows nothing of the
module's list, and nothing calls `lkpi_of_free_irq`. So an entry of `lkpi_of_irqs` stays
there, with its resource held and its handler set up (`irqStep_free`), and requests and
frees balance exactly along the runs in which no free is for such an entry
(`irqsBalance_iff`).
-/

namespace KernelModules

variable {σ : Type} (K : IrqKernel σ) (N : Newbus) (k : σ)

/-- What a free is matched by : the device, the interrupt and the argument of the request. -/
abbrev IrqKey := Ptr × UInt32 × Ptr

/-- The key of an entry. -/
def LkpiOfIrq.key (e : LkpiOfIrq) : IrqKey :=
  (e.dev, e.irq, e.arg)

/-- The key of a request. The inlines without a device pass a null one. -/
def IrqOp.requestKey : IrqOp → Option IrqKey
  | .requestIrq irq _ _ arg => some (NULL, irq, arg)
  | .devmRequestIrq dev irq _ _ arg => some (dev, irq, arg)
  | .freeIrq _ _ => none
  | .devmFreeIrq _ _ _ => none

/-- The key of a free. -/
def IrqOp.freeKey : IrqOp → Option IrqKey
  | .freeIrq irq device => some (NULL, irq, device)
  | .devmFreeIrq xdev irq p => some (xdev, irq, p)
  | .requestIrq _ _ _ _ => none
  | .devmRequestIrq _ _ _ _ _ => none

/-- One more call, and the successful tagged requests that no free has matched yet. -/
def track (r : IrqState σ × List IrqKey) (op : IrqOp) : IrqState σ × List IrqKey :=
  ((op.step K N r.1).2,
    match op.requestKey, op.freeKey with
    | some key, _ =>
      if (op.step K N r.1).1 = 0 ∧ lkpiIrqIsOf key.2.1 = true then r.2 ++ [key] else r.2
    | none, some key => r.2.erase key
    | none, none => r.2)

/-- The successful tagged requests of a run that no free has matched. -/
def outstanding (ops : List IrqOp) : List IrqKey :=
  (ops.foldl (track K N) ({ kernel := k }, [])).2

/-- The entry is off the list, its handler torn down and its resource released. -/
structure Gone (e : LkpiOfIrq) (s : IrqState σ) : Prop where
  ofIrqs : e ∉ s.ofIrqs
  handlers : ∀ h ∈ s.handlers, h.arg ≠ e.addr
  held : ⟨N.bsddev e.dev, lkpiIrqOfRid e.irq, e.res⟩ ∉ s.held

/-- Requests and frees balance along a run. -/
structure IrqsBalance (ops : List IrqOp) : Prop where
  /-- A failed request changes neither the list nor the resources held. -/
  failed : ∀ ops' op, ops' ++ [op] <+: ops → op.requestKey ≠ none →
    (op.step K N (irqRun K N k ops')).1 ≠ 0 →
    (irqRun K N k (ops' ++ [op])).ofIrqs = (irqRun K N k ops').ofIrqs ∧
      (irqRun K N k (ops' ++ [op])).held = (irqRun K N k ops').held ∧
      K.held (irqRun K N k (ops' ++ [op])).kernel = K.held (irqRun K N k ops').kernel
  /-- A free undoes the first registration it matches. -/
  freed : ∀ ops' op, ops' ++ [op] <+: ops → ∀ e,
    (irqRun K N k ops').ofIrqs.find? (fun e => some e.key == op.freeKey) = some e →
      Gone N e (irqRun K N k (ops' ++ [op]))
  /-- With everything freed, nothing is left. -/
  empty : ∀ ops', ops' <+: ops → outstanding K N k ops' = [] →
    (irqRun K N k ops').ofIrqs = [] ∧ (irqRun K N k ops').handlers = [] ∧
      (irqRun K N k ops').held = []

/-! ## One call -/

variable {K N k}

/-- A free leaves everything but the kernel's registry alone. -/
theorem irqStep_free {op : IrqOp} {key : IrqKey} (h : op.freeKey = some key) (s : IrqState σ) :
    (op.step K N s).2.ofIrqs = s.ofIrqs ∧ (op.step K N s).2.handlers = s.handlers ∧
      (op.step K N s).2.held = s.held := by
  cases op with
  | requestIrq irq handler flags arg => simp [IrqOp.freeKey] at h
  | devmRequestIrq dev irq handler flags arg => simp [IrqOp.freeKey] at h
  | freeIrq irq device => exact ⟨rfl, rfl, rfl⟩
  | devmFreeIrq xdev irq p => exact ⟨rfl, rfl, rfl⟩

/-- A request is a call of `lkpi_of_request_irq`. -/
theorem irqStep_request {op : IrqOp} {key : IrqKey} (h : op.requestKey = some key) :
    ∃ handler flags, ∀ s : IrqState σ, op.step K N s =
      lkpiOfRequestIrq K N key.1 key.2.1 handler NULL flags key.2.2 s := by
  cases op with
  | requestIrq irq handler flags arg =>
    obtain rfl := Option.some.inj h
    exact ⟨handler, flags, fun _ => rfl⟩
  | devmRequestIrq dev irq handler flags arg =>
    obtain rfl := Option.some.inj h
    exact ⟨handler, flags, fun _ => rfl⟩
  | freeIrq irq device => simp [IrqOp.requestKey] at h
  | devmFreeIrq xdev irq p => simp [IrqOp.requestKey] at h

theorem freeKey_of_requestKey {op : IrqOp} (h : op.requestKey = none) :
    ∃ key, op.freeKey = some key := by
  cases op with
  | requestIrq irq handler flags arg => simp [IrqOp.requestKey] at h
  | devmRequestIrq dev irq handler flags arg => simp [IrqOp.requestKey] at h
  | freeIrq irq device => exact ⟨_, rfl⟩
  | devmFreeIrq xdev irq p => exact ⟨_, rfl⟩

theorem foldl_track_fst (ops : List IrqOp) (r : IrqState σ × List IrqKey) :
    (ops.foldl (track K N) r).1 = ops.foldl (fun s op => (op.step K N s).2) r.1 := by
  induction ops generalizing r with
  | nil => rfl
  | cons op ops ih => exact ih _

theorem outstanding_concat_request {op : IrqOp} {key : IrqKey} (h : op.requestKey = some key)
    (ops : List IrqOp) : outstanding K N k (ops ++ [op]) =
      if (op.step K N (irqRun K N k ops)).1 = 0 ∧ lkpiIrqIsOf key.2.1 = true
      then outstanding K N k ops ++ [key] else outstanding K N k ops := by
  simp only [outstanding, List.foldl_append, List.foldl_cons, List.foldl_nil, track, h,
    foldl_track_fst]
  rfl

theorem outstanding_concat_free {op : IrqOp} {key : IrqKey} (hr : op.requestKey = none)
    (h : op.freeKey = some key) (ops : List IrqOp) :
    outstanding K N k (ops ++ [op]) = (outstanding K N k ops).erase key := by
  simp [outstanding, track, h, hr]

/-! ## Runs -/

/-- No free of the run is for an entry of the list. -/
def FreesNoEntry (K : IrqKernel σ) (N : Newbus) (k : σ) (ops : List IrqOp) : Prop :=
  ∀ ops' op, ops' ++ [op] <+: ops → ∀ e ∈ (irqRun K N k ops').ofIrqs, op.freeKey ≠ some e.key

/-- The list has the outstanding requests, each with one resource and one handler. -/
structure Tracks (K : IrqKernel σ) (N : Newbus) (k : σ) (ops : List IrqOp) : Prop where
  keys : (irqRun K N k ops).ofIrqs.map LkpiOfIrq.key = outstanding K N k ops
  handlers : (irqRun K N k ops).handlers.length = (irqRun K N k ops).ofIrqs.length
  held : (irqRun K N k ops).held.length = (irqRun K N k ops).ofIrqs.length

theorem Tracks.request {ops : List IrqOp} (h : Tracks K N k ops) {op : IrqOp} {key : IrqKey}
    (hop : op.requestKey = some key) : Tracks K N k (ops ++ [op]) := by
  obtain ⟨handler, flags, hstep⟩ := irqStep_request (K := K) (N := N) hop
  have hout := outstanding_concat_request (K := K) (N := N) (k := k) hop ops
  have hrun := irqRun_concat K N k ops op
  rw [hstep] at hout hrun
  rcases lkpiOfRequestIrq_cases K N key.1 key.2.1 handler NULL flags key.2.2 (irqRun K N k ops) with
    ⟨htag, he⟩ | ⟨-, hf⟩ | ⟨htag, -, e, hdev, hirq, harg, ha⟩
  · rw [he] at hrun
    rw [if_neg (by simp [htag])] at hout
    exact ⟨by rw [hrun, hout]; exact h.keys, by rw [hrun]; exact h.handlers,
      by rw [hrun]; exact h.held⟩
  · rw [if_neg fun hr => hf.ret hr.1] at hout
    refine ⟨?_, ?_, ?_⟩
    · rw [hrun, hout, hf.ofIrqs, h.keys]
    · rw [hrun, hf.handlers, hf.ofIrqs, h.handlers]
    · rw [hrun, hf.held, hf.ofIrqs, h.held]
  · rw [if_pos ⟨ha.ret, htag⟩] at hout
    have hkey : e.key = key := by rw [LkpiOfIrq.key, hdev, hirq, harg]
    refine ⟨?_, ?_, ?_⟩
    · rw [hrun, hout, ha.ofIrqs, List.map_append, h.keys, List.map_cons, List.map_nil, hkey]
    · rw [hrun, ha.handlers, ha.ofIrqs, List.length_append, List.length_cons, h.handlers]
      rfl
    · rw [hrun, ha.held, ha.ofIrqs, List.length_append, List.length_cons, h.held]
      rfl

/-- A free that is for no entry is for no outstanding request either. -/
theorem Tracks.free {ops : List IrqOp} (h : Tracks K N k ops) {op : IrqOp} {key : IrqKey}
    (hr : op.requestKey = none) (hop : op.freeKey = some key)
    (hno : ∀ e ∈ (irqRun K N k ops).ofIrqs, op.freeKey ≠ some e.key) :
    Tracks K N k (ops ++ [op]) := by
  obtain ⟨hof, hhand, hheld⟩ := irqStep_free (K := K) (N := N) hop (irqRun K N k ops)
  have hmem : key ∉ outstanding K N k ops := by
    rw [← h.keys, List.mem_map]
    rintro ⟨e, he, rfl⟩
    exact hno e he hop
  refine ⟨?_, ?_, ?_⟩
  · rw [irqRun_concat, hof, outstanding_concat_free hr hop, List.erase_of_not_mem hmem, h.keys]
  · rw [irqRun_concat, hof, hhand, h.handlers]
  · rw [irqRun_concat, hof, hheld, h.held]

theorem FreesNoEntry.of_prefix {ops ops' : List IrqOp} (h : FreesNoEntry K N k ops)
    (hpre : ops' <+: ops) : FreesNoEntry K N k ops' :=
  fun l op hl => h l op (hl.trans hpre)

/-- Along a run whose frees are for no entry, the list has the outstanding requests. -/
theorem tracks_run (ops : List IrqOp) (h : FreesNoEntry K N k ops) : Tracks K N k ops := by
  induction ops using List.reverseRecOn with
  | nil => exact ⟨rfl, rfl, rfl⟩
  | append_singleton ops op ih =>
    have hops := ih (h.of_prefix (List.prefix_append _ _))
    cases hr : op.requestKey with
    | some key => exact hops.request hr
    | none =>
      obtain ⟨key, hkey⟩ := freeKey_of_requestKey hr
      exact hops.free hr hkey (h ops op (List.prefix_refl _))

theorem Tracks.empty {ops : List IrqOp} (h : Tracks K N k ops) (hout : outstanding K N k ops = []) :
    (irqRun K N k ops).ofIrqs = [] ∧ (irqRun K N k ops).handlers = [] ∧
      (irqRun K N k ops).held = [] := by
  have hof : (irqRun K N k ops).ofIrqs = [] := List.map_eq_nil_iff.1 (h.keys.trans hout)
  refine ⟨hof, List.length_eq_zero_iff.1 ?_, List.length_eq_zero_iff.1 ?_⟩
  · rw [h.handlers, hof, List.length_nil]
  · rw [h.held, hof, List.length_nil]

/-- A failed request changes neither the list nor what is held. -/
theorem irqStep_failed
    (hkernel : ∀ xdev irq handler thread flags arg k',
      (K.lkpiRequestIrq xdev irq handler thread flags arg k').1 ≠ 0 →
      K.held (K.lkpiRequestIrq xdev irq handler thread flags arg k').2 = K.held k')
    {op : IrqOp} (hop : op.requestKey ≠ none) (s : IrqState σ) (hret : (op.step K N s).1 ≠ 0) :
    (op.step K N s).2.ofIrqs = s.ofIrqs ∧ (op.step K N s).2.held = s.held ∧
      K.held (op.step K N s).2.kernel = K.held s.kernel := by
  obtain ⟨key, hkey⟩ := Option.ne_none_iff_exists'.1 hop
  obtain ⟨handler, flags, hstep⟩ := irqStep_request (K := K) (N := N) hkey
  rw [hstep] at hret ⊢
  rcases lkpiOfRequestIrq_cases K N key.1 key.2.1 handler NULL flags key.2.2 s with
    ⟨-, he⟩ | ⟨-, hf⟩ | ⟨-, -, e, -, -, -, ha⟩
  · rw [he] at hret ⊢
    exact ⟨rfl, rfl, hkernel _ _ _ _ _ _ _ hret⟩
  · exact ⟨hf.ofIrqs, hf.held, congrArg K.held hf.kernel⟩
  · exact absurd ha.ret hret

/-- Requests and frees balance along a run exactly if no free of the run is for an entry of
`lkpi_of_irqs`. Of the kernel it is assumed that a failed request holds nothing. -/
theorem irqsBalance_iff (K : IrqKernel σ) (N : Newbus) (k : σ)
    (hkernel : ∀ xdev irq handler thread flags arg k',
      (K.lkpiRequestIrq xdev irq handler thread flags arg k').1 ≠ 0 →
      K.held (K.lkpiRequestIrq xdev irq handler thread flags arg k').2 = K.held k')
    (ops : List IrqOp) : IrqsBalance K N k ops ↔ FreesNoEntry K N k ops := by
  constructor
  · intro h ops' op hpre e he hkey
    -- The first entry the free is for is still on the list after it.
    obtain ⟨e', he'⟩ : ∃ e', (irqRun K N k ops').ofIrqs.find?
        (fun e => some e.key == op.freeKey) = some e' := by
      refine Option.isSome_iff_exists.1 (List.find?_isSome.2 ⟨e, he, ?_⟩)
      rw [hkey, beq_self_eq_true]
    have hgone := (h.freed ops' op hpre e' he').ofIrqs
    rw [irqRun_concat, (irqStep_free hkey _).1] at hgone
    exact hgone (List.mem_of_find?_eq_some he')
  · intro h
    constructor
    · intro ops' op _ hop hret
      rw [irqRun_concat]
      exact irqStep_failed hkernel hop _ hret
    · intro ops' op hpre e he
      have hmem := List.mem_of_find?_eq_some he
      have hp := List.find?_some he
      exact absurd (beq_iff_eq.1 hp).symm (h ops' op hpre e hmem)
    · intro ops' hpre hout
      exact (tracks_run ops' (h.of_prefix hpre)).empty hout

/-- The condition, call by call. -/
theorem freesNoEntry_of_take {ops : List IrqOp}
    (h : ∀ i < ops.length, ∀ e ∈ (irqRun K N k (ops.take i)).ofIrqs,
      ops[i]?.bind IrqOp.freeKey ≠ some e.key) : FreesNoEntry K N k ops := by
  rintro ops' op ⟨rest, rfl⟩ e he
  simpa using h ops'.length (by simp) e (by simpa using he)

/-- A kernel that registers untagged interrupts of known devices, each on a resource of the
interrupt's number. -/
def listKernel : IrqKernel (List IrqKey) where
  lkpiRequestIrq xdev irq _ _ _ arg k :=
    if xdev = NULL then (- ENXIO, k) else (0, k ++ [(xdev, irq, arg)])
  lkpiFreeIrq irq arg k := k.eraseP fun key => key.2 == (irq, arg)
  lkpiDevmFreeIrq xdev irq arg k := k.erase (xdev, irq, arg)
  held k := k.map fun key => key.2.1.toNat

/-- A newbus that gives out each resource once. -/
def exclusiveNewbus : Newbus where
  bsddev dev := dev + 1
  busAllocResourceAny held bsddev rid _ :=
    if held.any fun r => r.bsddev == bsddev && r.rid == rid then none else some (1000 + rid)
  busSetupIntr handlers _ _ := (0, 2000 + handlers.length)

/-- An untagged interrupt is requested and freed, and a tagged one is requested twice; the
second request fails. -/
def mixedIrqs : List IrqOp :=
  [.devmRequestIrq 50 33 7 0 9, .devmRequestIrq 50 (lkpiIrqOf 1) 8 0 9,
    .devmRequestIrq 50 (lkpiIrqOf 1) 8 0 9, .devmFreeIrq 50 33 9]

theorem irqsBalance_mixedIrqs : IrqsBalance listKernel exclusiveNewbus [] mixedIrqs := by
  refine (irqsBalance_iff listKernel exclusiveNewbus [] ?_ mixedIrqs).2 ?_
  · intro xdev irq handler thread flags arg k' hret
    by_cases h : xdev = NULL
    · simp [listKernel, h]
    · simp [listKernel, h] at hret
  · exact freesNoEntry_of_take (by decide)

/-- A tagged interrupt is requested and freed. Its entry, its resource and its handler
stay. -/
theorem not_irqsBalance_tagged :
    ¬IrqsBalance listKernel exclusiveNewbus []
        [.devmRequestIrq 50 (lkpiIrqOf 1) 8 0 9, .devmFreeIrq 50 (lkpiIrqOf 1) 9] ∧
      outstanding listKernel exclusiveNewbus []
        [.devmRequestIrq 50 (lkpiIrqOf 1) 8 0 9, .devmFreeIrq 50 (lkpiIrqOf 1) 9] = [] ∧
      (irqRun listKernel exclusiveNewbus []
        [.devmRequestIrq 50 (lkpiIrqOf 1) 8 0 9, .devmFreeIrq 50 (lkpiIrqOf 1) 9]).handlers =
          [⟨51, 1001, 2000, 1⟩] := by
  refine ⟨fun h => ?_, by decide, by decide⟩
  exact absurd (h.empty _ (List.prefix_refl _) (by decide)).2.1 (by decide)

end KernelModules
