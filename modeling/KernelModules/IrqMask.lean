import KernelModules.Interleaving
import KernelModules.Irq

/-!
# Masking interrupts

`enable_irq`, `disable_irq` and `disable_irq_nosync` of `linux/interrupt.h` hand every interrupt
number to the kernel, which knows nothing of the interrupts on `lkpi_of_irqs`, and
`IRQF_NO_AUTOEN` is zero (`lkpi_drm.h`), so a request cannot ask for a masked interrupt. An
arrival calls the filter of every handler that is set up on its line (`invoked`), which calls
the Linux handler (`invoked_eq`).

Next to this a run keeps what Linux keeps for a line, the depth of its disables : the first
request sets it, to 1 if `IRQF_NO_AUTOEN` was given and to 0 otherwise, and the line is enabled
while the depth is 0. `masksLikeLinux_iff` : a run masks like Linux exactly if no arrival comes
on a line with a handler while Linux has the line disabled.
-/

namespace KernelModules

open Interleaving

/-! ## The source -/

/-- The flag for a line that is to stay disabled, which is 0 here. -/
def IRQF_NO_AUTOEN : ℕ := 0

/-- The kernel's interrupt registry, with its entry points for masking. They act on the kernel's
own registrations. -/
structure IrqMaskKernel (σ : Type) extends IrqKernel σ where
  lkpiEnableIrq (irq : UInt32) : σ → Int × σ
  lkpiDisableIrq (irq : UInt32) : σ → σ

section Source

variable {σ : Type} (K : IrqMaskKernel σ) (N : Newbus)

/-- `enable_irq` -/
def enableIrq (irq : UInt32) (s : IrqState σ) : Int × IrqState σ :=
  let r := K.lkpiEnableIrq irq s.kernel
  (r.1, { s with kernel := r.2 })

/-- `disable_irq` -/
def disableIrq (irq : UInt32) (s : IrqState σ) : IrqState σ :=
  { s with kernel := K.lkpiDisableIrq irq s.kernel }

/-- `disable_irq_nosync` -/
def disableIrqNosync (irq : UInt32) (s : IrqState σ) : IrqState σ :=
  { s with kernel := K.lkpiDisableIrq irq s.kernel }

/-- `lkpi_of_irq_filter` : the call of the Linux handler, if the entry has one. -/
def lkpiOfIrqFilter (e : LkpiOfIrq) : Option (Ptr × UInt32 × Ptr) :=
  if e.handler = NULL then none else some (e.handler, e.irq, e.handlerArg)

/-- An interrupt line : a newbus device and the id of one of its interrupt resources. -/
abbrev IrqLine := Ptr × ℕ

/-- The line of an interrupt number of a device. -/
def Newbus.line (dev : Ptr) (irq : UInt32) : IrqLine :=
  (N.bsddev dev, lkpiIrqOfRid irq)

/-- The handler is set up on a resource of the line. -/
def IrqState.onLine (s : IrqState σ) (l : IrqLine) (h : IrqHandler) : Bool :=
  h.bsddev == l.1 && decide (⟨l.1, l.2, h.res⟩ ∈ s.held)

/-- The entries whose Linux handler an arrival on the line calls : newbus calls the filter of
every handler set up on it, with the entry as its argument. -/
def invoked (l : IrqLine) (s : IrqState σ) : List LkpiOfIrq :=
  ((s.handlers.filter (s.onLine l)).filterMap fun h => s.ofIrqs.find? (·.addr == h.arg)).filter
    fun e => (lkpiOfIrqFilter e).isSome

end Source

/-! ## Linux's rules -/

/-- For each line the depth of its disables, once it is requested. -/
abbrev LinuxIrqs := IrqLine → Option ℕ

namespace LinuxIrqs

variable (depth : LinuxIrqs) (l : IrqLine)

/-- The first request of a line sets its depth. -/
def request (noAutoen : Bool) : LinuxIrqs :=
  Function.update depth l (some ((depth l).getD (if noAutoen then 1 else 0)))

/-- `enable_irq` takes one disable back. -/
def enable : LinuxIrqs :=
  Function.update depth l ((depth l).map (· - 1))

/-- `disable_irq` adds one. -/
def disable : LinuxIrqs :=
  Function.update depth l ((depth l).map (· + 1))

/-- Arrivals on the line are delivered. -/
def Enabled : Prop :=
  depth l = some 0

instance : Decidable (depth.Enabled l) :=
  inferInstanceAs (Decidable (depth l = some 0))

end LinuxIrqs

/-! ## Runs -/

/-- An interrupt number with the tag of `LKPI_IRQ_OF`. -/
abbrev TaggedIrq := { irq : UInt32 // lkpiIrqIsOf irq = true }

/-- A call of a driver for an interrupt of the device `dev`, or an arrival of the interrupt. The
inlines that mask are not told the device. -/
inductive MaskOp where
  | devmRequestIrq (dev : Ptr) (irq : TaggedIrq) (handler : Ptr) (flags : ℕ) (noAutoen : Bool)
      (arg : Ptr)
  | enableIrq (dev : Ptr) (irq : TaggedIrq)
  | disableIrq (dev : Ptr) (irq : TaggedIrq)
  | disableIrqNosync (dev : Ptr) (irq : TaggedIrq)
  | arrival (dev : Ptr) (irq : TaggedIrq)
deriving DecidableEq

/-- The line an operation is on. -/
def MaskOp.line (N : Newbus) : MaskOp → IrqLine
  | .devmRequestIrq dev irq _ _ _ _ => N.line dev irq
  | .enableIrq dev irq => N.line dev irq
  | .disableIrq dev irq => N.line dev irq
  | .disableIrqNosync dev irq => N.line dev irq
  | .arrival dev irq => N.line dev irq

/-- The state of the code, and that of Linux. -/
structure MaskState (σ : Type) where
  irq : IrqState σ
  depth : LinuxIrqs

section Runs

variable {σ : Type} (K : IrqMaskKernel σ) (N : Newbus)

/-- One operation. Linux is told of requests that succeed. -/
def maskStep : MaskOp → MaskState σ → Option (MaskState σ)
  | .devmRequestIrq dev irq handler flags noAutoen arg, s =>
    let flags := if noAutoen then flags ||| IRQF_NO_AUTOEN else flags
    let r := devmRequestIrq K.toIrqKernel N dev irq handler flags arg s.irq
    some ⟨r.2, if r.1 = 0 then s.depth.request (N.line dev irq) noAutoen else s.depth⟩
  | .enableIrq dev irq, s => some ⟨(enableIrq K irq s.irq).2, s.depth.enable (N.line dev irq)⟩
  | .disableIrq dev irq, s => some ⟨disableIrq K irq s.irq, s.depth.disable (N.line dev irq)⟩
  | .disableIrqNosync dev irq, s =>
    some ⟨disableIrqNosync K irq s.irq, s.depth.disable (N.line dev irq)⟩
  | .arrival _ _, s => some s

/-- A loaded module. -/
def MaskState.init (k : σ) : MaskState σ :=
  ⟨{ kernel := k }, fun _ => none⟩

/-- An arrival calls the handlers registered for its line exactly if Linux has the line enabled,
and no operation changes what an arrival on another line calls. -/
def MasksLikeLinux (op : MaskOp) (s : MaskState σ) : Prop :=
  (∀ dev irq, op = .arrival dev irq → ∀ e ∈ s.irq.ofIrqs, N.line e.dev e.irq = N.line dev irq →
    e.handler ≠ NULL →
      (e ∈ invoked (N.line dev irq) s.irq ↔ s.depth.Enabled (N.line dev irq))) ∧
  ∀ s', maskStep K N op s = some s' → ∀ l, l ≠ op.line N → invoked l s'.irq = invoked l s.irq

/-- An arrival on a line with a handler comes while Linux has the line enabled. -/
def ArrivesEnabled : MaskOp → MaskState σ → Prop
  | .arrival dev irq, s => (∃ e ∈ s.irq.ofIrqs, N.line e.dev e.irq = N.line dev irq ∧
      e.handler ≠ NULL) → s.depth.Enabled (N.line dev irq)
  | _, _ => True

end Runs

/-! ## What a request does -/

/-- Newbus hands out the same resource for one line only. -/
structure Newbus.Lawful (N : Newbus) : Prop where
  alloc : ∀ {held : List IrqResource} {bsddev : Ptr} {rid : ℕ} {shareable : Bool} {res : Ptr},
    N.busAllocResourceAny held bsddev rid shareable = some res →
      ∀ r ∈ held, r.res = res → r.bsddev = bsddev ∧ r.rid = rid

/-- The resource of an entry. -/
def LkpiOfIrq.resource (N : Newbus) (e : LkpiOfIrq) : IrqResource :=
  ⟨N.bsddev e.dev, lkpiIrqOfRid e.irq, e.res⟩

/-- The newbus handler of an entry. -/
def LkpiOfIrq.newbusHandler (N : Newbus) (e : LkpiOfIrq) : IrqHandler :=
  ⟨N.bsddev e.dev, e.res, e.cookie, e.addr⟩

section Request

variable {σ : Type} {K : IrqMaskKernel σ} {N : Newbus}

/-- A tagged request fails and leaves the lists alone, or puts one entry on the list. -/
theorem devmRequestIrq_tagged (K : IrqKernel σ) (N : Newbus) (dev : Ptr) (irq : TaggedIrq)
    (handler : Ptr) (flags : ℕ) (arg : Ptr) (s : IrqState σ) :
    (∃ ret n, ret ≠ 0 ∧ s.allocs ≤ n ∧
      devmRequestIrq K N dev irq handler flags arg s = (ret, { s with allocs := n })) ∨
    ∃ e : LkpiOfIrq, e.addr = s.allocs ∧ e.dev = dev ∧ e.irq = irq ∧
      N.busAllocResourceAny s.held (N.bsddev dev) (lkpiIrqOfRid irq)
        (flags &&& IRQF_SHARED != 0) = some e.res ∧
      devmRequestIrq K N dev irq handler flags arg s = (0, { s with
        ofIrqs := s.ofIrqs ++ [e]
        held := e.resource N :: s.held
        handlers := e.newbusHandler N :: s.handlers
        allocs := s.allocs + 1 }) := by
  unfold devmRequestIrq lkpiOfRequestIrq
  rw [irq.2]
  simp only [Bool.not_true, Bool.false_eq_true, if_false, ne_eq, not_true_eq_false]
  split
  · exact Or.inl ⟨_, s.allocs, (by decide : - ENXIO ≠ 0), Nat.le_refl _, rfl⟩
  split
  · exact Or.inl ⟨_, s.allocs, (by decide : - ENXIO ≠ 0), Nat.le_refl _, rfl⟩
  next res halloc =>
  split
  · next cookie _ =>
    exact Or.inr ⟨⟨s.allocs, dev, irq, arg, res, cookie, handler, arg⟩, rfl, rfl, rfl, halloc, rfl⟩
  · next error _ hne _ =>
    refine Or.inl ⟨_, s.allocs + 1, fun h => hne (Int.neg_eq_zero.1 h), Nat.le_succ _, ?_⟩
    rw [List.erase_cons_head]

/-- Each entry has its resource and its handler, no two lines have a resource in common, and no
two entries an address. -/
structure IrqsSetUp (N : Newbus) (s : IrqState σ) : Prop where
  nodup : (s.ofIrqs.map LkpiOfIrq.addr).Nodup
  lt : ∀ e ∈ s.ofIrqs, e.addr < s.allocs
  handlers : s.handlers = (s.ofIrqs.map (·.newbusHandler N)).reverse
  held : s.held = (s.ofIrqs.map (·.resource N)).reverse
  lines : ∀ e ∈ s.ofIrqs, ∀ e' ∈ s.ofIrqs, e.res = e'.res →
    N.line e.dev e.irq = N.line e'.dev e'.irq

namespace IrqsSetUp

variable {s : IrqState σ}

theorem init (N : Newbus) (k : σ) : IrqsSetUp N { kernel := k } where
  nodup := List.nodup_nil
  lt := by simp
  handlers := rfl
  held := rfl
  lines := by simp

theorem allocs (hs : IrqsSetUp N s) {n : ℕ} (hn : s.allocs ≤ n) :
    IrqsSetUp N { s with allocs := n } :=
  ⟨hs.nodup, fun e he => Nat.lt_of_lt_of_le (hs.lt e he) hn, hs.handlers, hs.held, hs.lines⟩

/-- Adding an entry whose resource newbus has allocated. -/
theorem add (hN : N.Lawful) (hs : IrqsSetUp N s) {e : LkpiOfIrq} {shareable : Bool}
    (haddr : e.addr = s.allocs)
    (halloc : N.busAllocResourceAny s.held (N.bsddev e.dev) (lkpiIrqOfRid e.irq) shareable =
      some e.res) :
    IrqsSetUp N { s with
      ofIrqs := s.ofIrqs ++ [e]
      held := e.resource N :: s.held
      handlers := e.newbusHandler N :: s.handlers
      allocs := s.allocs + 1 } := by
  have hline : ∀ e' ∈ s.ofIrqs, e'.res = e.res → N.line e'.dev e'.irq = N.line e.dev e.irq := by
    intro e' he' hres
    have hmem : e'.resource N ∈ s.held := by
      rw [hs.held, List.mem_reverse]
      exact List.mem_map_of_mem he'
    obtain ⟨hbsd, hrid⟩ := hN.alloc halloc _ hmem hres
    exact Prod.ext hbsd hrid
  refine ⟨?_, ?_, ?_, ?_, ?_⟩
  · have hnew : s.allocs ∉ s.ofIrqs.map LkpiOfIrq.addr := by
      intro hmem
      obtain ⟨e', he', heq⟩ := List.mem_map.1 hmem
      exact Nat.lt_irrefl _ (heq ▸ hs.lt e' he')
    rw [List.map_append, List.map_singleton, haddr]
    exact List.nodup_append_comm.1 (List.nodup_cons.2 ⟨hnew, hs.nodup⟩)
  · refine List.forall_mem_append.2 ⟨fun e' he' => Nat.lt_succ_of_lt (hs.lt e' he'), ?_⟩
    rw [List.forall_mem_singleton, haddr]
    exact Nat.lt_succ_self _
  · rw [List.map_append, List.reverse_append, ← hs.handlers]
    rfl
  · rw [List.map_append, List.reverse_append, ← hs.held]
    rfl
  · intro e₁ he₁ e₂ he₂ hres
    rw [List.mem_append, List.mem_singleton] at he₁ he₂
    rcases he₁ with he₁ | rfl <;> rcases he₂ with he₂ | rfl
    · exact hs.lines e₁ he₁ e₂ he₂ hres
    · exact hline e₁ he₁ hres
    · exact (hline e₂ he₂ hres.symm).symm
    · rfl

theorem onLine_newbusHandler (hs : IrqsSetUp N s) {e : LkpiOfIrq} (he : e ∈ s.ofIrqs)
    (l : IrqLine) : s.onLine l (e.newbusHandler N) = decide (N.line e.dev e.irq = l) := by
  rw [IrqState.onLine, hs.held, Bool.eq_iff_iff]
  simp only [Bool.and_eq_true, beq_iff_eq, decide_eq_true_eq, List.mem_reverse, List.mem_map]
  constructor
  · rintro ⟨-, e', he', heq⟩
    have hres : e.res = e'.res := (congrArg IrqResource.res heq).symm
    rw [hs.lines e he e' he' hres]
    exact Prod.ext (congrArg IrqResource.bsddev heq) (congrArg IrqResource.rid heq)
  · rintro rfl
    exact ⟨rfl, e, he, rfl⟩

theorem find_addr (hs : IrqsSetUp N s) {e : LkpiOfIrq} (he : e ∈ s.ofIrqs) :
    s.ofIrqs.find? (·.addr == e.addr) = some e :=
  TailQueue.find?_eq_some_of_mem hs.nodup he (beq_self_eq_true _) fun _ hp => beq_iff_eq.1 hp

end IrqsSetUp

/-- An arrival calls the handlers of all entries of its line. -/
theorem invoked_eq {s : IrqState σ} (hs : IrqsSetUp N s) (l : IrqLine) :
    invoked l s =
      s.ofIrqs.reverse.filter fun e => decide (N.line e.dev e.irq = l) && e.handler != NULL := by
  have hfind : ∀ es : List LkpiOfIrq, (∀ e ∈ es, e ∈ s.ofIrqs) →
      (((es.map (·.newbusHandler N)).filter (s.onLine l)).filterMap
        fun h => s.ofIrqs.find? (·.addr == h.arg)) =
      es.filter fun e => decide (N.line e.dev e.irq = l) := by
    intro es
    induction es with
    | nil => exact fun _ => rfl
    | cons e es ih =>
      intro hes
      obtain ⟨he, hes⟩ := List.forall_mem_cons.1 hes
      rw [List.map_cons, List.filter_cons, List.filter_cons, hs.onLine_newbusHandler he]
      by_cases hline : N.line e.dev e.irq = l
      · have hone : s.ofIrqs.find? (·.addr == (e.newbusHandler N).arg) = some e := hs.find_addr he
        simp only [hline, decide_true, if_true]
        rw [List.filterMap_cons, hone]
        exact congrArg (e :: ·) (ih hes)
      · simp only [hline, decide_false, Bool.false_eq_true, if_false]
        exact ih hes
  have hsome : ∀ e : LkpiOfIrq, (lkpiOfIrqFilter e).isSome = (e.handler != NULL) := by
    intro e
    by_cases h : e.handler = NULL <;> simp [lkpiOfIrqFilter, h]
  rw [invoked, hs.handlers, ← List.map_reverse, hfind _ fun e he => List.mem_reverse.1 he,
    List.filter_filter]
  refine List.filter_congr fun e _ => ?_
  rw [hsome, Bool.and_comm]

end Request

/-! ## Masking -/

section Masking

variable {σ : Type} {K : IrqMaskKernel σ} {N : Newbus} {op : MaskOp} {s s' : MaskState σ}

/-- An operation adds an entry of its own line, or leaves the entries alone. -/
theorem maskStep_ofIrqs (hN : N.Lawful) (h : maskStep K N op s = some s') (hs : IrqsSetUp N s.irq) :
    IrqsSetUp N s'.irq ∧ (s'.irq.ofIrqs = s.irq.ofIrqs ∨
      ∃ e, N.line e.dev e.irq = op.line N ∧ s'.irq.ofIrqs = s.irq.ofIrqs ++ [e]) := by
  cases op with
  | devmRequestIrq dev irq handler flags noAutoen arg =>
    obtain rfl := Option.some.inj h
    dsimp only
    generalize (if noAutoen = true then flags ||| IRQF_NO_AUTOEN else flags) = flags
    obtain ⟨ret, n, -, hn, heq⟩ | ⟨e, haddr, rfl, hirq, halloc, heq⟩ :=
      devmRequestIrq_tagged K.toIrqKernel N dev irq handler flags arg s.irq
    · rw [heq]
      exact ⟨hs.allocs hn, Or.inl rfl⟩
    · rw [heq]
      refine ⟨hs.add hN haddr (hirq ▸ halloc), Or.inr ⟨e, ?_, rfl⟩⟩
      rw [MaskOp.line, hirq]
  | enableIrq dev irq =>
    obtain rfl := Option.some.inj h
    exact ⟨⟨hs.nodup, hs.lt, hs.handlers, hs.held, hs.lines⟩, Or.inl rfl⟩
  | disableIrq dev irq =>
    obtain rfl := Option.some.inj h
    exact ⟨⟨hs.nodup, hs.lt, hs.handlers, hs.held, hs.lines⟩, Or.inl rfl⟩
  | disableIrqNosync dev irq =>
    obtain rfl := Option.some.inj h
    exact ⟨⟨hs.nodup, hs.lt, hs.handlers, hs.held, hs.lines⟩, Or.inl rfl⟩
  | arrival dev irq =>
    obtain rfl := Option.some.inj h
    exact ⟨hs, Or.inl rfl⟩

/-- What an arrival on another line calls stays the same. -/
theorem invoked_maskStep (hN : N.Lawful) (h : maskStep K N op s = some s')
    (hs : IrqsSetUp N s.irq) {l : IrqLine} (hl : l ≠ op.line N) :
    invoked l s'.irq = invoked l s.irq := by
  obtain ⟨hs', heq | ⟨e, hline, heq⟩⟩ := maskStep_ofIrqs hN h hs
  · rw [invoked_eq hs', invoked_eq hs, heq]
  · rw [invoked_eq hs', invoked_eq hs, heq, List.reverse_append, List.reverse_singleton,
      List.singleton_append, List.filter_cons_of_neg]
    simp [hline, Ne.symm hl]

/-- The handlers of a line are called on every arrival, so the operation masks like Linux exactly
if Linux does not have the line of the arrival disabled. -/
theorem masksLikeLinux_iff_arrivesEnabled (hN : N.Lawful) (hs : IrqsSetUp N s.irq) :
    MasksLikeLinux K N op s ↔ ArrivesEnabled N op s := by
  have hcalled : ∀ l, ∀ e ∈ s.irq.ofIrqs, N.line e.dev e.irq = l → e.handler ≠ NULL →
      e ∈ invoked l s.irq := by
    intro l e he hline hhandler
    rw [invoked_eq hs]
    exact List.mem_filter.2 ⟨List.mem_reverse.2 he, by simp [hline, hhandler]⟩
  constructor
  · intro h
    cases op with
    | arrival dev irq =>
      rintro ⟨e, he, hline, hhandler⟩
      exact (h.1 dev irq rfl e he hline hhandler).1 (hcalled _ e he hline hhandler)
    | _ => trivial
  · intro h
    refine ⟨?_, fun s' hstep l hl => invoked_maskStep hN hstep hs hl⟩
    rintro dev irq rfl e he hline hhandler
    exact ⟨fun _ => h ⟨e, he, hline, hhandler⟩, fun _ => hcalled _ e he hline hhandler⟩

end Masking

/-- A run masks like Linux exactly if no arrival comes on a line with a handler while Linux has
the line disabled. -/
theorem masksLikeLinux_iff {σ : Type} (K : IrqMaskKernel σ) {N : Newbus} (hN : N.Lawful) (k : σ)
    {ops : List MaskOp} {s : MaskState σ} (hrun : runSchedule (maskStep K N) ops (.init k) = some s) :
    Along (maskStep K N) (MasksLikeLinux K N) ops (.init k) ↔
      Along (maskStep K N) (ArrivesEnabled N) ops (.init k) := by
  constructor
  · intro h
    exact h.imp (I := fun s => IrqsSetUp N s.irq) (fun hstep _ hs => (maskStep_ofIrqs hN hstep hs).1)
      (fun _ hs hop => (masksLikeLinux_iff_arrivesEnabled hN hs).1 hop) hrun (.init N k)
  · intro h
    exact h.imp (I := fun s => IrqsSetUp N s.irq) (fun hstep _ hs => (maskStep_ofIrqs hN hstep hs).1)
      (fun _ hs hop => (masksLikeLinux_iff_arrivesEnabled hN hs).2 hop) hrun (.init N k)

/-! ## The hvs -/

/-- A kernel with no registrations of its own. -/
def idleKernel : IrqMaskKernel Unit where
  lkpiRequestIrq _ _ _ _ _ _ _ := (- ENXIO, ())
  lkpiFreeIrq _ _ _ := ()
  lkpiDevmFreeIrq _ _ _ _ := ()
  held _ := []
  lkpiEnableIrq _ _ := (0, ())
  lkpiDisableIrq _ _ := ()

/-- One newbus device, at `500`, with a resource for each id. -/
def oneBus : Newbus where
  bsddev _ := 500
  busAllocResourceAny held bsddev rid _ :=
    if (held.any fun r => r.res == rid + 1) || bsddev != 500 then none else some (rid + 1)
  busSetupIntr _ _ res := (0, res + 1000)

theorem oneBus_lawful : oneBus.Lawful := by
  refine ⟨fun {held bsddev rid shareable res} halloc r hr hres => ?_⟩
  simp only [oneBus] at halloc
  split at halloc
  · simp at halloc
  · next hfree =>
    obtain rfl := Option.some.inj halloc
    simp only [Bool.or_eq_true, List.any_eq_true, not_or, not_exists] at hfree
    exact absurd ⟨hr, by simpa using hres⟩ (hfree.1 r)

/-- `ch0-eof` -/
def eofIrq : TaggedIrq :=
  ⟨lkpiIrqOf 0, by decide⟩

/-- The channel is enabled when its interrupt arrives. -/
theorem masksLikeLinux_eof : ∃ s, runSchedule (maskStep idleKernel oneBus)
      [.devmRequestIrq 50 eofIrq 70 0 true 9, .enableIrq 50 eofIrq, .arrival 50 eofIrq]
      (.init ()) = some s ∧
    Along (maskStep idleKernel oneBus) (MasksLikeLinux idleKernel oneBus)
      [.devmRequestIrq 50 eofIrq 70 0 true 9, .enableIrq 50 eofIrq, .arrival 50 eofIrq]
      (.init ()) := by
  refine ⟨_, rfl, (masksLikeLinux_iff idleKernel oneBus_lawful () rfl).2 ?_⟩
  refine ⟨trivial, fun s₁ h₁ => ⟨trivial, fun s₂ h₂ => ⟨fun _ => ?_, fun _ _ => trivial⟩⟩⟩
  obtain rfl := Option.some.inj h₁
  obtain rfl := Option.some.inj h₂
  rfl

/-- The interrupt is requested with `IRQF_NO_AUTOEN`, and its handler is called although it was
never enabled. -/
theorem not_masksLikeLinux_eof :
    ¬ ∀ (σ : Type) (K : IrqMaskKernel σ) (N : Newbus), N.Lawful → ∀ (k : σ) (ops : List MaskOp)
      (s : MaskState σ), runSchedule (maskStep K N) ops (.init k) = some s →
        Along (maskStep K N) (MasksLikeLinux K N) ops (.init k) := by
  intro h
  have hmask := h Unit idleKernel oneBus oneBus_lawful ()
    [.devmRequestIrq 50 eofIrq 70 0 true 9, .arrival 50 eofIrq] _ rfl
  have harrival := ((hmask.2 _ rfl).1.1 50 eofIrq rfl _ List.mem_cons_self rfl (by decide)).1
    (by decide)
  exact absurd harrival (by decide)

end KernelModules
