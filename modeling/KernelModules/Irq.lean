import KernelModules.Vc4Drv

/-!
# Interrupts of device-tree devices

`lkpi_irq.c` and the inlines of the module's `linux/interrupt.h`. An interrupt number that
`platform_get_irq` returned carries a tag and the resource id. A request on a tagged number
allocates that resource, sets up a newbus handler and goes on the module's own list
`lkpi_of_irqs`. An untagged one is handed to the kernel's `lkpi_request_irq`.

The kernel and newbus are outside. `IrqKernel` is the kernel's registry with its three
entry points. It is a state of its own : what the kernel releases is what it registered.
`Newbus` says which allocations and handler set-ups succeed, given what is held.
-/

namespace KernelModules

/-- The flag for a line that is shared. -/
def IRQF_SHARED : ℕ := 4

/-- `LKPI_IRQ_OF(rid)` -/
def lkpiIrqOf (rid : UInt32) : UInt32 :=
  0x40000000 ||| rid

/-- `LKPI_IRQ_IS_OF(irq)` -/
def lkpiIrqIsOf (irq : UInt32) : Bool :=
  irq &&& 0x40000000 != 0

/-- `LKPI_IRQ_OF_RID(irq)` -/
def lkpiIrqOfRid (irq : UInt32) : ℕ :=
  (irq &&& 0xffff).toNat

/-! ## The kernel and newbus -/

/-- The kernel's own interrupt registry, with the resources its registrations hold. -/
structure IrqKernel (σ : Type) where
  lkpiRequestIrq (xdev : Ptr) (irq : UInt32) (handler threadHandler : Ptr) (flags : ℕ) (arg : Ptr) :
    σ → Int × σ
  lkpiFreeIrq (irq : UInt32) (arg : Ptr) : σ → σ
  lkpiDevmFreeIrq (xdev : Ptr) (irq : UInt32) (arg : Ptr) : σ → σ
  held : σ → List Ptr

/-- An interrupt resource held for a newbus device. -/
structure IrqResource where
  bsddev : Ptr
  rid : ℕ
  res : Ptr
deriving DecidableEq, Repr

/-- A newbus handler : the filter `lkpi_of_irq_filter`, called with `arg`. -/
structure IrqHandler where
  bsddev : Ptr
  res : Ptr
  cookie : Ptr
  arg : Ptr
deriving DecidableEq, Repr

/-- What newbus answers, given what is held and set up. -/
structure Newbus where
  /-- `xdev->bsddev` -/
  bsddev : Ptr → Ptr
  busAllocResourceAny (held : List IrqResource) (bsddev : Ptr) (rid : ℕ) (shareable : Bool) :
    Option Ptr
  /-- The error of `bus_setup_intr`, and the cookie it stores if there is none. -/
  busSetupIntr (handlers : List IrqHandler) (bsddev res : Ptr) : Int × Ptr

/-! ## The module's list -/

/-- `struct lkpi_of_irq`, at the address `addr`. -/
structure LkpiOfIrq where
  addr : Ptr
  dev : Ptr
  irq : UInt32
  arg : Ptr
  res : Ptr
  cookie : Ptr
  handler : Ptr
  handlerArg : Ptr
deriving DecidableEq, Repr

/-- `lkpi_of_irqs`, the resources and handlers held through it, and the kernel's registry. -/
structure IrqState (σ : Type) where
  ofIrqs : List LkpiOfIrq := []
  held : List IrqResource := []
  handlers : List IrqHandler := []
  allocs : ℕ := 1
  kernel : σ

variable {σ : Type} (K : IrqKernel σ) (N : Newbus)

/-- The entry of a request that got the resource `res`, before its handler is set up. -/
def LkpiOfIrq.new (addr xdev : Ptr) (irq : UInt32) (handler arg res : Ptr) : LkpiOfIrq :=
  ⟨addr, xdev, irq, arg, res, NULL, handler, arg⟩

/-- `lkpi_of_request_irq` -/
def lkpiOfRequestIrq (xdev : Ptr) (irq : UInt32) (handler threadHandler : Ptr) (flags : ℕ)
    (arg : Ptr) (s : IrqState σ) : Int × IrqState σ :=
  if !lkpiIrqIsOf irq then
    let r := K.lkpiRequestIrq xdev irq handler threadHandler flags arg s.kernel
    (r.1, { s with kernel := r.2 })
  else if xdev = NULL ∨ N.bsddev xdev = NULL then (- ENXIO, s)
  else if threadHandler ≠ NULL then (-ENOTSUP, s)
  else
    match N.busAllocResourceAny s.held (N.bsddev xdev) (lkpiIrqOfRid irq)
        (flags &&& IRQF_SHARED != 0) with
    | none => (- ENXIO, s)
    | some res =>
      let e := LkpiOfIrq.new s.allocs xdev irq handler arg res
      let s := { s with
        held := ⟨N.bsddev xdev, lkpiIrqOfRid irq, res⟩ :: s.held
        allocs := s.allocs + 1 }
      match N.busSetupIntr s.handlers (N.bsddev xdev) res with
      | (0, cookie) => (0, { s with
          ofIrqs := s.ofIrqs ++ [{ e with cookie := cookie }]
          handlers := ⟨N.bsddev xdev, res, cookie, e.addr⟩ :: s.handlers })
      | (error, _) => (-error, { s with
          held := s.held.erase ⟨N.bsddev xdev, lkpiIrqOfRid irq, res⟩ })

/-- `lkpi_of_free_irq` -/
def lkpiOfFreeIrq (xdev : Ptr) (irq : UInt32) (arg : Ptr) (s : IrqState σ) : IrqState σ :=
  if !lkpiIrqIsOf irq then { s with kernel := K.lkpiFreeIrq irq arg s.kernel }
  else
    match s.ofIrqs.find? fun e => e.dev == xdev && e.irq == irq && e.arg == arg with
    | none => s
    | some e => { s with
        ofIrqs := s.ofIrqs.eraseP fun e => e.dev == xdev && e.irq == irq && e.arg == arg
        handlers := if e.cookie ≠ NULL then
          s.handlers.eraseP fun h => h.bsddev == N.bsddev xdev && h.res == e.res &&
            h.cookie == e.cookie else s.handlers
        held := if e.res ≠ NULL then
          s.held.erase ⟨N.bsddev xdev, lkpiIrqOfRid irq, e.res⟩ else s.held }

/-! ## The inlines of `linux/interrupt.h` -/

/-- `request_irq` -/
def requestIrq (irq : UInt32) (handler : Ptr) (flags : ℕ) (arg : Ptr) (s : IrqState σ) :
    Int × IrqState σ :=
  lkpiOfRequestIrq K N NULL irq handler NULL flags arg s

/-- `devm_request_irq` -/
def devmRequestIrq (dev : Ptr) (irq : UInt32) (handler : Ptr) (flags : ℕ) (arg : Ptr)
    (s : IrqState σ) : Int × IrqState σ :=
  lkpiOfRequestIrq K N dev irq handler NULL flags arg s

/-- `free_irq` -/
def freeIrq (irq : UInt32) (device : Ptr) (s : IrqState σ) : IrqState σ :=
  { s with kernel := K.lkpiFreeIrq irq device s.kernel }

/-- `devm_free_irq` -/
def devmFreeIrq (xdev : Ptr) (irq : UInt32) (p : Ptr) (s : IrqState σ) : IrqState σ :=
  { s with kernel := K.lkpiDevmFreeIrq xdev irq p s.kernel }

/-- A call of one of the inlines. -/
inductive IrqOp where
  | requestIrq (irq : UInt32) (handler : Ptr) (flags : ℕ) (arg : Ptr)
  | devmRequestIrq (dev : Ptr) (irq : UInt32) (handler : Ptr) (flags : ℕ) (arg : Ptr)
  | freeIrq (irq : UInt32) (device : Ptr)
  | devmFreeIrq (xdev : Ptr) (irq : UInt32) (p : Ptr)
deriving DecidableEq, Repr

/-- The call, with the value it returns; 0 for one that returns nothing. -/
def IrqOp.step (op : IrqOp) (s : IrqState σ) : Int × IrqState σ :=
  match op with
  | .requestIrq irq handler flags arg => KernelModules.requestIrq K N irq handler flags arg s
  | .devmRequestIrq dev irq handler flags arg =>
    KernelModules.devmRequestIrq K N dev irq handler flags arg s
  | .freeIrq irq device => (0, KernelModules.freeIrq K irq device s)
  | .devmFreeIrq xdev irq p => (0, KernelModules.devmFreeIrq K xdev irq p s)

/-- A run of calls, from a loaded module. -/
def irqRun (k : σ) (ops : List IrqOp) : IrqState σ :=
  ops.foldl (fun s op => (op.step K N s).2) { kernel := k }

@[simp] theorem irqRun_concat (k : σ) (ops : List IrqOp) (op : IrqOp) :
    irqRun K N k (ops ++ [op]) = (op.step K N (irqRun K N k ops)).2 := by
  simp [irqRun]

/-! ## What a request does -/

/-- A tagged request failed, and nothing but the allocation counter changed. -/
structure RequestFailed (s : IrqState σ) (r : Int × IrqState σ) : Prop where
  ret : r.1 ≠ 0
  ofIrqs : r.2.ofIrqs = s.ofIrqs
  held : r.2.held = s.held
  handlers : r.2.handlers = s.handlers
  kernel : r.2.kernel = s.kernel

/-- A tagged request succeeded with the entry `e`, its resource and its handler. -/
structure RequestAdded (N : Newbus) (e : LkpiOfIrq) (s : IrqState σ) (r : Int × IrqState σ) :
    Prop where
  ret : r.1 = 0
  ofIrqs : r.2.ofIrqs = s.ofIrqs ++ [e]
  held : r.2.held = ⟨N.bsddev e.dev, lkpiIrqOfRid e.irq, e.res⟩ :: s.held
  handlers : r.2.handlers = ⟨N.bsddev e.dev, e.res, e.cookie, e.addr⟩ :: s.handlers
  kernel : r.2.kernel = s.kernel

/-- An untagged request is the kernel's; a tagged one fails and changes nothing, or adds an
entry for a device that is not null. -/
theorem lkpiOfRequestIrq_cases (xdev : Ptr) (irq : UInt32) (handler threadHandler : Ptr)
    (flags : ℕ) (arg : Ptr) (s : IrqState σ) :
    (lkpiIrqIsOf irq = false ∧
      lkpiOfRequestIrq K N xdev irq handler threadHandler flags arg s =
        ((K.lkpiRequestIrq xdev irq handler threadHandler flags arg s.kernel).1, { s with
          kernel := (K.lkpiRequestIrq xdev irq handler threadHandler flags arg s.kernel).2 })) ∨
    (lkpiIrqIsOf irq = true ∧
      RequestFailed s (lkpiOfRequestIrq K N xdev irq handler threadHandler flags arg s)) ∨
    (lkpiIrqIsOf irq = true ∧ xdev ≠ NULL ∧ ∃ e : LkpiOfIrq, e.dev = xdev ∧ e.irq = irq ∧
      e.arg = arg ∧
      RequestAdded N e s (lkpiOfRequestIrq K N xdev irq handler threadHandler flags arg s)) := by
  unfold lkpiOfRequestIrq
  cases htag : lkpiIrqIsOf irq with
  | false => exact Or.inl ⟨rfl, rfl⟩
  | true =>
    simp only [Bool.not_true, Bool.false_eq_true, if_false, true_and, false_and, false_or,
      reduceCtorEq]
    split
    · exact Or.inl ⟨(by decide : - ENXIO ≠ 0), rfl, rfl, rfl, rfl⟩
    next hdev =>
    split
    · exact Or.inl ⟨(by decide : -ENOTSUP ≠ 0), rfl, rfl, rfl, rfl⟩
    split
    · exact Or.inl ⟨(by decide : - ENXIO ≠ 0), rfl, rfl, rfl, rfl⟩
    split
    · next cookie _ =>
      exact Or.inr ⟨fun h => hdev (Or.inl h), _, rfl, rfl, rfl, rfl, rfl, rfl, rfl, rfl⟩
    · next error _ hne _ =>
      refine Or.inl ⟨?_, rfl, ?_, rfl, rfl⟩
      · exact fun h => hne (Int.neg_eq_zero.1 h)
      · exact List.erase_cons_head _ _

end KernelModules
