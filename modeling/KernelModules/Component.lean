import KernelModules.Errno
import KernelModules.Ledger
import KernelModules.TailQueue

/-!
# The component framework

`lkpi_component.c` : components register with `componentAdd`, masters with
`componentMasterAddWithMatch`, and `lkpiTryBindMasters` brings up every master whose
match list is complete. A master's bind callback calls `componentBindAll`, its unbind
callback `componentUnbindAll`.

Callbacks are code outside the framework. A component callback returns some error code
and calls nothing back; which code it returns may depend on everything that happened
before, so it is a function of the trace. A master callback is a `Script` : it may call
`component_bind_all` and `component_unbind_all` any number of times, and looks at what
`component_bind_all` returned. `Env` is the memory the `ops` pointers point into, and
says which `M_NOWAIT` allocations succeed.

`Registry` is the state of the file : the two tail queues, the number of allocations
asked for so far, and the trace of what was called. An allocation gets its number as
its address, so no address is handed out twice.
-/

namespace KernelModules

/-- A pointer. -/
abbrev Ptr := ℕ

/-- The null pointer. -/
abbrev NULL : Ptr := 0

/-! ## Data -/

/-- A registered component, at the address `addr`. -/
structure LkpiComponent where
  addr : Ptr
  dev : Ptr
  ops : Ptr
  bound : Bool
  /-- The master it is bound to. -/
  master : Ptr
  /-- The data it was bound with. -/
  masterData : Ptr
deriving DecidableEq, Repr

/-- One entry of a match list : a predicate and its argument. -/
structure LkpiMatchEntry where
  compare : Ptr → Ptr → Bool
  data : Ptr

/-- Whether the entry selects the device. -/
def LkpiMatchEntry.selects (e : LkpiMatchEntry) (dev : Ptr) : Bool :=
  e.compare dev e.data

/-- A match list. The count is kept beside the list, and agrees with it. -/
structure ComponentMatch where
  entries : List LkpiMatchEntry
  count : ℕ
  count_eq : count = entries.length

/-- A registered master, at the address `addr`. A match list of `none` is a null
pointer. -/
structure LkpiMaster where
  addr : Ptr
  dev : Ptr
  ops : Ptr
  matchList : Option ComponentMatch
  bound : Bool

/-- The match entries of a master; none for a null match list. -/
def LkpiMaster.entries (m : LkpiMaster) : List LkpiMatchEntry :=
  (m.matchList.map ComponentMatch.entries).getD []

/-- `m->bound = true` -/
def LkpiMaster.mark (m : LkpiMaster) : LkpiMaster :=
  { m with bound := true }

/-- The function a component was unbound by. -/
inductive UnbindCause where
  | unbindAll
  | componentDel
deriving DecidableEq, Repr

/-- What the framework does that its callers can see. -/
inductive Event where
  /-- A component is on the list. -/
  | add (addr dev : Ptr)
  /-- A component's bind callback was called and returned `ret`. -/
  | bind (addr dev master data : Ptr) (ret : Int)
  /-- A bound component is unbound. Its unbind callback, if it has one, was `called`. -/
  | unbind (cause : UnbindCause) (addr dev master data : Ptr) (called : Bool)
  /-- A component is off the list and freed. -/
  | free (addr : Ptr)
  /-- A master's bind callback is called. -/
  | masterBind (dev : Ptr)
  /-- "lkpi component: master bind failed: %d" -/
  | masterBindFailed (error : Int)
  /-- A master's unbind callback is called. -/
  | masterUnbind (dev : Ptr)
  /-- "component master registered with an EMPTY match list -- no components will bind." -/
  | emptyMatch (dev : Ptr)
deriving DecidableEq, Repr

/-- The body of a master callback, up to its calls into the framework. -/
inductive Script where
  | done (ret : Int)
  | bindAll (master data : Ptr) (k : Int → Script)
  | unbindAll (master data : Ptr) (k : Script)

/-- `struct component_ops`. -/
structure ComponentOps where
  hasBind : Bool
  bind : List Event → Ptr → Ptr → Ptr → Int
  hasUnbind : Bool

/-- `struct component_master_ops`. -/
structure ComponentMasterOps where
  hasBind : Bool
  bind : List Event → Ptr → Script
  hasUnbind : Bool
  unbind : List Event → Ptr → Script

/-- What the framework is given : the structures `ops` pointers point at, and whether
the `n`-th allocation succeeds. -/
structure Env where
  componentOps : Ptr → ComponentOps
  masterOps : Ptr → ComponentMasterOps
  mallocOk : ℕ → Bool

/-- `lkpi_components`, `lkpi_masters`, the allocations asked for so far, and the trace. -/
structure Registry where
  components : List LkpiComponent := []
  masters : List LkpiMaster := []
  allocs : ℕ := 1
  trace : List Event := []

namespace Registry

/-- An event is added to the trace. -/
def log (s : Registry) (e : Event) : Registry :=
  { s with trace := s.trace ++ [e] }

/-- `malloc` with `M_NOWAIT`. -/
def malloc (env : Env) (s : Registry) : Option Ptr × Registry :=
  (if env.mallocOk s.allocs then some s.allocs else none, { s with allocs := s.allocs + 1 })

/-- Write through a pointer to a component. -/
def updateComponent (s : Registry) (addr : Ptr) (f : LkpiComponent → LkpiComponent) : Registry :=
  { s with components := TailQueue.update LkpiComponent.addr addr f s.components }

/-- Set the flag of a master through a pointer to it. -/
def markBound (s : Registry) (addr : Ptr) : Registry :=
  { s with masters := TailQueue.update LkpiMaster.addr addr .mark s.masters }

section Fields

variable (s : Registry) (e : Event) (addr : Ptr) (f : LkpiComponent → LkpiComponent)

@[simp] theorem log_components : (s.log e).components = s.components :=
  rfl

@[simp] theorem log_masters : (s.log e).masters = s.masters :=
  rfl

@[simp] theorem log_allocs : (s.log e).allocs = s.allocs :=
  rfl

@[simp] theorem log_trace : (s.log e).trace = s.trace ++ [e] :=
  rfl

@[simp] theorem updateComponent_components :
    (s.updateComponent addr f).components =
      TailQueue.update LkpiComponent.addr addr f s.components :=
  rfl

@[simp] theorem updateComponent_masters : (s.updateComponent addr f).masters = s.masters :=
  rfl

@[simp] theorem updateComponent_allocs : (s.updateComponent addr f).allocs = s.allocs :=
  rfl

@[simp] theorem updateComponent_trace : (s.updateComponent addr f).trace = s.trace :=
  rfl

@[simp] theorem markBound_components : (s.markBound addr).components = s.components :=
  rfl

@[simp] theorem markBound_allocs : (s.markBound addr).allocs = s.allocs :=
  rfl

@[simp] theorem markBound_trace : (s.markBound addr).trace = s.trace :=
  rfl

@[simp] theorem markBound_masters : (s.markBound addr).masters =
    TailQueue.update LkpiMaster.addr addr .mark s.masters :=
  rfl

variable (env : Env)

@[simp] theorem malloc_components : (s.malloc env).2.components = s.components :=
  rfl

@[simp] theorem malloc_masters : (s.malloc env).2.masters = s.masters :=
  rfl

@[simp] theorem malloc_trace : (s.malloc env).2.trace = s.trace :=
  rfl

end Fields

end Registry

/-- `c->bound = true; c->master = master; c->master_data = master_data;` -/
def LkpiComponent.bindTo (master data : Ptr) (c : LkpiComponent) : LkpiComponent :=
  { c with bound := true, master := master, masterData := data }

/-- `c->bound = false; c->master = NULL; c->master_data = NULL;` -/
def LkpiComponent.release (c : LkpiComponent) : LkpiComponent :=
  { c with bound := false, master := NULL, masterData := NULL }

/-! ## Binding and unbinding -/

variable (env : Env)

/-- The first master registered for a device. -/
def lkpiMasterFor (s : Registry) (dev : Ptr) : Option LkpiMaster :=
  s.masters.find? (·.dev == dev)

/-- The match list `component_bind_all` and `component_unbind_all` walk : that of the
first master registered for the device, if it has one. -/
def matchFor (s : Registry) (dev : Ptr) : Option ComponentMatch :=
  (lkpiMasterFor s dev).bind LkpiMaster.matchList

/-- Call a component's bind callback, and record the binding if it returned 0. -/
def bindOne (master data : Ptr) (c : LkpiComponent) (s : Registry) : Int × Registry :=
  let error := (env.componentOps c.ops).bind s.trace c.dev master data
  let s := s.log (.bind c.addr c.dev master data error)
  if error ≠ 0 then (error, s) else (0, s.updateComponent c.addr (.bindTo master data))

/-- Call a component's unbind callback, if it has one, and clear the binding. -/
def unbindOne (master data : Ptr) (c : LkpiComponent) (s : Registry) : Registry :=
  (s.log (.unbind .unbindAll c.addr c.dev master data
    (env.componentOps c.ops).hasUnbind)).updateComponent c.addr .release

/-- The walk of `component_bind_all` without a match list : registration order. -/
def bindList (master data : Ptr) : List LkpiComponent → Registry → Int × Registry
  | [], s => (0, s)
  | c :: cs, s =>
    if c.bound then bindList master data cs s
    else
      match bindOne env master data c s with
      | (0, s) => bindList master data cs s
      | (error, s) => (error, s)

/-- The component a match entry binds : the first unbound one it selects. -/
def bindCandidate (s : Registry) (e : LkpiMatchEntry) : Option LkpiComponent :=
  s.components.find? fun c => !c.bound && e.selects c.dev

/-- The walk of `component_bind_all` along a match list. An entry with no unbound
component left is passed over. -/
def bindEntries (master data : Ptr) : List LkpiMatchEntry → Registry → Int × Registry
  | [], s => (0, s)
  | e :: es, s =>
    match bindCandidate s e with
    | none => bindEntries master data es s
    | some c =>
      match bindOne env master data c s with
      | (0, s) => bindEntries master data es s
      | (error, s) => (error, s)

/-- `component_bind_all` -/
def componentBindAll (master data : Ptr) (s : Registry) : Int × Registry :=
  match matchFor s master with
  | none => bindList env master data s.components s
  | some l => bindEntries env master data l.entries s

/-- The walk of `component_unbind_all` without a match list, over the components in the
order they are visited. -/
def unbindList (master data : Ptr) : List LkpiComponent → Registry → Registry
  | [], s => s
  | c :: cs, s =>
    if !c.bound then unbindList master data cs s
    else unbindList master data cs (unbindOne env master data c s)

/-- The component a match entry unbinds : the first bound one it selects. -/
def unbindCandidate (s : Registry) (e : LkpiMatchEntry) : Option LkpiComponent :=
  s.components.find? fun c => c.bound && e.selects c.dev

/-- The walk of `component_unbind_all` along a match list, over the entries in the order
they are visited. -/
def unbindEntries (master data : Ptr) : List LkpiMatchEntry → Registry → Registry
  | [], s => s
  | e :: es, s =>
    match unbindCandidate s e with
    | none => unbindEntries master data es s
    | some c => unbindEntries master data es (unbindOne env master data c s)

/-- `component_unbind_all` -/
def componentUnbindAll (master data : Ptr) (s : Registry) : Registry :=
  match matchFor s master with
  | some l => unbindEntries env master data l.entries.reverse s
  | none => unbindList env master data s.components.reverse s

/-- Run a master callback. -/
def Script.run : Script → Registry → Int × Registry
  | .done ret, s => (ret, s)
  | .bindAll master data k, s =>
    let r := componentBindAll env master data s
    (k r.1).run r.2
  | .unbindAll master data k, s => k.run (componentUnbindAll env master data s)

/-! ## Match lists -/

/-- `component_compare_dev` -/
def componentCompareDev (dev data : Ptr) : Bool :=
  dev == data

/-- A match list with one more entry. -/
def ComponentMatch.add (l : ComponentMatch) (e : LkpiMatchEntry) : ComponentMatch :=
  ⟨l.entries ++ [e], l.count + 1, by simp [l.count_eq]⟩

/-- `component_match_add`. The list is allocated on the first call; an allocation that
fails drops the request. -/
def componentMatchAdd (l : Option ComponentMatch) (compare : Ptr → Ptr → Bool) (data : Ptr)
    (s : Registry) : Option ComponentMatch × Registry :=
  match l with
  | some l =>
    match s.malloc env with
    | (none, s) => (some l, s)
    | (some _, s) => (some (l.add ⟨compare, data⟩), s)
  | none =>
    match s.malloc env with
    | (none, s) => (none, s)
    | (some _, s) =>
      match s.malloc env with
      | (none, s) => (some ⟨[], 0, rfl⟩, s)
      | (some _, s) => (some ⟨[⟨compare, data⟩], 1, rfl⟩, s)

/-- Whether some registered component satisfies each entry. -/
def lkpiMatchComplete (l : Option ComponentMatch) (components : List LkpiComponent) : Bool :=
  match l with
  | none => true
  | some l => l.entries.all fun e => components.any fun c => e.selects c.dev

/-! ## Registration -/

/-- The body of the loop of `lkpi_try_bind_masters`. -/
def lkpiTryBindMaster (s : Registry) (m : LkpiMaster) : Registry :=
  if m.bound || !(env.masterOps m.ops).hasBind then s
  else if !lkpiMatchComplete m.matchList s.components then s
  else
    let s := s.log (.masterBind m.dev)
    match ((env.masterOps m.ops).bind s.trace m.dev).run env s with
    | (0, s) => s.markBound m.addr
    | (error, s) => s.log (.masterBindFailed error)

/-- `lkpi_try_bind_masters` -/
def lkpiTryBindMasters (s : Registry) : Registry :=
  s.masters.foldl (lkpiTryBindMaster env) s

/-- `TAILQ_INSERT_TAIL(&lkpi_components, c, link)` -/
def Registry.pushComponent (s : Registry) (addr dev ops : Ptr) : Registry :=
  ({ s with components := s.components ++ [⟨addr, dev, ops, false, NULL, NULL⟩] } : Registry).log
    (.add addr dev)

/-- `TAILQ_INSERT_TAIL(&lkpi_masters, m, link)` -/
def Registry.pushMaster (s : Registry) (addr dev ops : Ptr) (l : Option ComponentMatch) :
    Registry :=
  { s with masters := s.masters ++ [⟨addr, dev, ops, l, false⟩] }

@[simp] theorem Registry.pushComponent_components (s : Registry) (addr dev ops : Ptr) :
    (s.pushComponent addr dev ops).components =
      s.components ++ [⟨addr, dev, ops, false, NULL, NULL⟩] :=
  rfl

@[simp] theorem Registry.pushComponent_masters (s : Registry) (addr dev ops : Ptr) :
    (s.pushComponent addr dev ops).masters = s.masters :=
  rfl

@[simp] theorem Registry.pushComponent_allocs (s : Registry) (addr dev ops : Ptr) :
    (s.pushComponent addr dev ops).allocs = s.allocs :=
  rfl

@[simp] theorem Registry.pushComponent_trace (s : Registry) (addr dev ops : Ptr) :
    (s.pushComponent addr dev ops).trace = s.trace ++ [.add addr dev] :=
  rfl

/-- `component_add` -/
def componentAdd (dev ops : Ptr) (s : Registry) : Int × Registry :=
  if dev = NULL ∨ ops = NULL ∨ (env.componentOps ops).hasBind = false then (-EINVAL, s)
  else
    match s.malloc env with
    | (none, s) => (-ENOMEM, s)
    | (some p, s) => (0, lkpiTryBindMasters env (s.pushComponent p dev ops))

/-- `TAILQ_REMOVE(&lkpi_components, c, link)` for the first component with this device
and these operations. -/
def Registry.unlinkComponent (s : Registry) (dev ops : Ptr) : Registry :=
  { s with components := s.components.eraseP fun c => c.dev == dev && c.ops == ops }

/-- `component_del` : unlink the component, unbind it from the master it is recorded
with, free it. -/
def componentDel (dev ops : Ptr) (s : Registry) : Registry :=
  match s.components.find? fun c => c.dev == dev && c.ops == ops with
  | none => s
  | some c =>
    let s := s.unlinkComponent dev ops
    let s := if c.bound then
        s.log (.unbind .componentDel c.addr c.dev c.master c.masterData
          (env.componentOps c.ops).hasUnbind)
      else s
    s.log (.free c.addr)

/-- The warning about an empty match list. -/
def Registry.warnEmpty (s : Registry) (master : Ptr) (l : Option ComponentMatch) : Registry :=
  if (l.map ComponentMatch.count).getD 0 = 0 then s.log (.emptyMatch master) else s

/-- `component_master_add_with_match` -/
def componentMasterAddWithMatch (master ops : Ptr) (l : Option ComponentMatch) (s : Registry) :
    Int × Registry :=
  if master = NULL ∨ ops = NULL then (-EINVAL, s)
  else
    match (s.warnEmpty master l).malloc env with
    | (none, s) => (-ENOMEM, s)
    | (some p, s) => (0, lkpiTryBindMasters env (s.pushMaster p master ops l))

/-- `TAILQ_REMOVE(&lkpi_masters, m, link)` for the first master with this device and
these operations. -/
def Registry.unlinkMaster (s : Registry) (master ops : Ptr) : Registry :=
  { s with masters := s.masters.eraseP fun m => m.dev == master && m.ops == ops }

/-- `component_master_del` : unlink the master, then run its unbind callback. -/
def componentMasterDel (master ops : Ptr) (s : Registry) : Registry :=
  match s.masters.find? fun m => m.dev == master && m.ops == ops with
  | none => s
  | some m =>
    let s := s.unlinkMaster master ops
    if m.bound && (env.masterOps m.ops).hasUnbind then
      let s := s.log (.masterUnbind m.dev)
      (((env.masterOps m.ops).unbind s.trace m.dev).run env s).2
    else s

/-! ## Runs -/

/-- A call of one of the six functions. -/
inductive Op where
  | add (dev ops : Ptr)
  | del (dev ops : Ptr)
  | bindAll (master data : Ptr)
  | unbindAll (master data : Ptr)
  | masterAdd (master ops : Ptr) (l : Option ComponentMatch)
  | masterDel (master ops : Ptr)

/-- The registry after a call. -/
def Op.step (op : Op) (s : Registry) : Registry :=
  match op with
  | .add dev ops => (componentAdd env dev ops s).2
  | .del dev ops => componentDel env dev ops s
  | .bindAll master data => (componentBindAll env master data s).2
  | .unbindAll master data => componentUnbindAll env master data s
  | .masterAdd master ops l => (componentMasterAddWithMatch env master ops l s).2
  | .masterDel master ops => componentMasterDel env master ops s

/-- A run of calls, from a loaded module. -/
def run (calls : List Op) : Registry :=
  calls.foldl (fun s op => op.step env s) {}

end KernelModules
