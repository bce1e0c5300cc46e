import KernelModules.Component

/-!
# Device-tree nodes

`lkpi_of.c`, in a kernel with a device tree : Linux handles on the nodes of FreeBSD's device tree.
A `struct device_node` wraps a node number, and is allocated by the functions that return one.
`of_node_put` frees it, `of_node_get` does nothing.

`OpenFirmware` is FreeBSD's side. The tree is given by its child, peer and parent links, where
the number 0 stands for no node. The walks follow the links as far as they go, so they have
fuel. `NodeAllocator` is `malloc` with `M_NOWAIT`, which may fail and may hand out an address
again once it is freed.
-/

namespace KernelModules

/-! ## FreeBSD's side -/

/-- The Open Firmware interface. -/
structure OpenFirmware where
  ofChild : ℕ → ℕ
  ofPeer : ℕ → ℕ
  ofParent : ℕ → ℕ
  /-- `OF_getencprop_alloc_multi` for node numbers; empty if there is no such property. -/
  ofGetencprop : ℕ → String → List ℕ
  ofNodeFromXref : ℕ → ℕ
  ofwBusNodeIsCompatible : ℕ → String → Bool
  /-- The node of a handle that is part of another structure, such as a softc. -/
  embedded : Ptr → ℕ

/-- `malloc` : an address that is not in use, or none. It may depend on how often it was
called. -/
structure NodeAllocator where
  malloc (calls : ℕ) (used : List Ptr) : Option Ptr
  fresh : ∀ {calls : ℕ} {used : List Ptr} {p : Ptr}, malloc calls used = some p →
    p ∉ used ∧ p ≠ NULL

/-! ## Handles -/

/-- The allocated handles with their nodes, the calls of `malloc` so far, and the addresses
`free` was called on. -/
structure OfHeap where
  nodes : List (Ptr × ℕ) := []
  mallocs : ℕ := 0
  frees : List Ptr := []

namespace OfHeap

/-- The addresses in use. -/
def used (h : OfHeap) : List Ptr :=
  h.nodes.map Prod.fst

/-- `np->node` -/
def node (F : OpenFirmware) (h : OfHeap) (np : Ptr) : ℕ :=
  ((h.nodes.find? (·.1 == np)).map Prod.snd).getD (F.embedded np)

/-- Allocate a handle on a node; null if there is no memory. -/
def newNode (A : NodeAllocator) (node : ℕ) (h : OfHeap) : Ptr × OfHeap :=
  match A.malloc h.mallocs h.used with
  | none => (NULL, { h with mallocs := h.mallocs + 1 })
  | some p => (p, { h with nodes := h.nodes ++ [(p, node)], mallocs := h.mallocs + 1 })

/-- `free(np, M_DEVBUF)` -/
def free (np : Ptr) (h : OfHeap) : OfHeap :=
  if np = NULL then h
  else { h with nodes := h.nodes.eraseP (·.1 == np), frees := h.frees ++ [np] }

end OfHeap

/-- `struct of_device_id`. A table ends with an entry whose string is empty. -/
structure OfDeviceId where
  compatible : String
  data : Ptr
deriving DecidableEq, Repr

/-! ## The functions -/

section Source

variable (F : OpenFirmware) (A : NodeAllocator)

/-- `of_parse_phandle` -/
def ofParsePhandle (np : Ptr) (name : Option String) (index : Int) (h : OfHeap) : Ptr × OfHeap :=
  match name with
  | none => (NULL, h)
  | some name =>
    if np = NULL ∨ index < 0 then (NULL, h)
    else
      match (F.ofGetencprop (h.node F np) name)[index.toNat]? with
      | none => (NULL, h)
      | some handle =>
        if F.ofNodeFromXref handle = 0 then (NULL, h)
        else h.newNode A (F.ofNodeFromXref handle)

/-- `of_node_get` -/
def ofNodeGet (np : Ptr) : Ptr :=
  np

/-- `of_node_put` -/
def ofNodePut (np : Ptr) (h : OfHeap) : OfHeap :=
  h.free np

/-- The loop of `of_next_node` : the next sibling of the node, or of the nearest node above it
that has one. -/
def ofNextAbove : ℕ → ℕ → Option ℕ
  | 0, _ => none
  | fuel + 1, node =>
    if node = 0 then some 0
    else if F.ofPeer node ≠ 0 then some (F.ofPeer node)
    else ofNextAbove fuel (F.ofParent node)

/-- `of_next_node` -/
def ofNextNode (fuel node : ℕ) : Option ℕ :=
  if node = 0 then some (F.ofPeer 0)
  else if F.ofChild node ≠ 0 then some (F.ofChild node)
  else ofNextAbove F fuel node

/-- The loop over the nodes after `node` : the first one `found` has an answer for. -/
def ofFindAfter {α : Type} (found : ℕ → Option α) : ℕ → ℕ → Option (Option (ℕ × α))
  | 0, _ => none
  | fuel + 1, node =>
    (ofNextNode F fuel node).bind fun next =>
      if next = 0 then some none
      else
        match found next with
        | none => ofFindAfter found fuel next
        | some a => some (some (next, a))

/-- The node a search starts after : that of `from`, which is put. -/
def takeFrom (start : Ptr) (h : OfHeap) : ℕ × OfHeap :=
  if start ≠ NULL then (h.node F start, ofNodePut start h) else (0, h)

/-- `of_find_compatible_node` -/
def ofFindCompatibleNode (fuel : ℕ) (start : Ptr) (compat : Option String) (h : OfHeap) :
    Option (Ptr × OfHeap) :=
  match compat with
  | none => some (NULL, h)
  | some compat =>
    let (node, h) := takeFrom F start h
    let found := fun node => if F.ofwBusNodeIsCompatible node compat then some () else none
    (ofFindAfter F found fuel node).map fun
      | none => (NULL, h)
      | some (node, _) => h.newNode A node

/-- The loop over a match table. -/
def matchTable (node : ℕ) : List OfDeviceId → Option OfDeviceId
  | [] => none
  | id :: ids =>
    if id.compatible = "" then none
    else if F.ofwBusNodeIsCompatible node id.compatible then some id
    else matchTable node ids

/-- `of_find_matching_node_and_match`, with the entry it stores through `match`. -/
def ofFindMatchingNodeAndMatch (fuel : ℕ) (start : Ptr) (ids : Option (List OfDeviceId))
    (h : OfHeap) : Option (Ptr × Option OfDeviceId × OfHeap) :=
  match ids with
  | none => some (NULL, none, h)
  | some ids =>
    let (node, h) := takeFrom F start h
    (ofFindAfter F (matchTable F · ids) fuel node).map fun
      | none => (NULL, none, h)
      | some (node, id) =>
        match h.newNode A node with
        | (0, h) => (NULL, none, h)
        | (np, h) => (np, some id, h)

end Source

end KernelModules
