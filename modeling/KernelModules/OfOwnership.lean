import KernelModules.Interleaving
import KernelModules.OfNode

/-!
# Ownership of node handles

Linux counts the references to a node : a function that returns a handle gives its caller one,
`of_node_get` another, and each is given back by `of_node_put`, or by passing the handle as
`from` to a search. Callers follow these rules. `OfState.outstanding` has the references they
hold, one entry for each.

The handles are not counted. `of_node_put` frees at the first put (`ofNodePut`), and a search
without a string or a table returns before it puts `from`. `ownsHandles_iff` : a run follows
Linux's rules exactly if every handle that is put has one reference outstanding, and no search
with a handle to give back lacks its string or table.
-/

namespace KernelModules

open Interleaving

/-- A call of a driver. -/
inductive OfOp where
  | parsePhandle (np : Ptr) (name : Option String) (index : Int)
  | findCompatible (start : Ptr) (compat : Option String)
  | findMatching (start : Ptr) (ids : Option (List OfDeviceId))
  | nodeGet (np : Ptr)
  | nodePut (np : Ptr)
deriving DecidableEq, Repr

/-- The handle a call gives a reference back for; null for none. -/
def OfOp.gives : OfOp → Ptr
  | .findCompatible start _ => start
  | .findMatching start _ => start
  | .nodePut np => np
  | .parsePhandle _ _ _ => NULL
  | .nodeGet _ => NULL

/-- The handle a search starts from; null for none. -/
def OfOp.searchFrom : OfOp → Ptr
  | .findCompatible start _ => start
  | .findMatching start _ => start
  | .nodePut _ => NULL
  | .parsePhandle _ _ _ => NULL
  | .nodeGet _ => NULL

/-- The allocated handles, and the references to handles that are outstanding. -/
structure OfState where
  heap : OfHeap := {}
  outstanding : List Ptr := []

/-- One more reference, if there is a handle. -/
def acquire (np : Ptr) (l : List Ptr) : List Ptr :=
  if np = NULL then l else np :: l

section Runs

variable (F : OpenFirmware) (A : NodeAllocator) (fuel : ℕ)

/-- What the code does : the handle it returns, and the heap. -/
def OfOp.exec : OfOp → OfHeap → Option (Ptr × OfHeap)
  | .parsePhandle np name index, h => some (ofParsePhandle F A np name index h)
  | .findCompatible start compat, h => ofFindCompatibleNode F A fuel start compat h
  | .findMatching start ids, h =>
    (ofFindMatchingNodeAndMatch F A fuel start ids h).map fun r => (r.1, r.2.2)
  | .nodeGet np, h => some (ofNodeGet np, h)
  | .nodePut np, h => some (NULL, ofNodePut np h)

/-- One call. A caller gives back only references it holds. -/
def ofStep (op : OfOp) (s : OfState) : Option OfState :=
  if op.gives ≠ NULL ∧ op.gives ∉ s.outstanding then none
  else (op.exec F A fuel s.heap).map fun r =>
    ⟨r.2, acquire r.1 (s.outstanding.erase op.gives)⟩

/-- The call frees only a handle that is allocated and has no reference left, a search puts the
handle it starts from, and with no reference outstanding no handle is allocated. -/
structure OwnsHandles (op : OfOp) (s : OfState) : Prop where
  freed : ∀ r ∈ op.exec F A fuel s.heap, ∀ np, r.2.frees = s.heap.frees ++ [np] →
    np ∈ s.heap.used ∧ np ∉ s.outstanding.erase op.gives
  consumed : ∀ r ∈ op.exec F A fuel s.heap, op.searchFrom ≠ NULL →
    r.2.frees = s.heap.frees ++ [op.searchFrom]
  empty : ∀ s' ∈ ofStep F A fuel op s, s'.outstanding = [] → s'.heap.used = []

/-- A handle that is given back is allocated and has one reference, and a search that it is given
to has a string or a table. -/
def SoleReference (op : OfOp) (s : OfState) : Prop :=
  op.gives ≠ NULL → s.outstanding.count op.gives = 1 ∧ op.gives ∈ s.heap.used ∧
    (∀ start, op ≠ .findCompatible start none) ∧ ∀ start, op ≠ .findMatching start none

end Runs

/-! ## What a call does -/

/-- The call returns before it puts the handle it starts from. -/
def OfOp.noTable : OfOp → Bool
  | .findCompatible _ none => true
  | .findMatching _ none => true
  | _ => false

theorem noTable_eq_false {op : OfOp} : op.noTable = false ↔
    (∀ start, op ≠ .findCompatible start none) ∧ ∀ start, op ≠ .findMatching start none := by
  unfold OfOp.noTable
  split <;> simp_all

/-- The heap once the call has put the handle it is given. -/
def OfOp.afterPut (op : OfOp) (h : OfHeap) : OfHeap :=
  if op.noTable then h else h.free op.gives

/-- A heap with at most one more handle, which is returned. -/
inductive Allocates (h : OfHeap) : Ptr × OfHeap → Prop where
  | none (n : ℕ) : Allocates h (NULL, { h with mallocs := n })
  | some (p node n : ℕ) (fresh : p ∉ h.used) (ne : p ≠ NULL) :
      Allocates h (p, { h with nodes := h.nodes ++ [(p, node)], mallocs := n })

section Exec

variable {F : OpenFirmware} {A : NodeAllocator} {fuel : ℕ}

theorem allocates_newNode (A : NodeAllocator) (node : ℕ) (h : OfHeap) :
    Allocates h (h.newNode A node) := by
  unfold OfHeap.newNode
  split
  · exact .none _
  · next p hp => exact .some p node _ (A.fresh hp).1 (A.fresh hp).2

theorem allocates_null (h : OfHeap) : Allocates h (NULL, h) :=
  .none h.mallocs

theorem takeFrom_snd (F : OpenFirmware) (start : Ptr) (h : OfHeap) :
    (takeFrom F start h).2 = h.free start := by
  unfold takeFrom ofNodePut
  by_cases hstart : start = NULL <;> simp [hstart, OfHeap.free]

theorem allocates_ofParsePhandle (F : OpenFirmware) (A : NodeAllocator) (np : Ptr)
    (name : Option String) (index : Int) (h : OfHeap) :
    Allocates h (ofParsePhandle F A np name index h) := by
  unfold ofParsePhandle
  split
  · exact allocates_null h
  split
  · exact allocates_null h
  split
  · exact allocates_null h
  split
  · exact allocates_null h
  · exact allocates_newNode A _ h

/-- Every call but `of_node_get` puts the handle it is given, unless it lacks its string or
table, and returns at most one new handle. -/
theorem exec_allocates {op : OfOp} {h : OfHeap} {r : Ptr × OfHeap} (hop : ∀ np, op ≠ .nodeGet np)
    (hr : op.exec F A fuel h = some r) : Allocates (op.afterPut h) r := by
  cases op with
  | parsePhandle np name index =>
    obtain rfl := Option.some.inj hr
    exact allocates_ofParsePhandle F A np name index h
  | findCompatible start compat =>
    cases compat with
    | none =>
      obtain rfl := Option.some.inj hr
      exact allocates_null h
    | some compat =>
      simp only [OfOp.exec, ofFindCompatibleNode] at hr
      obtain ⟨found, -, rfl⟩ := Option.map_eq_some_iff.1 hr
      have hput : (OfOp.findCompatible start (some compat)).afterPut h = (takeFrom F start h).2 :=
        (takeFrom_snd F start h).symm
      rw [hput]
      split
      · exact allocates_null _
      · exact allocates_newNode A _ _
  | findMatching start ids =>
    cases ids with
    | none =>
      obtain rfl := Option.some.inj hr
      exact allocates_null h
    | some ids =>
      obtain ⟨r', hr', rfl⟩ := Option.map_eq_some_iff.1 hr
      simp only [ofFindMatchingNodeAndMatch] at hr'
      obtain ⟨found, -, rfl⟩ := Option.map_eq_some_iff.1 hr'
      have hput : (OfOp.findMatching start (some ids)).afterPut h = (takeFrom F start h).2 :=
        (takeFrom_snd F start h).symm
      rw [hput]
      split
      · exact allocates_null _
      · next node id =>
        have hnew := allocates_newNode A node (takeFrom F start h).2
        split
        · next h' heq => exact heq ▸ hnew
        · next np h' _ heq => exact heq ▸ hnew
  | nodeGet np => exact absurd rfl (hop np)
  | nodePut np =>
    obtain rfl := Option.some.inj hr
    exact allocates_null _

theorem afterPut_frees {op : OfOp} (hgives : op.gives ≠ NULL) (htable : op.noTable = false)
    (h : OfHeap) : (op.afterPut h).frees = h.frees ++ [op.gives] := by
  rw [OfOp.afterPut, htable, if_neg Bool.false_ne_true, OfHeap.free, if_neg hgives]

/-- The call frees the handle it is given and nothing else. -/
theorem exec_frees {op : OfOp} {h : OfHeap} {r : Ptr × OfHeap}
    (hr : op.exec F A fuel h = some r) : r.2.frees = (op.afterPut h).frees := by
  by_cases hop : ∀ np, op ≠ .nodeGet np
  · cases exec_allocates hop hr <;> rfl
  · obtain ⟨np, rfl⟩ := not_forall_not.1 hop
    obtain rfl := Option.some.inj hr
    rfl

/-- A call that frees a handle was given it, and does not lack its string or table. -/
theorem afterPut_frees_inv {op : OfOp} {h : OfHeap} {np : Ptr}
    (hf : (op.afterPut h).frees = h.frees ++ [np]) :
    np = op.gives ∧ op.gives ≠ NULL ∧ op.noTable = false := by
  rw [OfOp.afterPut] at hf
  split at hf
  · simp at hf
  · next htable =>
    rw [OfHeap.free] at hf
    split at hf
    · simp at hf
    · next hne =>
      exact ⟨(by simpa using hf : op.gives = np).symm, hne, by simpa using htable⟩

end Exec

/-! ## Handles and references -/

/-- Every allocated handle has a reference outstanding. -/
structure OfState.Covered (s : OfState) : Prop where
  nodup : s.heap.used.Nodup
  ne_null : NULL ∉ s.heap.used
  covered : ∀ np ∈ s.heap.used, np ∈ s.outstanding

section Step

variable {F : OpenFirmware} {A : NodeAllocator} {fuel : ℕ} {op : OfOp} {s s' : OfState}

theorem used_free {h : OfHeap} (hnd : h.used.Nodup) (hne : NULL ∉ h.used) (np : Ptr) :
    (h.free np).used = h.used.filter (· != np) := by
  unfold OfHeap.free
  split
  · next hnull =>
    refine (List.filter_eq_self.2 fun p hp => bne_iff_ne.2 ?_).symm
    rintro rfl
    exact hne (hnull ▸ hp)
  · rw [OfHeap.used, TailQueue.eraseP_eq_filter hnd, OfHeap.used, List.filter_map]
    rfl

/-- What is allocated once the handle is put has a reference left. -/
theorem OfState.Covered.afterPut (hs : s.Covered) (hop : SoleReference op s) :
    OfState.Covered ⟨op.afterPut s.heap, s.outstanding.erase op.gives⟩ := by
  by_cases hgives : op.gives = NULL
  · have hsame : op.afterPut s.heap = s.heap := by
      rw [OfOp.afterPut, hgives, OfHeap.free, if_pos rfl, ite_self]
    rw [hsame, hgives]
    refine ⟨hs.nodup, hs.ne_null, fun np hnp => ?_⟩
    have hne : np ≠ NULL := fun h => hs.ne_null (h ▸ hnp)
    exact (List.mem_erase_of_ne hne).2 (hs.covered np hnp)
  · have htable := noTable_eq_false.2 (hop hgives).2.2
    have hput : op.afterPut s.heap = s.heap.free op.gives := by
      rw [OfOp.afterPut, htable, if_neg Bool.false_ne_true]
    have hused := used_free hs.nodup hs.ne_null op.gives
    rw [hput]
    refine ⟨?_, ?_, ?_⟩
    · rw [hused]
      exact hs.nodup.filter _
    · rw [hused]
      exact fun h => hs.ne_null (List.mem_filter.1 h).1
    · intro np hnp
      rw [hused, List.mem_filter, bne_iff_ne] at hnp
      exact (List.mem_erase_of_ne hnp.2).2 (hs.covered np hnp.1)

theorem Allocates.covered {h : OfHeap} {l : List Ptr} {r : Ptr × OfHeap} (hr : Allocates h r)
    (hs : OfState.Covered ⟨h, l⟩) : OfState.Covered ⟨r.2, acquire r.1 l⟩ := by
  cases hr with
  | none n => exact ⟨hs.nodup, hs.ne_null, hs.covered⟩
  | some p node n hfresh hne =>
    have hused : OfHeap.used { h with nodes := h.nodes ++ [(p, node)], mallocs := n } =
        h.used ++ [p] := by
      simp [OfHeap.used]
    rw [acquire, if_neg hne]
    refine ⟨?_, ?_, ?_⟩
    · rw [hused]
      exact List.nodup_append_comm.1 (List.nodup_cons.2 ⟨hfresh, hs.nodup⟩)
    · rw [hused, List.mem_append, List.mem_singleton]
      exact not_or.2 ⟨hs.ne_null, Ne.symm hne⟩
    · intro np hnp
      rw [hused, List.mem_append, List.mem_singleton] at hnp
      rcases hnp with hnp | rfl
      · exact List.mem_cons_of_mem _ (hs.covered np hnp)
      · exact List.mem_cons_self

theorem ofStep_eq_some (h : ofStep F A fuel op s = some s') :
    (op.gives ≠ NULL → op.gives ∈ s.outstanding) ∧ ∃ r, op.exec F A fuel s.heap = some r ∧
      s' = ⟨r.2, acquire r.1 (s.outstanding.erase op.gives)⟩ := by
  rw [ofStep] at h
  split at h
  · simp at h
  · next hheld =>
    obtain ⟨r, hr, rfl⟩ := Option.map_eq_some_iff.1 h
    exact ⟨fun hne => by_contra fun hnot => hheld ⟨hne, hnot⟩, r, hr, rfl⟩

theorem OfState.Covered.step (h : ofStep F A fuel op s = some s') (hop : SoleReference op s)
    (hs : s.Covered) : s'.Covered := by
  obtain ⟨-, r, hr, rfl⟩ := ofStep_eq_some h
  have hput := hs.afterPut hop
  by_cases hget : ∀ np, op ≠ .nodeGet np
  · exact (exec_allocates hget hr).covered hput
  · obtain ⟨np, rfl⟩ := not_forall_not.1 hget
    obtain rfl := Option.some.inj hr
    refine ⟨hs.nodup, hs.ne_null, fun p hp => ?_⟩
    have hmem := hput.covered p hp
    unfold acquire
    split
    · exact hmem
    · exact List.mem_cons_of_mem _ hmem

theorem ownsHandles_of_soleReference (h : ofStep F A fuel op s = some s') (hs : s.Covered)
    (hop : SoleReference op s) : OwnsHandles F A fuel op s := by
  have hcovered := hs.step h hop
  refine ⟨?_, ?_, ?_⟩
  · intro r hr np hfrees
    obtain ⟨rfl, hgives, -⟩ := afterPut_frees_inv ((exec_frees hr).symm.trans hfrees)
    obtain ⟨hcount, hused, -⟩ := hop hgives
    refine ⟨hused, fun hmem => ?_⟩
    have hleft := List.count_pos_iff.2 hmem
    rw [List.count_erase_self, hcount] at hleft
    exact Nat.lt_irrefl 0 hleft
  · intro r hr hfrom
    have hgives : op.searchFrom = op.gives := by
      cases op with
      | nodePut np => exact absurd rfl hfrom
      | _ => rfl
    rw [hgives] at hfrom ⊢
    rw [exec_frees hr]
    exact afterPut_frees hfrom (noTable_eq_false.2 (hop hfrom).2.2) s.heap
  · intro s₁ hs₁ hnil
    obtain rfl := Option.some.inj (h.symm.trans hs₁)
    refine List.eq_nil_iff_forall_not_mem.2 fun np hnp => ?_
    have hmem := hcovered.covered np hnp
    rw [hnil] at hmem
    exact List.not_mem_nil hmem

theorem soleReference_of_ownsHandles (h : ofStep F A fuel op s = some s')
    (hop : OwnsHandles F A fuel op s) : SoleReference op s := by
  intro hgives
  obtain ⟨hheld, r, hr, -⟩ := ofStep_eq_some h
  have hfrees : r.2.frees = s.heap.frees ++ [op.gives] := by
    cases op with
    | findCompatible start compat => exact hop.consumed r hr hgives
    | findMatching start ids => exact hop.consumed r hr hgives
    | nodePut np => exact (exec_frees hr).trans (afterPut_frees hgives rfl _)
    | parsePhandle np name index => exact absurd rfl hgives
    | nodeGet np => exact absurd rfl hgives
  obtain ⟨hused, hlast⟩ := hop.freed r hr _ hfrees
  obtain ⟨-, -, htable⟩ := afterPut_frees_inv ((exec_frees hr).symm.trans hfrees)
  have hcount : s.outstanding.count op.gives = 1 := by
    have hzero := List.count_eq_zero.2 hlast
    rw [List.count_erase_self] at hzero
    have hpos := List.count_pos_iff.2 (hheld hgives)
    omega
  exact ⟨hcount, hused, noTable_eq_false.1 htable⟩

end Step

/-- A run follows Linux's rules exactly if every handle that is given back has one reference
outstanding, and no search with such a handle lacks its string or table. -/
theorem ownsHandles_iff (F : OpenFirmware) (A : NodeAllocator) (fuel : ℕ) {ops : List OfOp}
    {s : OfState} (hrun : runSchedule (ofStep F A fuel) ops {} = some s) :
    Along (ofStep F A fuel) (OwnsHandles F A fuel) ops {} ↔
      Along (ofStep F A fuel) SoleReference ops {} := by
  constructor
  · intro h
    exact h.imp (I := fun _ => True) (fun _ _ _ => trivial)
      (fun hstep _ hop => soleReference_of_ownsHandles hstep hop) hrun trivial
  · intro h
    refine h.imp (I := OfState.Covered) (fun hstep hop hs => hs.step hstep hop)
      ownsHandles_of_soleReference hrun ⟨List.nodup_nil, List.not_mem_nil, ?_⟩
    exact fun np hnp => absurd hnp List.not_mem_nil

/-- A tree with one node, compatible with "brcm,bcm2712-vc6". -/
def oneNode : OpenFirmware where
  ofChild _ := 0
  ofPeer node := if node = 0 then 1 else 0
  ofParent _ := 0
  ofGetencprop _ _ := []
  ofNodeFromXref _ := 0
  ofwBusNodeIsCompatible node s := node == 1 && s == "brcm,bcm2712-vc6"
  embedded _ := 0

/-- Addresses are handed out in turn. -/
def turnAllocator : NodeAllocator where
  malloc calls used := if calls + 1 ∈ used then none else some (calls + 1)
  fresh := by
    intro calls used p h
    split at h
    · simp at h
    · next hfree =>
      obtain rfl := Option.some.inj h
      exact ⟨hfree, Nat.succ_ne_zero _⟩

/-- A node is found, and the search goes on from it. -/
theorem ownsHandles_search : ∃ s, runSchedule (ofStep oneNode turnAllocator 3)
      [.findCompatible NULL (some "brcm,bcm2712-vc6"), .findCompatible 1 (some "brcm,bcm2712-vc6")]
      {} = some s ∧
    Along (ofStep oneNode turnAllocator 3) (OwnsHandles oneNode turnAllocator 3)
      [.findCompatible NULL (some "brcm,bcm2712-vc6"), .findCompatible 1 (some "brcm,bcm2712-vc6")]
      {} := by
  refine ⟨_, rfl, (ownsHandles_iff oneNode turnAllocator 3 rfl).2 ⟨?_, ?_⟩⟩
  · exact fun h => absurd rfl h
  · intro s hs
    obtain rfl := Option.some.inj hs
    refine ⟨fun _ => ⟨by decide, by decide, ?_, ?_⟩, fun _ _ => trivial⟩
    · exact fun start h => nomatch h
    · exact fun start h => nomatch h

/-- The node found is held twice, and freed when the first reference is put. -/
theorem not_ownsHandles_get :
    ¬ ∀ (F : OpenFirmware) (A : NodeAllocator) (fuel : ℕ) (ops : List OfOp) (s : OfState),
      runSchedule (ofStep F A fuel) ops {} = some s →
        Along (ofStep F A fuel) (OwnsHandles F A fuel) ops {} := by
  intro h
  have hown := h oneNode turnAllocator 3
    [.findCompatible NULL (some "brcm,bcm2712-vc6"), .nodeGet 1, .nodePut 1] _ rfl
  have hput := ((hown.2 _ rfl).2 _ rfl).1.freed _ rfl 1 rfl
  exact hput.2 (by decide)

end KernelModules
