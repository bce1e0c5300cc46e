import KernelModules.Forest
import KernelModules.OfMatch
import Mathlib.Algebra.Order.BigOperators.Group.List
import Mathlib.Algebra.Order.Group.Nat
import Mathlib.Algebra.Order.Ring.Nat
import Mathlib.Order.Filter.AtTopBot.Basic

/-!
# Walking the device tree

`of_next_node` gets from a node to the next one by the links alone, without a stack. On a tree
the links describe it runs through the nodes in document order (`follows_ofNextNode`), so a
search that is restarted from each node it found finds all of them (`ofSearchAll_eq`).

How much fuel the climbs need depends on the tree. The results hold for all fuel from some
amount on.
-/

namespace KernelModules

open Filter

/-! ## Loops of callers -/

section Loops

variable (F : OpenFirmware)

/-- `while ((node = of_next_node(node)) != 0) visit(node);`, with the nodes visited. -/
def ofWalk (fuel : ℕ) : ℕ → ℕ → Option (List ℕ)
  | 0, _ => none
  | rounds + 1, node =>
    (ofNextNode F fuel node).bind fun next =>
      if next = 0 then some [] else (ofWalk fuel rounds next).map (next :: ·)

/-- `while ((np = search(np)) != NULL) visit(np);`, with the nodes visited. -/
def ofSearchAll (search : Ptr → OfHeap → Option (Ptr × OfHeap)) : ℕ → Ptr → OfHeap →
    Option (List ℕ)
  | 0, _, _ => none
  | rounds + 1, np, h =>
    (search np h).bind fun r =>
      if r.1 = NULL then some []
      else (ofSearchAll search rounds r.1 r.2).map (r.2.node F r.1 :: ·)

end Loops

/-! ## Trees -/

/-- The links of the device tree. -/
def OpenFirmware.links (F : OpenFirmware) : Links ℕ :=
  ⟨0, F.ofChild, F.ofPeer, F.ofParent⟩

/-- The firmware describes the tree with this root, whose children are the trees of
`children`. -/
structure OpenFirmware.Describes (F : OpenFirmware) (root : ℕ) (children : Forest ℕ) : Prop where
  start : F.ofPeer 0 = root
  linked : (Forest.cons root children .nil).Linked F.links 0

section Walk

variable {F : OpenFirmware}

theorem eventually_ofNextAbove {a b : ℕ} (h : F.links.Above a b) :
    ∀ᶠ fuel in atTop, ofNextAbove F fuel a = some b := by
  induction h with
  | top =>
    filter_upwards [eventually_ge_atTop 1] with fuel hfuel
    obtain ⟨fuel, rfl⟩ := Nat.exists_eq_add_of_le' hfuel
    exact if_pos rfl
  | @peer a ha h =>
    filter_upwards [eventually_ge_atTop 1] with fuel hfuel
    obtain ⟨fuel, rfl⟩ := Nat.exists_eq_add_of_le' hfuel
    exact (if_neg ha).trans (if_pos h)
  | @up a b ha h _ ih =>
    obtain ⟨n, hn⟩ := eventually_atTop.1 ih
    filter_upwards [eventually_ge_atTop (n + 1)] with fuel hfuel
    obtain ⟨fuel, rfl⟩ := Nat.exists_eq_add_of_le' (Nat.one_le_of_lt hfuel)
    refine (if_neg ha).trans ((if_neg (not_not.2 h)).trans (hn fuel ?_))
    omega

theorem eventually_ofNextNode {a b : ℕ} (ha : a ≠ 0) (h : F.links.Next a b) :
    ∀ᶠ fuel in atTop, ofNextNode F fuel a = some b := by
  cases h with
  | child h => exact Eventually.of_forall fun fuel => (if_neg ha).trans (if_pos h)
  | above h hb =>
    filter_upwards [eventually_ofNextAbove hb] with fuel hfuel
    exact (if_neg ha).trans ((if_neg (not_not.2 h)).trans hfuel)

theorem eventually_follows : ∀ {l : List ℕ}, (∀ a ∈ l, a ≠ 0) → Follows F.links.Next 0 l →
    ∀ᶠ fuel in atTop, Follows (fun a b => ofNextNode F fuel a = some b) 0 l
  | [], _, _ => Eventually.of_forall fun _ => trivial
  | a :: l, hne, h => by
    have hrest := eventually_follows (fun b hb => hne b (List.mem_cons_of_mem _ hb)) h.2
    filter_upwards [eventually_ofNextNode (hne a List.mem_cons_self) h.1, hrest] with fuel h₁ h₂
    exact ⟨h₁, h₂⟩

variable {root : ℕ} {children : Forest ℕ} (hF : F.Describes root children)

include hF

theorem OpenFirmware.Describes.ne_zero : ∀ a ∈ root :: children.preorder, a ≠ 0 := by
  have h := hF.linked.ne_null
  rwa [Forest.preorder, Forest.preorder, List.append_nil] at h

/-- From 0, `of_next_node` gets to the root, from there through the tree in pre-order, and from
the last node back to 0. -/
theorem follows_ofNextNode : ∀ᶠ fuel in atTop,
    Follows (fun a b => ofNextNode F fuel a = some b) 0 (0 :: root :: children.preorder) := by
  have h := hF.linked.follows .top
  rw [Forest.preorder, Forest.preorder, List.append_nil] at h
  filter_upwards [eventually_follows hF.ne_zero h] with fuel hfuel
  exact ⟨(if_pos rfl).trans (congrArg some hF.start), hfuel⟩

end Walk

/-! ## The walk -/

theorem ofWalk_eq {F : OpenFirmware} {fuel : ℕ} : ∀ {l : List ℕ} {a rounds : ℕ},
    Follows (fun a b => ofNextNode F fuel a = some b) 0 (a :: l) → (∀ b ∈ l, b ≠ 0) →
      l.length < rounds → ofWalk F fuel rounds a = some l
  | _, _, 0, _, _, h => absurd h (Nat.not_lt_zero _)
  | [], a, rounds + 1, h, _, _ => by
    rw [ofWalk, h.1]
    rfl
  | b :: l, a, rounds + 1, h, hne, hlt => by
    have hrest := ofWalk_eq h.2 (fun c hc => hne c (List.mem_cons_of_mem _ hc))
      (Nat.lt_of_succ_lt_succ hlt)
    rw [ofWalk, h.1, Option.bind_some, List.headD_cons, if_neg (hne b List.mem_cons_self), hrest]
    rfl

/-! ## Searches -/

section Search

variable {F : OpenFirmware} {α : Type} {found : ℕ → Option α}

/-- The first node of the list that there is an answer for. -/
def firstFound (found : ℕ → Option α) (l : List ℕ) : Option (ℕ × α) :=
  l.findSome? fun a => (found a).map (a, ·)

/-- A search from a node finds the first node after it that there is an answer for. -/
theorem ofFindAfter_eq {n : ℕ} : ∀ {l : List ℕ} {a fuel : ℕ},
    (∀ fuel ≥ n, Follows (fun a b => ofNextNode F fuel a = some b) 0 (a :: l)) →
      (∀ b ∈ l, b ≠ 0) → n + l.length < fuel →
      ofFindAfter F found fuel a = some (firstFound found l)
  | _, _, 0, _, _, h => absurd h (Nat.not_lt_zero _)
  | [], a, fuel + 1, h, _, hlt => by
    rw [ofFindAfter, (h fuel (Nat.le_of_lt_succ hlt)).1]
    rfl
  | b :: l, a, fuel + 1, h, hne, hlt => by
    rw [List.length_cons] at hlt
    have hrest : ofFindAfter F found fuel b = some (firstFound found l) :=
      ofFindAfter_eq (fun f hf => (h f hf).2) (fun c hc => hne c (List.mem_cons_of_mem _ hc))
        (by omega)
    rw [ofFindAfter, (h fuel (by omega)).1, Option.bind_some, List.headD_cons,
      if_neg (hne b List.mem_cons_self), firstFound, List.findSome?_cons]
    cases found b with
    | none => exact hrest
    | some x => rfl

variable {A : NodeAllocator}

/-- What a search does with the node it found, if any. -/
def foundNode (A : NodeAllocator) (h : OfHeap) : Option (ℕ × α) → Ptr × OfHeap
  | none => (NULL, h)
  | some (node, _) => h.newNode A node

theorem ofFindCompatibleNode_eq (F : OpenFirmware) (A : NodeAllocator) (fuel : ℕ) (np : Ptr)
    (compat : String) (h : OfHeap) :
    ofFindCompatibleNode F A fuel np (some compat) h =
      (ofFindAfter F (fun node => if F.ofwBusNodeIsCompatible node compat then some () else none)
        fuel (takeFrom F np h).1).map (foundNode A (takeFrom F np h).2) := by
  refine congrArg (Option.map · _) (funext fun r => ?_)
  rcases r with _ | ⟨node, -⟩ <;> rfl

theorem ofFindMatchingNodeAndMatch_eq (F : OpenFirmware) (A : NodeAllocator) (fuel : ℕ) (np : Ptr)
    (ids : List OfDeviceId) (h : OfHeap) :
    (ofFindMatchingNodeAndMatch F A fuel np (some ids) h).map (fun r => (r.1, r.2.2)) =
      (ofFindAfter F (matchTable F · ids) fuel (takeFrom F np h).1).map
        (foundNode A (takeFrom F np h).2) := by
  simp only [ofFindMatchingNodeAndMatch, Option.map_map]
  refine congrArg (Option.map · _) (funext fun r => ?_)
  rcases r with _ | ⟨node, id⟩
  · rfl
  · simp only [Function.comp_apply, foundNode]
    split
    · next hnew => exact hnew.symm
    · next hnew => exact hnew.symm

theorem newNode_ne_null (hA : ∀ calls used, (A.malloc calls used).isSome = true) (node : ℕ)
    (h : OfHeap) : (h.newNode A node).1 ≠ NULL := by
  obtain ⟨p, hp⟩ := Option.isSome_iff_exists.1 (hA h.mallocs h.used)
  rw [OfHeap.newNode, hp]
  exact (A.fresh hp).2

/-- Restarted from each node it found, the search finds all nodes there is an answer for. -/
theorem ofSearchAll_eq (hA : ∀ calls used, (A.malloc calls used).isSome = true) {fuel : ℕ}
    {search : Ptr → OfHeap → Option (Ptr × OfHeap)}
    (hsearch : ∀ np h, search np h = (ofFindAfter F found fuel (takeFrom F np h).1).map
      (foundNode A (takeFrom F np h).2)) : ∀ {l : List ℕ} {rounds : ℕ} {np : Ptr} {h : OfHeap},
    (∀ b l', b :: l' <:+ l → ofFindAfter F found fuel b = some (firstFound found l')) →
      ofFindAfter F found fuel (takeFrom F np h).1 = some (firstFound found l) →
      l.length < rounds →
      ofSearchAll F search rounds np h = some (l.filter fun a => (found a).isSome)
  | _, 0, _, _, _, _, hlt => absurd hlt (Nat.not_lt_zero _)
  | [], rounds + 1, np, h, _, hfind, _ => by
    rw [ofSearchAll, hsearch, hfind]
    rfl
  | b :: l, rounds + 1, np, h, hsuffix, hfind, hlt => by
    have hsuffix' : ∀ c l', c :: l' <:+ l → ofFindAfter F found fuel c =
        some (firstFound found l') := fun c l' hl' =>
      hsuffix c l' (hl'.trans (List.suffix_cons b l))
    cases hb : found b with
    | none =>
      have hnext : firstFound found (b :: l) = firstFound found l := by
        rw [firstFound, List.findSome?_cons, hb]
        rfl
      rw [List.filter_cons_of_neg (by simp [hb])]
      exact ofSearchAll_eq hA hsearch hsuffix' (hnext ▸ hfind) (Nat.lt_of_succ_lt hlt)
    | some x =>
      have hnext : firstFound found (b :: l) = some (b, x) := by
        rw [firstFound, List.findSome?_cons, hb]
        rfl
      rw [List.filter_cons_of_pos (by simp [hb]), ofSearchAll, hsearch, hfind, hnext]
      have hne := newNode_ne_null hA b (takeFrom F np h).2
      have hnode := node_newNode (F := F) (Prod.eta ((takeFrom F np h).2.newNode A b)).symm hne
      have hstart : (takeFrom F ((takeFrom F np h).2.newNode A b).1
          ((takeFrom F np h).2.newNode A b).2).1 = b := by
        rw [takeFrom, if_pos hne, hnode]
      have hrest := ofSearchAll_eq hA hsearch hsuffix'
        (hstart.symm ▸ hsuffix b l (List.suffix_refl _)) (Nat.lt_of_succ_lt_succ hlt)
      rw [Option.map_some, Option.bind_some, foundNode, if_neg hne, hrest, hnode]
      rfl

end Search

/-- The walk visits every node of the tree once, in document order, and a search that is
restarted from each node it found finds every node it looks for once, in this order. -/
theorem ofNextNode_complete {F : OpenFirmware} {root : ℕ} {children : Forest ℕ}
    (hF : F.Describes root children) {A : NodeAllocator}
    (hA : ∀ calls used, (A.malloc calls used).isSome = true) :
    (root :: children.preorder).Nodup ∧ ∃ bound, ∀ fuel ≥ bound, ∀ rounds,
      (root :: children.preorder).length < rounds →
        ofWalk F fuel rounds 0 = some (root :: children.preorder) ∧
        (∀ compat h, ofSearchAll F (fun np h => ofFindCompatibleNode F A fuel np (some compat) h)
            rounds NULL h =
          some ((root :: children.preorder).filter fun node =>
            F.ofwBusNodeIsCompatible node compat)) ∧
        ∀ ids h, ofSearchAll F (fun np h => (ofFindMatchingNodeAndMatch F A fuel np (some ids)
            h).map fun r => (r.1, r.2.2)) rounds NULL h =
          some ((root :: children.preorder).filter fun node =>
            (entriesOf ids).any fun id => F.ofwBusNodeIsCompatible node id.compatible) := by
  obtain ⟨n, hn⟩ := eventually_atTop.1 (follows_ofNextNode hF)
  have hne := hF.ne_zero
  refine ⟨(hn n le_rfl).2.nodup (fun a b c hb hc => Option.some.inj (hb.symm.trans hc))
    fun h0 => hne 0 h0 rfl, n + (root :: children.preorder).length + 1,
    fun fuel hfuel rounds hrounds => ?_⟩
  generalize root :: children.preorder = l at *
  -- A search from any node of the list, or from 0, finds the first node after it.
  have hfind : ∀ {α : Type} (found : ℕ → Option α) b l', b :: l' <:+ 0 :: l →
      ofFindAfter F found fuel b = some (firstFound found l') := by
    intro α found b l' hsuffix
    have hlen := hsuffix.length_le
    rw [List.length_cons, List.length_cons] at hlen
    refine ofFindAfter_eq (fun f hf => (hn f hf).of_suffix hsuffix) (fun c hc => hne c ?_)
      (by omega)
    rcases List.suffix_cons_iff.1 hsuffix with heq | hsuffix'
    · exact (List.cons.inj heq).2 ▸ hc
    · exact hsuffix'.subset (List.mem_cons_of_mem _ hc)
  have hall : ∀ {α : Type} (found : ℕ → Option α) (search : Ptr → OfHeap → Option (Ptr × OfHeap)),
      (∀ np h, search np h = (ofFindAfter F found fuel (takeFrom F np h).1).map
        (foundNode A (takeFrom F np h).2)) →
      ∀ h, ofSearchAll F search rounds NULL h = some (l.filter fun a => (found a).isSome) :=
    fun found search hsearch h => ofSearchAll_eq hA hsearch
      (fun b l' hl' => hfind found b l' (hl'.trans (List.suffix_cons 0 l)))
      (hfind found 0 l (List.suffix_refl _)) hrounds
  refine ⟨ofWalk_eq (hn fuel (by omega)) hne hrounds, fun compat h => ?_, fun ids h => ?_⟩
  · rw [hall _ _ fun np h => ofFindCompatibleNode_eq F A fuel np compat h]
    refine congrArg some (List.filter_congr fun a _ => ?_)
    cases F.ofwBusNodeIsCompatible a compat <;> rfl
  · rw [hall _ _ fun np h => ofFindMatchingNodeAndMatch_eq F A fuel np ids h]
    refine congrArg some (List.filter_congr fun a _ => ?_)
    rw [matchTable_eq, Bool.eq_iff_iff, List.find?_isSome, List.any_eq_true]

/-- Handles from above all addresses in use. -/
def sumAllocator : NodeAllocator where
  malloc _ used := some (used.sum + 1)
  fresh := by
    rintro calls used p ⟨⟩
    exact ⟨fun h => Nat.not_succ_le_self _ (List.le_sum_of_mem h), Nat.succ_ne_zero _⟩

/-- The tree with the root 1, its children 2 and 4, and the child 3 of 2. Odd nodes are
compatible with "hvs". -/
def fourNodes : OpenFirmware where
  ofChild node := if node = 1 then 2 else if node = 2 then 3 else 0
  ofPeer node := if node = 0 then 1 else if node = 2 then 4 else 0
  ofParent node := if node = 3 then 2 else if node = 2 ∨ node = 4 then 1 else 0
  ofGetencprop _ _ := []
  ofNodeFromXref _ := 0
  ofwBusNodeIsCompatible node s := node % 2 == 1 && s == "hvs"
  embedded _ := 0

/-- The climb from node 3 goes over node 2 to node 4. -/
theorem ofNextNode_complete_fourNodes :
    ([1, 2, 3, 4] : List ℕ).Nodup ∧ ∃ bound, ∀ fuel ≥ bound,
      ofWalk fourNodes fuel 5 0 = some [1, 2, 3, 4] ∧
        ofSearchAll fourNodes (fun np h => ofFindCompatibleNode fourNodes sumAllocator fuel np
          (some "hvs") h) 5 NULL {} = some [1, 3] := by
  have hF : fourNodes.Describes 1 (.cons 2 (.cons 3 .nil .nil) (.cons 4 .nil .nil)) :=
    ⟨rfl, by decide, rfl, rfl, rfl, ⟨by decide, rfl, rfl, rfl, ⟨by decide, rfl, rfl, rfl, trivial,
      trivial⟩, by decide, rfl, rfl, rfl, trivial, trivial⟩, trivial⟩
  obtain ⟨hnodup, bound, h⟩ := ofNextNode_complete hF (A := sumAllocator) fun _ _ => rfl
  refine ⟨hnodup, bound, fun fuel hfuel => ?_⟩
  obtain ⟨hwalk, hcompat, -⟩ := h fuel hfuel 5 (by decide)
  exact ⟨hwalk, (hcompat "hvs" {}).trans (by decide)⟩

end KernelModules
