import KernelModules.OfNode
import KernelModules.Vc4Drv

/-!
# Variants of a device

A driver has one match table for all the variants it drives. The entry that matches the
device's node says which variant it is. The node's `compatible` property lists the strings it
claims, the most specific one first.

Linux scores an entry by the place its string has in the node's list, and takes the entry with
the best score (`linuxOfMatchNode`). `of_match_device` and the functions like it take the first
entry of the table whose string the node claims at all (`matchTable`). The two agree exactly if,
at every node that is looked at, no entry for a later one of the node's strings stands before all
entries for the earliest one (`agreesWithLinux_iff`).
-/

namespace KernelModules

/-! ## The functions -/

/-- `dev_of_node` -/
def devOfNode (dev : Ptr) (l : List LkpiOfEnt) : Ptr :=
  if dev = NULL then NULL else ((l.find? (·.dev == dev)).map LkpiOfEnt.node).getD NULL

/-- `lkpi_of_match_table` -/
def lkpiOfMatchTable (dev : Ptr) (l : List LkpiOfEnt) : Ptr :=
  if dev = NULL then NULL else ((l.find? (·.dev == dev)).map LkpiOfEnt.matchTable).getD NULL

section Source

variable (F : OpenFirmware) (tables : Ptr → List OfDeviceId) (l : List LkpiOfEnt) (h : OfHeap)

/-- `of_match_device`. `tables` are the match tables in memory. -/
def ofMatchDevice (ids dev : Ptr) : Option OfDeviceId :=
  if ids = NULL ∨ dev = NULL then none
  else if devOfNode dev l = NULL then none
  else matchTable F (h.node F (devOfNode dev l)) (tables ids)

/-- `of_device_get_match_data` -/
def ofDeviceGetMatchData (dev : Ptr) : Ptr :=
  if dev = NULL then NULL
  else ((ofMatchDevice F tables l h (lkpiOfMatchTable dev l) dev).map OfDeviceId.data).getD NULL

end Source

/-! ## Linux -/

/-- The entries of a table, up to the one that ends it. -/
def entriesOf (ids : List OfDeviceId) : List OfDeviceId :=
  ids.takeWhile (·.compatible != "")

/-- `__of_device_is_compatible` for an entry with only a string : the earlier the string in the
node's list the higher the score, and 0 if it is not there. -/
def linuxScore (compat : List String) (id : OfDeviceId) : ℕ :=
  if id.compatible ∈ compat then compat.length - compat.idxOf id.compatible else 0

/-- The body of the loop of `__of_match_node`, on the best entry so far and its score. -/
def linuxBetter (compat : List String) (best : Option OfDeviceId × ℕ) (id : OfDeviceId) :
    Option OfDeviceId × ℕ :=
  if best.2 < linuxScore compat id then (some id, linuxScore compat id) else best

/-- Linux's `of_match_node`. -/
def linuxOfMatchNode (compat : List String) (ids : List OfDeviceId) : Option OfDeviceId :=
  ((entriesOf ids).foldl (linuxBetter compat) (none, 0)).1

theorem linuxScore_nil (id : OfDeviceId) : linuxScore [] id = 0 :=
  if_neg List.not_mem_nil

theorem linuxScore_le (compat : List String) (id : OfDeviceId) :
    linuxScore compat id ≤ compat.length := by
  unfold linuxScore
  split <;> omega

theorem linuxScore_cons_self (compat : List String) {s : String} {id : OfDeviceId}
    (h : id.compatible = s) : linuxScore (s :: compat) id = compat.length + 1 := by
  simp [linuxScore, h]

theorem linuxScore_cons_of_ne {s : String} {compat : List String} {id : OfDeviceId}
    (h : id.compatible ≠ s) : linuxScore (s :: compat) id = linuxScore compat id := by
  by_cases hmem : id.compatible ∈ compat
  · simp [linuxScore, hmem, List.idxOf_cons_ne _ (Ne.symm h)]
  · simp [linuxScore, hmem, h]

/-- Entries that score at most `c` leave the best score at most `c`. -/
theorem foldl_linuxBetter_le {compat : List String} {c : ℕ} :
    ∀ (ids : List OfDeviceId) (best : Option OfDeviceId × ℕ), best.2 ≤ c →
      (∀ id ∈ ids, linuxScore compat id ≤ c) → (ids.foldl (linuxBetter compat) best).2 ≤ c
  | [], _, hb, _ => hb
  | id :: ids, best, hb, h => by
    refine foldl_linuxBetter_le ids _ ?_ fun id' hid' => h id' (List.mem_cons_of_mem _ hid')
    unfold linuxBetter
    split
    · exact h id List.mem_cons_self
    · exact hb

/-- Entries that do not score more leave the best one. -/
theorem foldl_linuxBetter_eq {compat : List String} :
    ∀ (ids : List OfDeviceId) (best : Option OfDeviceId × ℕ),
      (∀ id ∈ ids, linuxScore compat id ≤ best.2) → ids.foldl (linuxBetter compat) best = best
  | [], _, _ => rfl
  | id :: ids, best, h => by
    have hid : linuxBetter compat best id = best := if_neg (Nat.not_lt.2 (h id List.mem_cons_self))
    rw [List.foldl_cons, hid]
    exact foldl_linuxBetter_eq ids best fun id' hid' => h id' (List.mem_cons_of_mem _ hid')

theorem foldl_linuxBetter_cons {s : String} {compat : List String} (ids : List OfDeviceId) :
    (ids.foldl (linuxBetter (s :: compat)) (none, 0)).1 =
      ((ids.find? (·.compatible == s)).or (ids.foldl (linuxBetter compat) (none, 0)).1) := by
  cases hf : ids.find? (·.compatible == s) with
  | none =>
    have hne : ∀ id ∈ ids, id.compatible ≠ s := fun id hid => by
      simpa using List.find?_eq_none.1 hf id hid
    rw [Option.none_or]
    refine congrArg Prod.fst (List.foldl_ext _ _ _ fun best id hid => ?_)
    rw [linuxBetter, linuxBetter, linuxScore_cons_of_ne (hne id hid)]
  | some id =>
    obtain ⟨hs, l₁, l₂, rfl, hl₁⟩ := List.find?_eq_some_iff_append.1 hf
    have hbefore : ∀ id' ∈ l₁, linuxScore (s :: compat) id' ≤ compat.length := fun id' hid' => by
      rw [linuxScore_cons_of_ne (by simpa using hl₁ id' hid')]
      exact linuxScore_le compat id'
    have hle := foldl_linuxBetter_le l₁ (none, 0) (Nat.zero_le _) hbefore
    have hid := linuxScore_cons_self compat (beq_iff_eq.1 hs)
    have hbest : linuxBetter (s :: compat) (l₁.foldl (linuxBetter (s :: compat)) (none, 0)) id =
        (some id, compat.length + 1) := by
      rw [linuxBetter, hid, if_pos (Nat.lt_succ_of_le hle)]
    rw [List.foldl_append, List.foldl_cons, hbest, foldl_linuxBetter_eq]
    · rfl
    · exact fun id' _ => linuxScore_le (s :: compat) id'

/-- Linux takes the entry that names the earliest string of the node's list that any entry
names, the first such entry if there are several. -/
theorem linuxOfMatchNode_eq (ids : List OfDeviceId) : ∀ compat : List String,
    linuxOfMatchNode compat ids =
      compat.findSome? fun s => (entriesOf ids).find? (·.compatible == s)
  | [] => by
    rw [linuxOfMatchNode, foldl_linuxBetter_eq]
    · rfl
    · exact fun id _ => Nat.le_of_eq (linuxScore_nil id)
  | s :: compat => by
    rw [linuxOfMatchNode, foldl_linuxBetter_cons, List.findSome?_cons]
    cases hf : (entriesOf ids).find? (·.compatible == s) with
    | none => exact linuxOfMatchNode_eq ids compat
    | some id => rfl

/-! ## When the two agree -/

theorem matchTable_eq (F : OpenFirmware) (node : ℕ) : ∀ ids : List OfDeviceId,
    matchTable F node ids =
      (entriesOf ids).find? fun id => F.ofwBusNodeIsCompatible node id.compatible
  | [] => rfl
  | id :: ids => by
    rw [matchTable, entriesOf]
    by_cases hend : id.compatible = ""
    · rw [if_pos hend, List.takeWhile_cons_of_neg (by simp [hend])]
      rfl
    · rw [if_neg hend, List.takeWhile_cons_of_pos (by simp [hend]), List.find?_cons,
        matchTable_eq F node ids]
      cases F.ofwBusNodeIsCompatible node id.compatible <;> rfl

/-- In the order of the table, an entry that names one of the strings never comes before all those
that name the earliest string any entry names. -/
def EarliestFirst (compat : List String) (ids : List OfDeviceId) : Prop :=
  ∀ l₁ id l₂, entriesOf ids = l₁ ++ id :: l₂ → id.compatible ∈ compat →
    ∃ first ∈ l₁ ++ [id], first.compatible ∈ compat ∧
      ∀ id' ∈ entriesOf ids, id'.compatible ∈ compat →
        compat.idxOf first.compatible ≤ compat.idxOf id'.compatible

/-- Linux finds an entry that names one of the strings, if there is one. -/
theorem linuxOfMatchNode_eq_none_iff {compat : List String} {ids : List OfDeviceId} :
    linuxOfMatchNode compat ids = none ↔ ∀ id ∈ entriesOf ids, id.compatible ∉ compat := by
  simp only [linuxOfMatchNode_eq, List.findSome?_eq_none_iff, List.find?_eq_none, beq_iff_eq]
  constructor
  · exact fun h id hid hmem => h _ hmem id hid rfl
  · rintro h s hs id hid rfl
    exact h id hid hs

theorem find?_named_eq_none_iff {compat : List String} {ids : List OfDeviceId} :
    (entriesOf ids).find? (fun id => decide (id.compatible ∈ compat)) = none ↔
      ∀ id ∈ entriesOf ids, id.compatible ∉ compat := by
  simp only [List.find?_eq_none, decide_eq_true_iff]

/-- What Linux finds names the earliest of the strings. -/
theorem idxOf_le_of_linuxOfMatchNode {compat : List String} {ids : List OfDeviceId}
    {id : OfDeviceId} (h : linuxOfMatchNode compat ids = some id) {id' : OfDeviceId}
    (hid' : id' ∈ entriesOf ids) :
    compat.idxOf id.compatible ≤ compat.idxOf id'.compatible := by
  rw [linuxOfMatchNode_eq, List.findSome?_eq_some_iff] at h
  obtain ⟨l₁, s, l₂, rfl, hs, hl₁⟩ := h
  have hname : id.compatible = s := by simpa using List.find?_some hs
  have hnot : id'.compatible ∉ l₁ := fun h => by
    simpa using List.find?_eq_none.1 (hl₁ _ h) id' hid'
  have hle : (l₁ ++ s :: l₂).idxOf s ≤ l₁.length := by
    by_cases hs₁ : s ∈ l₁
    · rw [List.idxOf_append_of_mem hs₁]
      exact List.idxOf_le_length
    · have hidx : (l₁ ++ s :: l₂).idxOf s = l₁.length + 0 := by
        rw [List.idxOf_append_of_notMem hs₁, List.idxOf_cons_self]
      omega
  rw [hname, List.idxOf_append_of_notMem hnot]
  omega

theorem earliestFirst_of_eq {compat : List String} {ids : List OfDeviceId}
    (h : (entriesOf ids).find? (fun id => decide (id.compatible ∈ compat)) =
      linuxOfMatchNode compat ids) : EarliestFirst compat ids := by
  intro l₁ id l₂ hsplit hmem
  obtain ⟨first, hfirst⟩ : ∃ first, (l₁ ++ [id]).find? (fun id => decide (id.compatible ∈ compat)) =
      some first := by
    rw [← Option.isSome_iff_exists, List.find?_isSome]
    exact ⟨id, List.mem_append_right _ List.mem_cons_self, decide_eq_true hmem⟩
  have hlinux : linuxOfMatchNode compat ids = some first := by
    rw [← h, hsplit, List.append_cons, List.find?_append, hfirst, Option.some_or]
  refine ⟨first, List.mem_of_find?_eq_some hfirst, by simpa using List.find?_some hfirst, ?_⟩
  exact fun id' hid' _ => idxOf_le_of_linuxOfMatchNode hlinux hid'

theorem eq_of_earliestFirst {compat : List String} {ids : List OfDeviceId}
    (h : EarliestFirst compat ids) :
    (entriesOf ids).find? (fun id => decide (id.compatible ∈ compat)) =
      linuxOfMatchNode compat ids := by
  cases hf : (entriesOf ids).find? (fun id => decide (id.compatible ∈ compat)) with
  | none => exact (linuxOfMatchNode_eq_none_iff.2 (find?_named_eq_none_iff.1 hf)).symm
  | some id =>
    obtain ⟨hmem, l₁, l₂, hsplit, hl₁⟩ := List.find?_eq_some_iff_append.1 hf
    have hmem : id.compatible ∈ compat := by simpa using hmem
    -- The earliest one among the entries up to this one is this one.
    obtain ⟨first, hfirst, hnamed, hle⟩ := h l₁ id l₂ hsplit hmem
    obtain rfl : first = id := by
      rcases List.mem_append.1 hfirst with hbefore | hself
      · exact absurd hnamed (by simpa using hl₁ first hbefore)
      · exact List.mem_singleton.1 hself
    rw [linuxOfMatchNode_eq]
    obtain ⟨c₁, c₂, hc, hnot⟩ := List.eq_append_cons_of_mem hmem
    refine (List.findSome?_eq_some_iff.2 ⟨c₁, first.compatible, c₂, hc, ?_, fun s hs => ?_⟩).symm
    · -- No entry before names a string of the list, so none names this one.
      refine List.find?_eq_some_iff_append.2 ⟨by simp, l₁, l₂, hsplit, fun id' hid' => ?_⟩
      have hid' : id'.compatible ∉ compat := by simpa using hl₁ id' hid'
      simpa using fun heq : id'.compatible = first.compatible => hid' (heq ▸ hmem)
    · refine List.find?_eq_none.2 fun id' hid' hname => ?_
      rw [beq_iff_eq] at hname
      have hmem' : id'.compatible ∈ compat := by simp [hc, hname, hs]
      have hle := hle id' hid' hmem'
      have hlt := List.idxOf_lt_length_of_mem hs
      rw [hname, hc, List.idxOf_append_of_notMem hnot, List.idxOf_append_of_mem hs] at hle
      omega

/-! ## Searches -/

/-- The search of `of_find_matching_node_and_match` with `found` for the match at a node. -/
def ofFindWith (F : OpenFirmware) (A : NodeAllocator) (found : ℕ → Option OfDeviceId) (fuel : ℕ)
    (start : Ptr) (h : OfHeap) : Option (Ptr × Option OfDeviceId × OfHeap) :=
  let (node, h) := takeFrom F start h
  (ofFindAfter F found fuel node).map fun
    | none => (NULL, none, h)
    | some (node, id) =>
      match h.newNode A node with
      | (0, h) => (NULL, none, h)
      | (np, h) => (np, some id, h)

theorem ofFindMatchingNodeAndMatch_eq_findWith (F : OpenFirmware) (A : NodeAllocator) (fuel : ℕ)
    (start : Ptr) (ids : List OfDeviceId) (h : OfHeap) :
    ofFindMatchingNodeAndMatch F A fuel start (some ids) h =
      ofFindWith F A (matchTable F · ids) fuel start h :=
  rfl

/-- Linux's `of_find_matching_node_and_match` : the first node that `of_match_node` has an entry
for, and this entry. -/
def linuxFindMatching (F : OpenFirmware) (A : NodeAllocator) (compat : ℕ → List String)
    (fuel : ℕ) (start : Ptr) (ids : List OfDeviceId) (h : OfHeap) :
    Option (Ptr × Option OfDeviceId × OfHeap) :=
  ofFindWith F A (fun node => linuxOfMatchNode (compat node) ids) fuel start h

/-- A search depends on the matches at the nodes it can come to. -/
theorem ofFindAfter_congr {F : OpenFirmware} {α : Type} {found found' : ℕ → Option α}
    (h : ∀ fuel prev node, ofNextNode F fuel prev = some node → node ≠ 0 →
      found node = found' node) :
    ∀ fuel start, ofFindAfter F found fuel start = ofFindAfter F found' fuel start
  | 0, _ => rfl
  | fuel + 1, start => by
    rw [ofFindAfter, ofFindAfter]
    cases hnext : ofNextNode F fuel start with
    | none => rfl
    | some node =>
      by_cases h0 : node = 0
      · simp only [Option.bind_some, if_pos h0]
      · simp only [Option.bind_some, if_neg h0, h fuel start node hnext h0,
          ofFindAfter_congr h fuel node]

/-- A new handle is a handle on its node. -/
theorem node_newNode {F : OpenFirmware} {A : NodeAllocator} {node : ℕ} {h h' : OfHeap} {p : Ptr}
    (hnew : h.newNode A node = (p, h')) (hp : p ≠ NULL) : h'.node F p = node := by
  unfold OfHeap.newNode at hnew
  split at hnew
  · exact absurd (Prod.mk.inj hnew).1.symm hp
  · next q hq =>
    obtain ⟨rfl, rfl⟩ := Prod.mk.inj hnew
    have hnone : h.nodes.find? (·.1 == q) = none := by
      refine List.find?_eq_none.2 fun e he heq => (A.fresh hq).1 ?_
      exact beq_iff_eq.1 heq ▸ List.mem_map_of_mem he
    simp [OfHeap.node, hnone]

theorem ofFindWith_congr {F : OpenFirmware} {A : NodeAllocator}
    {found found' : ℕ → Option OfDeviceId}
    (hfound : ∀ fuel prev node, ofNextNode F fuel prev = some node → node ≠ 0 →
      found node = found' node) (fuel : ℕ) (start : Ptr) (h : OfHeap) :
    ofFindWith F A found fuel start h = ofFindWith F A found' fuel start h := by
  simp only [ofFindWith, ofFindAfter_congr hfound]

/-- An allocator with one address. -/
theorem exists_allocator : ∃ A : NodeAllocator, A.malloc 0 [] = some 1 := by
  refine ⟨⟨fun _ used => if used = [] then some 1 else none, ?_⟩, rfl⟩
  rintro - used p hp
  obtain ⟨rfl, hone⟩ := Option.ite_none_right_eq_some.1 hp
  rw [← Option.some.inj hone]
  exact ⟨List.not_mem_nil, Nat.one_ne_zero⟩

/-- The entry of a search that starts at a handle on the node before `node`. -/
theorem ofFindWith_next {F : OpenFirmware} {A : NodeAllocator} {found : ℕ → Option OfDeviceId}
    {fuel prev node : ℕ} (hnext : ofNextNode F fuel prev = some node) (hne : node ≠ 0)
    (hA : A.malloc 0 [] = some 1) {id : OfDeviceId} (hfound : found node = some id) :
    (ofFindWith F A found (fuel + 1) 1 ⟨[(1, prev)], 0, []⟩).map (·.2.1) = some (some id) := by
  have htake : takeFrom F 1 ⟨[(1, prev)], 0, []⟩ = (prev, ⟨[], 0, [1]⟩) := by
    simp [takeFrom, NULL, OfHeap.node, ofNodePut, OfHeap.free]
  have hnew : OfHeap.newNode A node ⟨[], 0, [1]⟩ = (1, ⟨[(1, node)], 1, [1]⟩) := by
    simp [OfHeap.newNode, OfHeap.used, hA]
  rw [ofFindWith, htake]
  simp only [ofFindAfter, hnext, Option.bind_some, if_neg hne, hfound, Option.map_some, hnew]

/-! ## When the two agree -/

/-- A node that is looked at : the node of a registered device, or one a search can come to. -/
def LookedAt (F : OpenFirmware) (l : List LkpiOfEnt) (h : OfHeap) (node : ℕ) : Prop :=
  (∃ dev, devOfNode dev l ≠ NULL ∧ h.node F (devOfNode dev l) = node) ∨
    ∃ fuel prev, ofNextNode F fuel prev = some node ∧ node ≠ 0

/-- The three functions find what Linux finds : for each device that has a node, and in each search
of the tree. `compat` are the strings of the nodes. -/
structure AgreesWithLinux (F : OpenFirmware) (compat : ℕ → List String)
    (tables : Ptr → List OfDeviceId) (l : List LkpiOfEnt) (h : OfHeap) (ids : Ptr) : Prop where
  matchDevice : ∀ dev, devOfNode dev l ≠ NULL → ofMatchDevice F tables l h ids dev =
    linuxOfMatchNode (compat (h.node F (devOfNode dev l))) (tables ids)
  matchData : ∀ dev, devOfNode dev l ≠ NULL → lkpiOfMatchTable dev l = ids →
    ofDeviceGetMatchData F tables l h dev = ((linuxOfMatchNode
      (compat (h.node F (devOfNode dev l))) (tables ids)).map OfDeviceId.data).getD NULL
  findMatching : ∀ A fuel start h',
    ofFindMatchingNodeAndMatch F A fuel start (some (tables ids)) h' =
      linuxFindMatching F A compat fuel start (tables ids) h'

/-- The functions agree with Linux exactly if, for the strings of every node that is looked at, the
table has an entry for the earliest one before all entries for the others. -/
theorem agreesWithLinux_iff {F : OpenFirmware} {compat : ℕ → List String}
    (hF : ∀ node s, F.ofwBusNodeIsCompatible node s = true ↔ s ∈ compat node)
    (tables : Ptr → List OfDeviceId) (l : List LkpiOfEnt) (h : OfHeap) {ids : Ptr}
    (hids : ids ≠ NULL) :
    AgreesWithLinux F compat tables l h ids ↔
      ∀ node, LookedAt F l h node → EarliestFirst (compat node) (tables ids) := by
  have htable : ∀ node, matchTable F node (tables ids) =
      (entriesOf (tables ids)).find? fun id => decide (id.compatible ∈ compat node) := by
    intro node
    rw [matchTable_eq]
    refine congrArg (List.find? · _) (funext fun id => ?_)
    rw [Bool.eq_iff_iff, hF, decide_eq_true_iff]
  have hnull : ∀ {dev}, devOfNode dev l ≠ NULL → dev ≠ NULL := fun hdev h0 => hdev (if_pos h0)
  have hmatch : ∀ {dev}, devOfNode dev l ≠ NULL → ofMatchDevice F tables l h ids dev =
      matchTable F (h.node F (devOfNode dev l)) (tables ids) := fun hdev => by
    rw [ofMatchDevice, if_neg (not_or.2 ⟨hids, hnull hdev⟩), if_neg hdev]
  constructor
  · rintro hagrees node (⟨dev, hdev, rfl⟩ | ⟨fuel, prev, hnext, hne⟩)
    · exact earliestFirst_of_eq ((htable _).symm.trans
        ((hmatch hdev).symm.trans (hagrees.matchDevice dev hdev)))
    · refine earliestFirst_of_eq ((htable node).symm.trans ?_)
      cases hf : matchTable F node (tables ids) with
      | none =>
        rw [htable] at hf
        exact (linuxOfMatchNode_eq_none_iff.2 (find?_named_eq_none_iff.1 hf)).symm
      | some id =>
        obtain ⟨id', hid'⟩ : ∃ id', linuxOfMatchNode (compat node) (tables ids) = some id' := by
          refine Option.ne_none_iff_exists'.1 fun hnone => ?_
          rw [htable, find?_named_eq_none_iff.2 (linuxOfMatchNode_eq_none_iff.1 hnone)] at hf
          simp at hf
        -- The two searches stop at the node, each with its own entry.
        obtain ⟨A, hA⟩ := exists_allocator
        have heq := hagrees.findMatching A (fuel + 1) 1 ⟨[(1, prev)], 0, []⟩
        rw [ofFindMatchingNodeAndMatch_eq_findWith, linuxFindMatching] at heq
        have hours : (ofFindWith F A (matchTable F · (tables ids)) (fuel + 1) 1
            ⟨[(1, prev)], 0, []⟩).map (·.2.1) = some (some id) := ofFindWith_next hnext hne hA hf
        rw [heq, ofFindWith_next hnext hne hA hid'] at hours
        rw [hid', Option.some.inj hours]
  · intro hearliest
    have heq : ∀ node, LookedAt F l h node →
        matchTable F node (tables ids) = linuxOfMatchNode (compat node) (tables ids) :=
      fun node hlooked => (htable node).trans (eq_of_earliestFirst (hearliest node hlooked))
    refine ⟨fun dev hdev => ?_, fun dev hdev hreg => ?_, fun A fuel start h' => ?_⟩
    · exact (hmatch hdev).trans (heq _ (Or.inl ⟨dev, hdev, rfl⟩))
    · rw [ofDeviceGetMatchData, if_neg (hnull hdev), hreg, hmatch hdev,
        heq _ (Or.inl ⟨dev, hdev, rfl⟩)]
    · rw [ofFindMatchingNodeAndMatch_eq_findWith, linuxFindMatching]
      refine ofFindWith_congr (fun fuel prev node hnext hne => ?_) fuel start h'
      exact heq node (Or.inr ⟨fuel, prev, hnext, hne⟩)

/-- `vc4_firmware_kms_dt_match` -/
def firmwareKmsTable : List OfDeviceId :=
  [⟨"raspberrypi,rpi-firmware-kms", 0⟩, ⟨"raspberrypi,rpi-firmware-kms-2711", 1⟩,
    ⟨"raspberrypi,rpi-firmware-kms-2712", 2⟩, ⟨"", NULL⟩]

/-- A tree with one node, which claims the strings of `compat`. -/
def claiming (compat : List String) : OpenFirmware where
  ofChild _ := 0
  ofPeer node := if node = 0 then 1 else 0
  ofParent _ := 0
  ofGetencprop _ _ := []
  ofNodeFromXref _ := 0
  ofwBusNodeIsCompatible node s := node == 1 && decide (s ∈ compat)
  embedded _ := 1

/-- The strings of its nodes. -/
def claimed (compat : List String) (node : ℕ) : List String :=
  if node = 1 then compat else []

theorem claiming_iff (compat : List String) (node : ℕ) (s : String) :
    (claiming compat).ofwBusNodeIsCompatible node s = true ↔ s ∈ claimed compat node := by
  by_cases h : node = 1 <;> simp [claiming, claimed, h]

/-- A node that claims one string of the table is a variant of its own. -/
theorem agreesWithLinux_2712 :
    AgreesWithLinux (claiming ["raspberrypi,rpi-firmware-kms-2712"])
      (claimed ["raspberrypi,rpi-firmware-kms-2712"]) (fun _ => firmwareKmsTable)
      [⟨16, 40, 25⟩] {} 25 := by
  refine (agreesWithLinux_iff (claiming_iff _) _ _ _ (by decide)).2 fun node _ l₁ id l₂ _ hmem => ?_
  have hname : ∀ {s}, s ∈ claimed ["raspberrypi,rpi-firmware-kms-2712"] node →
      s = "raspberrypi,rpi-firmware-kms-2712" := fun hs => by
    unfold claimed at hs
    split at hs
    · exact List.mem_singleton.1 hs
    · exact absurd hs List.not_mem_nil
  refine ⟨id, List.mem_append_right _ List.mem_cons_self, hmem, fun id' _ hmem' => ?_⟩
  rw [hname hmem, hname hmem']

/-- A node that also claims the string of the oldest variant is taken for the oldest
variant. -/
theorem not_agreesWithLinux_2712 :
    (∀ node s, (claiming ["raspberrypi,rpi-firmware-kms-2712",
        "raspberrypi,rpi-firmware-kms"]).ofwBusNodeIsCompatible node s = true ↔
          s ∈ claimed ["raspberrypi,rpi-firmware-kms-2712", "raspberrypi,rpi-firmware-kms"] node) ∧
      ofDeviceGetMatchData (claiming ["raspberrypi,rpi-firmware-kms-2712",
        "raspberrypi,rpi-firmware-kms"]) (fun _ => firmwareKmsTable) [⟨16, 40, 25⟩] {} 16 = 0 ∧
      linuxOfMatchNode ["raspberrypi,rpi-firmware-kms-2712", "raspberrypi,rpi-firmware-kms"]
        firmwareKmsTable = some ⟨"raspberrypi,rpi-firmware-kms-2712", 2⟩ ∧
      ¬AgreesWithLinux (claiming ["raspberrypi,rpi-firmware-kms-2712",
        "raspberrypi,rpi-firmware-kms"]) (claimed ["raspberrypi,rpi-firmware-kms-2712",
          "raspberrypi,rpi-firmware-kms"]) (fun _ => firmwareKmsTable) [⟨16, 40, 25⟩] {} 25 := by
  refine ⟨claiming_iff _, by decide, by decide, fun h => ?_⟩
  exact absurd (h.matchDevice 16 (by decide)) (by decide)

end KernelModules
