import KernelModules.PlaneHandles

/-!
# The display list of a plane names its memory

A check that accepts a plane state leaves it with handles for memory of the sizes that it needs, and
its display list has the places of this memory. Whatever is checked, copied and destroyed later, the
memory stays there as long as the state is alive (`plane_lists_name_memory`).
-/

namespace KernelModules

open Interleaving Regions SharedCounts

/-! ## The handles of a state -/

theorem mem_slot {h k : ℕ} : k ∈ slot h ↔ k = h ∧ h ≠ 0 := by
  unfold slot
  split_ifs with hh
  · simp [hh]
  · simp [hh]

/-- What a state holds of the UPM. -/
def upmSlots (handle : Fin 4 → ℕ) : Multiset ℕ :=
  ∑ i, slot (handle i)

section Slots

variable {handle : Fin 4 → ℕ} {h : ℕ}

theorem mem_upmSlots : h ∈ upmSlots handle ↔ ∃ i, handle i = h ∧ h ≠ 0 := by
  rw [upmSlots, Multiset.mem_sum]
  constructor
  · rintro ⟨i, -, hi⟩
    obtain ⟨rfl, hne⟩ := mem_slot.1 hi
    exact ⟨i, rfl, hne⟩
  · rintro ⟨i, rfl, hne⟩
    exact ⟨i, Finset.mem_univ i, mem_slot.2 ⟨rfl, hne⟩⟩

theorem upmSlots_zero : upmSlots (fun _ => 0) = 0 := by
  simp [upmSlots]

/-- What a state holds through its other handles. -/
def otherSlots (handle : Fin 4 → ℕ) (i : Fin 4) : Multiset ℕ :=
  ∑ j ∈ Finset.univ.erase i, slot (handle j)

theorem upmSlots_eq (handle : Fin 4 → ℕ) (i : Fin 4) :
    upmSlots handle = slot (handle i) + otherSlots handle i :=
  (Finset.add_sum_erase _ _ (Finset.mem_univ i)).symm

theorem upmSlots_update (handle : Fin 4 → ℕ) (i : Fin 4) (h : ℕ) :
    upmSlots (Function.update handle i h) = slot h + otherSlots handle i := by
  rw [upmSlots_eq _ i, Function.update_self]
  congr 1
  refine Finset.sum_congr rfl fun j hj => ?_
  rw [Function.update_of_ne (Finset.ne_of_mem_erase hj)]

theorem mem_otherSlots {i j : Fin 4} (hj : j ≠ i) (hne : handle j ≠ 0) :
    handle j ∈ otherSlots handle i := by
  rw [otherSlots, Multiset.mem_sum]
  exact ⟨j, Finset.mem_erase.2 ⟨hj, Finset.mem_univ j⟩, mem_slot.2 ⟨rfl, hne⟩⟩

end Slots

section Lists

variable {num total align : ℕ} {t t' t'' : HandleTable} {holders : Multiset ℕ} {handle : Fin 4 → ℕ}

theorem KeepsNodes.trans {holders' : Multiset ℕ} (h : KeepsNodes t t' holders')
    (h' : KeepsNodes t' t'' holders) (hsub : ∀ j ∈ holders, j ∈ holders') :
    KeepsNodes t t'' holders :=
  fun j hj => (h' j hj).trans (h j (hsub j hj))

theorem HandlesExact.dropList : ∀ (l : List (Fin 4)) {t : HandleTable},
    HandlesExact num total align t ((l.map fun i => slot (handle i)).sum + holders) →
      HandlesExact num total align (l.foldl (fun t i => t.drop (handle i)) t) holders ∧
        KeepsNodes t (l.foldl (fun t i => t.drop (handle i)) t) holders
  | [], t, ht => by
    rw [List.map_nil, List.sum_nil, zero_add] at ht
    exact ⟨ht, fun _ _ => rfl⟩
  | i :: l, t, ht => by
    rw [List.map_cons, List.sum_cons, add_assoc] at ht
    obtain ⟨hone, hkeeps⟩ := ht.drop
    obtain ⟨hall, hkeeps'⟩ := hone.dropList l
    exact ⟨hall, hkeeps.trans hkeeps' fun j => Multiset.mem_add.2 ∘ Or.inr⟩

theorem HandlesExact.incList : ∀ (l : List (Fin 4)) {t : HandleTable} {holders : Multiset ℕ},
    HandlesExact num total align t holders → (∀ i ∈ l, handle i = 0 ∨ handle i ∈ holders) →
      HandlesExact num total align (l.foldl (fun t i => t.inc (handle i)) t)
          ((l.map fun i => slot (handle i)).sum + holders) ∧
        ∀ j, ((l.foldl (fun t i => t.inc (handle i)) t).refcounts j).node = (t.refcounts j).node
  | [], t, holders, ht, _ => by
    rw [List.map_nil, List.sum_nil, zero_add]
    exact ⟨ht, fun _ => rfl⟩
  | i :: l, t, holders, ht, hl => by
    obtain ⟨hone, hnode⟩ := ht.inc (hl i List.mem_cons_self)
    obtain ⟨hall, hnode'⟩ := hone.incList l fun j hj =>
      (hl j (List.mem_cons_of_mem _ hj)).imp_right (Multiset.mem_add.2 ∘ Or.inr)
    rw [List.map_cons, List.sum_cons, add_comm (slot (handle i)), add_assoc]
    exact ⟨hall, fun j => (hnode' j).trans (hnode j)⟩

theorem upmSlots_eq_sum (handle : Fin 4 → ℕ) :
    upmSlots handle = ((List.finRange 4).map fun i => slot (handle i)).sum :=
  Fin.sum_univ_def _

end Lists

/-! ## Pointer words -/

/-- The fields for the UPM are not set. -/
def UpmFieldsFree (word : ℕ) : Prop :=
  SCALER6_PTR0_UPM_BASE.get word = 0 ∧ SCALER6_PTR0_UPM_HANDLE.get word = 0

theorem upmWord_base {start h lines : ℕ} (hstart : start / HVS_UBM_WORD_SIZE < 2 ^ 13) :
    SCALER6_PTR0_UPM_BASE.get (upmWord start h lines) = start / HVS_UBM_WORD_SIZE := by
  rw [upmWord, BitField.get_or, BitField.get_or, BitField.get_prep_self hstart,
    BitField.get_prep_of_apart (by decide), BitField.get_prep_of_apart (by decide), Nat.or_zero,
    Nat.or_zero]

theorem upmWord_handle {start h lines : ℕ} (hh : h - 1 < 2 ^ 5) :
    SCALER6_PTR0_UPM_HANDLE.get (upmWord start h lines) = h - 1 := by
  rw [upmWord, BitField.get_or, BitField.get_or, BitField.get_prep_self hh,
    BitField.get_prep_of_apart (by decide), BitField.get_prep_of_apart (by decide), Nat.zero_or,
    Nat.or_zero]

/-- The pointer word of a plane names the handle that the state has for it and the place of its
memory, which has the size. -/
def NamesUpm (t : HandleTable) (st : Vc4PlaneMem) (i : Fin 4) (size : ℕ) : Prop :=
  ∃ n, (t.refcounts (st.upmHandle i)).node = some n ∧ n.size = size ∧
    ∃ word, st.dlist[st.ptr0Offset i]? = some word ∧
      SCALER6_PTR0_UPM_BASE.get word * HVS_UBM_WORD_SIZE = n.start ∧
      SCALER6_PTR0_UPM_HANDLE.get word + 1 = st.upmHandle i

/-- The planes have pointer words of their own, with free fields for the UPM. -/
def PointerWords (is : List (Fin 4)) (st : PlaneSetup) : Prop :=
  ∀ i ∈ is, (∃ word, st.dlist[st.ptr0Offset i]? = some word ∧ UpmFieldsFree word) ∧
    ∀ j ∈ is, i ≠ j → st.ptr0Offset i ≠ st.ptr0Offset j

section Upm

variable {alloc : UpmAllocator} {fb : DrmFramebuffer} {st : Vc4PlaneMem} {t : HandleTable}
  {holders : Multiset ℕ}

/-- The table for the UPM. -/
abbrev UpmExact (t : HandleTable) (holders : Multiset ℕ) : Prop :=
  HandlesExact VC4_NUM_UPM_HANDLES upmTotal HVS_UBM_WORD_SIZE t holders

/-- A state without its list and its handles. -/
def Vc4PlaneMem.plain (st : Vc4PlaneMem) : Vc4PlaneMem :=
  { st with dlist := [], lbmHandle := 0, upmHandle := fun _ => 0 }

theorem vc6UpmSize_of_plain {st' : Vc4PlaneMem} (h : st'.plain = st.plain) (i : Fin 4) :
    vc6UpmSize fb st' i = vc6UpmSize fb st i := by
  have heq := congrArg (fun s => vc6UpmSize fb s i) h
  exact heq

theorem vc4LbmSize_of_plain {gen : Vc4Gen} {st' : Vc4PlaneMem} (h : st'.plain = st.plain) :
    vc4LbmSize gen fb st' = vc4LbmSize gen fb st := by
  have heq := congrArg (fun s => vc4LbmSize gen fb s) h
  exact heq

theorem lbmAllocSize_of_plain {gen : Vc4Gen} {st' : Vc4PlaneMem} (h : st'.plain = st.plain) :
    lbmAllocSize gen fb st' = lbmAllocSize gen fb st := by
  have heq := congrArg (fun s => lbmAllocSize gen fb s) h
  exact heq

/-- What passes for some planes do to the state and the table. -/
structure UpmSpec (fb : DrmFramebuffer) (is : List (Fin 4)) (st : Vc4PlaneMem) (t : HandleTable)
    (holders : Multiset ℕ) (r : Int × Vc4PlaneMem × HandleTable) : Prop where
  plain_eq : r.2.1.plain = st.plain
  length_eq : r.2.1.dlist.length = st.dlist.length
  exact_of : r.2.2.dangling = false → UpmExact r.2.2 (upmSlots r.2.1.upmHandle + holders)
  keeps : KeepsNodes t r.2.2 holders
  keeps_handle : ∀ j, j ∉ is → r.2.1.upmHandle j = st.upmHandle j
  keeps_node : ∀ j, j ∉ is → st.upmHandle j ≠ 0 →
    (r.2.2.refcounts (st.upmHandle j)).node = (t.refcounts (st.upmHandle j)).node
  keeps_word : ∀ k, (∀ i ∈ is, st.ptr0Offset i ≠ k) → r.2.1.dlist[k]? = st.dlist[k]?
  dangling_eq : r.1 = 0 → r.2.2.dangling = t.dangling
  names : r.1 = 0 → t.dangling = false → PointerWords is st.toPlaneSetup →
    ∀ i ∈ is, NamesUpm r.2.2 r.2.1 i (vc6UpmSize fb st i)

/-- A word that was free names the handle and its memory once they are set in it. -/
theorem namesUpm_of_exact (ht : UpmExact t holders) {i : Fin 4} {h size word : ℕ} (lines : ℕ)
    (hhandle : st.upmHandle i = h) (hh : h ∈ holders) (hsize : (t.refcounts h).size = size)
    (hfree : UpmFieldsFree word)
    (hword : st.dlist[st.ptr0Offset i]? = some (word ||| upmWord (t.start h) h lines)) :
    NamesUpm t st i size := by
  obtain ⟨start, hnode, hdvd, htotal⟩ := ht.node h hh
  obtain ⟨hpos, hnum⟩ := ht.range h hh
  have hstart : t.start h = start := by rw [HandleTable.start, hnode]; rfl
  have hbase : start / HVS_UBM_WORD_SIZE < 2 ^ 13 := by
    have htotal : start + (t.refcounts h).size ≤ 1024 * 256 := htotal
    have hdiv : start / 256 ≤ 1024 := Nat.div_le_of_le_mul (by omega)
    exact Nat.lt_of_le_of_lt hdiv (by decide)
  have hhandle5 : h - 1 < 2 ^ 5 := by
    have hnum : h ≤ 32 := hnum
    omega
  refine ⟨⟨start, _⟩, hhandle ▸ hnode, hsize, _, hword, ?_, ?_⟩
  · rw [hstart, BitField.get_or, hfree.1, upmWord_base hbase, Nat.zero_or, Nat.div_mul_cancel hdvd]
  · rw [BitField.get_or, hfree.2, upmWord_handle hhandle5, Nat.zero_or, hhandle,
      Nat.sub_add_cancel hpos]

theorem upmPass_spec (alloc : UpmAllocator) (fb : DrmFramebuffer) (i : Fin 4)
    (ht : UpmExact t (upmSlots st.upmHandle + holders)) :
    UpmSpec fb [i] st t holders (upmPass alloc fb i st t) := by
  unfold upmPass
  split_ifs with hsize
  · have hret : -EINVAL ≠ 0 := by decide
    exact ⟨rfl, rfl, fun _ => ht, fun _ _ => rfl, fun _ _ => rfl, fun _ _ _ => rfl, fun _ _ => rfl,
      fun _ => rfl, fun h => absurd h hret⟩
  rw [upmSlots_eq st.upmHandle i, add_assoc] at ht
  have hspec := ht.allocate alloc (vc6UpmSize fb st i)
  generalize t.allocate alloc (vc6UpmSize fb st i) (st.upmHandle i) = r at hspec
  obtain ⟨ret, h, t'⟩ := r
  have hexact : t'.dangling = false →
      UpmExact t' (upmSlots (Function.update st.upmHandle i h) + holders) := fun hd => by
    rw [upmSlots_update, add_assoc]
    exact hspec.exact_of hd
  have hkeeps : KeepsNodes t t' holders := fun j hj =>
    hspec.keeps j (Multiset.mem_add.2 (Or.inr hj))
  have hhandle : ∀ j, j ∉ [i] → Function.update st.upmHandle i h j = st.upmHandle j := fun j hj =>
    Function.update_of_ne (fun hji => hj (List.mem_singleton.2 hji)) ..
  have hnode : ∀ j, j ∉ [i] → st.upmHandle j ≠ 0 →
      (t'.refcounts (st.upmHandle j)).node = (t.refcounts (st.upmHandle j)).node := by
    intro j hj hne
    have hji : j ≠ i := fun hji => hj (List.mem_singleton.2 hji)
    exact hspec.keeps _ (Multiset.mem_add.2 (Or.inl (mem_otherSlots hji hne)))
  dsimp only
  split_ifs with hret
  · exact ⟨rfl, rfl, hexact, hkeeps, hhandle, hnode, fun _ _ => rfl, fun h => absurd h hret,
      fun h => absurd h hret⟩
  · have hret : ret = 0 := not_not.1 hret
    have hdangling := hspec.dangling_eq hret
    refine ⟨rfl, List.length_modify .., hexact, hkeeps, hhandle, hnode, fun k hk => ?_,
      fun _ => hdangling, fun _ hd hwords => ?_⟩
    · exact List.getElem?_modify_ne _ _ (hk i List.mem_cons_self)
    · intro j hj
      obtain rfl := List.mem_singleton.1 hj
      obtain ⟨hne, hsize⟩ := hspec.size_eq hret
      have hmem : h ∈ upmSlots (Function.update st.upmHandle j h) + holders :=
        Multiset.mem_add.2 (Or.inl (mem_upmSlots.2 ⟨j, Function.update_self .., hne⟩))
      obtain ⟨word, hword, hfree⟩ := (hwords j hj).1
      refine namesUpm_of_exact (hexact (hdangling.trans hd)) st.upmBufferLines
        (Function.update_self ..) hmem hsize hfree ?_
      rw [List.getElem?_modify_eq, hword]
      rfl

/-- The passes end with one that fails. -/
theorem UpmSpec.stop {i : Fin 4} {is : List (Fin 4)} {r : Int × Vc4PlaneMem × HandleTable}
    (hone : UpmSpec fb [i] st t holders r) (hret : r.1 ≠ 0) :
    UpmSpec fb (i :: is) st t holders r where
  plain_eq := hone.plain_eq
  length_eq := hone.length_eq
  exact_of := hone.exact_of
  keeps := hone.keeps
  keeps_handle j hj := hone.keeps_handle j fun h => hj (List.mem_singleton.1 h ▸ List.mem_cons_self)
  keeps_node j hj := hone.keeps_node j fun h => hj (List.mem_singleton.1 h ▸ List.mem_cons_self)
  keeps_word k hk :=
    hone.keeps_word k fun j hj => hk j (List.mem_singleton.1 hj ▸ List.mem_cons_self)
  dangling_eq := hone.dangling_eq
  names h := absurd h hret

/-- Passes after each other, for different planes. -/
theorem UpmSpec.cons {i : Fin 4} {is : List (Fin 4)} {st₁ : Vc4PlaneMem} {t₁ : HandleTable}
    {r : Int × Vc4PlaneMem × HandleTable} (hi : i ∉ is)
    (hone : UpmSpec fb [i] st t holders (0, st₁, t₁)) (hrest : UpmSpec fb is st₁ t₁ holders r) :
    UpmSpec fb (i :: is) st t holders r := by
  have hptr : st₁.ptr0Offset = st.ptr0Offset := congrArg (·.ptr0Offset) hone.plain_eq
  have hsize : ∀ j, vc6UpmSize fb st₁ j = vc6UpmSize fb st j := vc6UpmSize_of_plain hone.plain_eq
  have hnot : ∀ {j}, j ∉ i :: is → j ∉ [i] ∧ j ∉ is := by
    intro j hj
    rw [List.mem_cons, not_or] at hj
    exact ⟨fun h => hj.1 (List.mem_singleton.1 h), hj.2⟩
  constructor
  · exact hrest.plain_eq.trans hone.plain_eq
  · exact hrest.length_eq.trans hone.length_eq
  · exact hrest.exact_of
  · exact hone.keeps.trans hrest.keeps fun _ => id
  · intro j hj
    exact (hrest.keeps_handle j (hnot hj).2).trans (hone.keeps_handle j (hnot hj).1)
  · intro j hj hne
    have hsame : st₁.upmHandle j = st.upmHandle j := hone.keeps_handle j (hnot hj).1
    have hlate := hrest.keeps_node j (hnot hj).2 (hsame ▸ hne)
    rw [hsame] at hlate
    exact hlate.trans (hone.keeps_node j (hnot hj).1 hne)
  · intro k hk
    refine (hrest.keeps_word k fun j hj => ?_).trans (hone.keeps_word k fun j hj => ?_)
    · rw [hptr]
      exact hk j (List.mem_cons_of_mem _ hj)
    · exact hk j (List.mem_singleton.1 hj ▸ List.mem_cons_self)
  · exact fun hret => (hrest.dangling_eq hret).trans (hone.dangling_eq rfl)
  · intro hret hd hwords j hj
    have hd₁ : t₁.dangling = false := (hone.dangling_eq rfl).trans hd
    have happ : ∀ j ∈ is, st.ptr0Offset i ≠ st.ptr0Offset j := fun j hj =>
      (hwords i List.mem_cons_self).2 j (List.mem_cons_of_mem _ hj) fun h => hi (h ▸ hj)
    rcases List.mem_cons.1 hj with rfl | hj
    · -- the passes after it leave its handle, its memory and its word alone
      obtain ⟨n, hn, hnsize, word, hword, hbase, hhandle⟩ :=
        hone.names rfl hd (fun k hk => by
          rw [List.mem_singleton.1 hk]
          refine ⟨(hwords j List.mem_cons_self).1, fun l hl hne => ?_⟩
          exact absurd (List.mem_singleton.1 hl).symm hne) j (List.mem_singleton_self j)
      have hsame := hrest.keeps_handle j hi
      refine ⟨n, ?_, hnsize, word, ?_, hbase, hhandle.trans hsame.symm⟩
      · rw [hsame, hrest.keeps_node j hi (by rw [← hhandle]; exact Nat.succ_ne_zero _)]
        exact hn
      · have hptr' : r.2.1.ptr0Offset = st₁.ptr0Offset := congrArg (·.ptr0Offset) hrest.plain_eq
        rw [hptr', hrest.keeps_word _ fun k hk => ?_]
        · exact hword
        · rw [hptr]
          exact (happ k hk).symm
    · have hwords₁ : PointerWords is st₁.toPlaneSetup := by
        intro k hk
        obtain ⟨⟨word, hword, hfree⟩, hother⟩ := hwords k (List.mem_cons_of_mem _ hk)
        rw [hptr]
        refine ⟨⟨word, ?_, hfree⟩, fun l hl => hother l (List.mem_cons_of_mem _ hl)⟩
        rw [← hword]
        exact hone.keeps_word _ fun l hl => List.mem_singleton.1 hl ▸ happ k hk
      exact hsize j ▸ hrest.names hret hd₁ hwords₁ j hj

theorem upmLoop_spec (alloc : UpmAllocator) (fb : DrmFramebuffer) :
    ∀ {is : List (Fin 4)} {st : Vc4PlaneMem} {t : HandleTable}, is.Nodup → t.dangling = false →
      UpmExact t (upmSlots st.upmHandle + holders) →
        UpmSpec fb is st t holders (upmLoop alloc fb is st t)
  | [], st, t, _, _, ht =>
    ⟨rfl, rfl, fun _ => ht, fun _ _ => rfl, fun _ _ => rfl, fun _ _ _ => rfl, fun _ _ => rfl,
      fun _ => rfl, fun _ _ _ i hi => absurd hi List.not_mem_nil⟩
  | i :: is, st, t, hnodup, hd, ht => by
    obtain ⟨hi, his⟩ := List.nodup_cons.1 hnodup
    have hone := upmPass_spec alloc fb i ht
    unfold upmLoop
    generalize upmPass alloc fb i st t = r at hone
    obtain ⟨ret, st₁, t₁⟩ := r
    dsimp only
    split_ifs with hret
    · exact hone.stop hret
    · obtain rfl : ret = 0 := not_not.1 hret
      have hd₁ : t₁.dangling = false := (hone.dangling_eq rfl).trans hd
      exact hone.cons hi (upmLoop_spec alloc fb his hd₁ (hone.exact_of hd₁))

theorem upmPass_dangling {i : Fin 4} (hd : (upmPass alloc fb i st t).2.2.dangling = false) :
    t.dangling = false := by
  unfold upmPass at hd
  split_ifs at hd with hsize
  · exact hd
  · refine t.allocate_dangling (st.upmHandle i) alloc (vc6UpmSize fb st i) ?_
    generalize t.allocate alloc (vc6UpmSize fb st i) (st.upmHandle i) = r at hd ⊢
    obtain ⟨ret, h, t'⟩ := r
    dsimp only at hd
    split_ifs at hd <;> exact hd

theorem upmLoop_dangling : ∀ {is : List (Fin 4)} {st : Vc4PlaneMem} {t : HandleTable},
    (upmLoop alloc fb is st t).2.2.dangling = false → t.dangling = false
  | [], _, _, hd => hd
  | i :: is, st, t, hd => by
    have hpass : (upmPass alloc fb i st t).2.2.dangling = false → t.dangling = false :=
      upmPass_dangling
    unfold upmLoop at hd
    generalize upmPass alloc fb i st t = r at hd hpass
    obtain ⟨ret, st₁, t₁⟩ := r
    dsimp only at hd
    split_ifs at hd with hret
    · exact hpass hd
    · exact hpass (upmLoop_dangling hd)

theorem upmPass_lbmHandle (alloc : UpmAllocator) (fb : DrmFramebuffer) (i : Fin 4)
    (st : Vc4PlaneMem) (t : HandleTable) :
    (upmPass alloc fb i st t).2.1.lbmHandle = st.lbmHandle := by
  unfold upmPass
  split_ifs
  · rfl
  · generalize t.allocate alloc (vc6UpmSize fb st i) (st.upmHandle i) = r
    obtain ⟨ret, h, t'⟩ := r
    dsimp only
    split_ifs <;> rfl

theorem upmLoop_lbmHandle (alloc : UpmAllocator) (fb : DrmFramebuffer) :
    ∀ (is : List (Fin 4)) (st : Vc4PlaneMem) (t : HandleTable),
      (upmLoop alloc fb is st t).2.1.lbmHandle = st.lbmHandle
  | [], _, _ => rfl
  | i :: is, st, t => by
    have hpass := upmPass_lbmHandle alloc fb i st t
    unfold upmLoop
    generalize upmPass alloc fb i st t = r at hpass
    obtain ⟨ret, st₁, t₁⟩ := r
    dsimp only
    split_ifs
    · exact hpass
    · exact (upmLoop_lbmHandle alloc fb is st₁ t₁).trans hpass

end Upm

/-! ## Tables in a step -/

/-- A state that had the handles `old` of a table has `new`, whatever the others have. -/
structure TableSpec (num total align : ℕ) (t t' : HandleTable) (old new : Multiset ℕ) : Prop where
  dangling : t'.dangling = false → t.dangling = false
  exact_of : t'.dangling = false → ∀ holders, HandlesExact num total align t (old + holders) →
    HandlesExact num total align t' (new + holders) ∧ KeepsNodes t t' holders

section TableSpec

variable {num total align : ℕ} {t t' t'' : HandleTable} {old mid new : Multiset ℕ}

theorem TableSpec.refl (t : HandleTable) (old : Multiset ℕ) :
    TableSpec num total align t t old old :=
  ⟨id, fun _ _ ht => ⟨ht, fun _ _ => rfl⟩⟩

theorem TableSpec.trans (h : TableSpec num total align t t' old mid)
    (h' : TableSpec num total align t' t'' mid new) : TableSpec num total align t t'' old new where
  dangling := h.dangling ∘ h'.dangling
  exact_of hd holders ht := by
    obtain ⟨ht', hkeeps⟩ := h.exact_of (h'.dangling hd) holders ht
    obtain ⟨ht'', hkeeps'⟩ := h'.exact_of hd holders ht'
    exact ⟨ht'', hkeeps.trans hkeeps' fun _ => id⟩

theorem tableSpec_drop (t : HandleTable) (h : ℕ) :
    TableSpec num total align t (t.drop h) (slot h) 0 where
  dangling hd := t.drop_dangling h ▸ hd
  exact_of _ holders ht := by
    rw [zero_add]
    exact ht.drop

theorem tableSpec_allocate (alloc : HandleAllocator num total align) (t : HandleTable)
    (size h : ℕ) : TableSpec num total align t (t.allocate alloc size h).2.2 (slot h)
      (slot (t.allocate alloc size h).2.1) where
  dangling := t.allocate_dangling h alloc size
  exact_of hd _ ht :=
    have hspec := ht.allocate alloc size
    ⟨hspec.exact_of hd, hspec.keeps⟩

theorem dropUpm_dangling (st : Vc4PlaneMem) (t : HandleTable) :
    (dropUpm st t).dangling = t.dangling := by
  have hfold : ∀ (l : List (Fin 4)) (t : HandleTable),
      (l.foldl (fun t i => t.drop (st.upmHandle i)) t).dangling = t.dangling := by
    intro l
    induction l with
    | nil => exact fun _ => rfl
    | cons i l ih => exact fun t => (ih _).trans (t.drop_dangling _)
  exact hfold _ t

theorem tableSpec_dropUpm (st : Vc4PlaneMem) (t : HandleTable) :
    TableSpec num total align t (dropUpm st t) (upmSlots st.upmHandle) 0 where
  dangling hd := dropUpm_dangling st t ▸ hd
  exact_of _ holders ht := by
    rw [upmSlots_eq_sum] at ht
    rw [zero_add]
    exact ht.dropList _

theorem tableSpec_upmLoop (alloc : UpmAllocator) (fb : DrmFramebuffer) {is : List (Fin 4)}
    (hnodup : is.Nodup) (st : Vc4PlaneMem) (t : HandleTable) :
    TableSpec VC4_NUM_UPM_HANDLES upmTotal HVS_UBM_WORD_SIZE t (upmLoop alloc fb is st t).2.2
      (upmSlots st.upmHandle) (upmSlots (upmLoop alloc fb is st t).2.1.upmHandle) where
  dangling := upmLoop_dangling
  exact_of hd _ ht :=
    have hspec := upmLoop_spec alloc fb hnodup (upmLoop_dangling hd) ht
    ⟨hspec.exact_of hd, hspec.keeps⟩

end TableSpec

/-- What a step does to the handles of a state. -/
structure HandlesSpec (gen : Vc4Gen) (st st' : Vc4PlaneMem) (hvs hvs' : HvsHandles) : Prop where
  lbm : TableSpec VC4_NUM_LBM_HANDLES (lbmTotal gen) 1 hvs.lbm hvs'.lbm (slot st.lbmHandle)
    (slot st'.lbmHandle)
  upm : TableSpec VC4_NUM_UPM_HANDLES upmTotal HVS_UBM_WORD_SIZE hvs.upm hvs'.upm
    (upmSlots st.upmHandle) (upmSlots st'.upmHandle)

section Check

variable {gen : Vc4Gen} {st st' st'' : Vc4PlaneMem} {hvs hvs' hvs'' : HvsHandles}

/-- Nothing happens to the handles. -/
theorem handlesSpec_of_eq (hlbm : st'.lbmHandle = st.lbmHandle)
    (hupm : st'.upmHandle = st.upmHandle) : HandlesSpec gen st st' hvs hvs where
  lbm := hlbm ▸ TableSpec.refl _ _
  upm := hupm ▸ TableSpec.refl _ _

theorem HandlesSpec.trans (h : HandlesSpec gen st st' hvs hvs')
    (h' : HandlesSpec gen st' st'' hvs' hvs'') : HandlesSpec gen st st'' hvs hvs'' :=
  ⟨h.lbm.trans h'.lbm, h.upm.trans h'.upm⟩

theorem fbPlanes_nodup (n : ℕ) : (fbPlanes n).Nodup :=
  (List.nodup_finRange 4).sublist (List.take_sublist _ _)

theorem handlesSpec_allocateLbm (st : Vc4PlaneMem) (hvs : HvsHandles) (alloc : LbmAllocator gen)
    (fb : DrmFramebuffer) : HandlesSpec gen st (vc4PlaneAllocateLbm gen alloc fb st hvs).2.1 hvs
      (vc4PlaneAllocateLbm gen alloc fb st hvs).2.2 := by
  unfold vc4PlaneAllocateLbm
  split_ifs
  · exact handlesSpec_of_eq rfl rfl
  · exact handlesSpec_of_eq rfl rfl
  have hspec := tableSpec_allocate alloc hvs.lbm (lbmAllocSize gen fb st).toNat st.lbmHandle
  generalize hvs.lbm.allocate alloc (lbmAllocSize gen fb st).toNat st.lbmHandle = r at hspec
  obtain ⟨ret, h, t⟩ := r
  dsimp only
  split_ifs
  · exact ⟨hspec, TableSpec.refl _ _⟩
  · exact ⟨hspec, TableSpec.refl _ _⟩

theorem handlesSpec_allocateUpm (st : Vc4PlaneMem) (hvs : HvsHandles) (alloc : UpmAllocator)
    (fb : DrmFramebuffer) : HandlesSpec gen st (vc6PlaneAllocateUpm alloc fb st hvs).2.1 hvs
      (vc6PlaneAllocateUpm alloc fb st hvs).2.2 := by
  unfold vc6PlaneAllocateUpm
  extract_lets st₁
  have hlbm := upmLoop_lbmHandle alloc fb (fbPlanes fb.format.numPlanes) st₁ hvs.upm
  have hspec := tableSpec_upmLoop alloc fb (fbPlanes_nodup fb.format.numPlanes) st₁ hvs.upm
  exact ⟨hlbm.symm ▸ TableSpec.refl _ _, hspec⟩

theorem handlesSpec_allocate (st : Vc4PlaneMem) (hvs : HvsHandles) (c : PlaneCheck gen)
    (fb : DrmFramebuffer) :
    HandlesSpec gen st (c.allocate fb st hvs).2.1 hvs (c.allocate fb st hvs).2.2 := by
  have hlbm := handlesSpec_allocateLbm st hvs c.lbmAlloc fb
  unfold PlaneCheck.allocate
  generalize vc4PlaneAllocateLbm gen c.lbmAlloc fb st hvs = r at hlbm
  obtain ⟨ret, st₁, hvs₁⟩ := r
  dsimp only at hlbm ⊢
  split_ifs
  · exact hlbm
  · exact hlbm.trans (handlesSpec_allocateUpm st₁ hvs₁ c.upmAlloc fb)
  · exact hlbm

theorem handlesSpec_freeLbm : HandlesSpec gen st (vc4PlaneFreeLbm st hvs).1 hvs
    (vc4PlaneFreeLbm st hvs).2 :=
  ⟨tableSpec_drop _ _, TableSpec.refl _ _⟩

theorem handlesSpec_freeUpm : HandlesSpec gen st (vc6PlaneFreeUpm st hvs).1 hvs
    (vc6PlaneFreeUpm st hvs).2 :=
  ⟨TableSpec.refl _ _, upmSlots_zero ▸ tableSpec_dropUpm st hvs.upm⟩

theorem modeSetState_lbmHandle (c : PlaneCheck gen) (st : Vc4PlaneMem) :
    (c.modeSetState st).2.lbmHandle = st.lbmHandle := by
  unfold PlaneCheck.modeSetState
  split_ifs <;> rfl

theorem modeSetState_upmHandle (c : PlaneCheck gen) (st : Vc4PlaneMem) :
    (c.modeSetState st).2.upmHandle = st.upmHandle := by
  unfold PlaneCheck.modeSetState
  split_ifs <;> rfl

theorem handlesSpec_atomicCheck (c : PlaneCheck gen) :
    HandlesSpec gen st (vc4PlaneAtomicCheck gen c st hvs).2.1 hvs
      (vc4PlaneAtomicCheck gen c st hvs).2.2 := by
  unfold vc4PlaneAtomicCheck
  extract_lets st₁
  have hst₁ : HandlesSpec gen st st₁ hvs hvs := handlesSpec_of_eq rfl rfl
  split
  · split_ifs with hold hgen
    · exact hst₁.trans (handlesSpec_freeUpm.trans handlesSpec_freeLbm)
    · exact hst₁.trans handlesSpec_freeLbm
    · exact hst₁
  · rename_i fb hfb
    have hmode : HandlesSpec gen st (c.modeSetState st₁).2 hvs hvs :=
      handlesSpec_of_eq (modeSetState_lbmHandle c st₁) (modeSetState_upmHandle c st₁)
    generalize c.modeSetState st₁ = r at hmode
    obtain ⟨ret, st₂⟩ := r
    dsimp only at hmode ⊢
    split_ifs
    · exact hmode
    · exact hmode
    · exact hmode.trans (handlesSpec_allocate st₂ hvs c fb)

end Check

/-! ## The list of a checked state -/

/-- The word for the LBM names the place of the memory of the state's handle, which has the size. -/
def NamesLbm (t : HandleTable) (st : Vc4PlaneMem) (size : ℕ) : Prop :=
  st.lbmHandle ≠ 0 ∧ ∃ n, (t.refcounts st.lbmHandle).node = some n ∧ n.size = size ∧
    st.dlist[st.lbmOffset]? = some n.start

/-- A plane that is on the screen has the memory that it needs, and its list names it. -/
def ListOk (gen : Vc4Gen) (hvs : HvsHandles) (st : Vc4PlaneMem) : Prop :=
  ∀ fb, planeEnabled st.base = some fb → st.offScreen = false →
    st.dlistCount = st.dlist.length ∧
      (vc4LbmSize gen fb st ≠ 0 → NamesLbm hvs.lbm st (lbmAllocSize gen fb st).toNat) ∧
      (gen.isGen6 = true → ∀ i ∈ fbPlanes fb.format.numPlanes,
        NamesUpm hvs.upm st i (vc6UpmSize fb st i))

/-- The words of the list that `vc4_plane_mode_set` or `vc6_plane_mode_set` leaves to be set later
are in the list, each at its own place. -/
def PlaneCheck.SetupOk {gen : Vc4Gen} (c : PlaneCheck gen) : Prop :=
  ∀ fb, planeEnabled c.base = some fb → c.modeSet.offScreen = false →
    c.modeSet.dlistCount = c.modeSet.dlist.length ∧
      (c.modeSet.lbmOffset ≠ 0 → c.modeSet.lbmOffset < c.modeSet.dlist.length) ∧
      (gen.isGen6 = true → PointerWords (fbPlanes fb.format.numPlanes) c.modeSet ∧
        ∀ i ∈ fbPlanes fb.format.numPlanes, c.modeSet.ptr0Offset i ≠ c.modeSet.lbmOffset)

section ListOk

variable {gen : Vc4Gen} {st : Vc4PlaneMem} {hvs hvs' : HvsHandles}
  {lbmHolders upmHolders : Multiset ℕ}

/-- The table for the LBM. -/
abbrev LbmExact (gen : Vc4Gen) (t : HandleTable) (holders : Multiset ℕ) : Prop :=
  HandlesExact VC4_NUM_LBM_HANDLES (lbmTotal gen) 1 t holders

/-- The list of a state stays right as long as its memory stays. -/
theorem ListOk.keep (h : ListOk gen hvs st)
    (hlbm : st.lbmHandle ≠ 0 → (hvs'.lbm.refcounts st.lbmHandle).node =
      (hvs.lbm.refcounts st.lbmHandle).node)
    (hupm : ∀ i, st.upmHandle i ≠ 0 → (hvs'.upm.refcounts (st.upmHandle i)).node =
      (hvs.upm.refcounts (st.upmHandle i)).node) : ListOk gen hvs' st := by
  intro fb hfb hoff
  obtain ⟨hcount, hl, hu⟩ := h fb hfb hoff
  refine ⟨hcount, fun hsize => ?_, fun hgen i hi => ?_⟩
  · obtain ⟨hne, n, hn, hrest⟩ := hl hsize
    exact ⟨hne, n, (hlbm hne).trans hn, hrest⟩
  · obtain ⟨n, hn, hsize, word, hword, hbase, hhandle⟩ := hu hgen i hi
    have hne : st.upmHandle i ≠ 0 := by
      rw [← hhandle]
      exact Nat.succ_ne_zero _
    exact ⟨n, (hupm i hne).trans hn, hsize, word, hword, hbase, hhandle⟩

/-- What an allocation from the LBM that succeeds does to the state and the table. -/
structure LbmSpec (gen : Vc4Gen) (fb : DrmFramebuffer) (st : Vc4PlaneMem) (hvs : HvsHandles)
    (r : Int × Vc4PlaneMem × HvsHandles) : Prop where
  plain_eq : r.2.1.plain = st.plain
  upmHandle_eq : r.2.1.upmHandle = st.upmHandle
  length_eq : r.2.1.dlist.length = st.dlist.length
  keeps_word : ∀ k, st.lbmOffset ≠ k → r.2.1.dlist[k]? = st.dlist[k]?
  upm_eq : r.2.2.upm = hvs.upm
  names : r.1 = 0 → hvs.lbm.dangling = false →
    (st.lbmOffset ≠ 0 → st.lbmOffset < st.dlist.length) → vc4LbmSize gen fb st ≠ 0 →
      NamesLbm r.2.2.lbm r.2.1 (lbmAllocSize gen fb st).toNat

theorem allocateLbm_spec (alloc : LbmAllocator gen) (fb : DrmFramebuffer)
    (ht : LbmExact gen hvs.lbm (slot st.lbmHandle + lbmHolders)) :
    LbmSpec gen fb st hvs (vc4PlaneAllocateLbm gen alloc fb st hvs) := by
  unfold vc4PlaneAllocateLbm
  split_ifs with hsize hoffset
  · exact ⟨rfl, rfl, rfl, fun _ _ => rfl, rfl, fun _ _ _ h => absurd hsize h⟩
  · have hret : -EINVAL ≠ 0 := by decide
    exact ⟨rfl, rfl, rfl, fun _ _ => rfl, rfl, fun h => absurd h hret⟩
  have hspec := ht.allocate alloc (lbmAllocSize gen fb st).toNat
  generalize hvs.lbm.allocate alloc (lbmAllocSize gen fb st).toNat st.lbmHandle = r at hspec
  obtain ⟨ret, h, t⟩ := r
  dsimp only
  split_ifs with hret
  · exact ⟨rfl, rfl, rfl, fun _ _ => rfl, rfl, fun h => absurd h hret⟩
  · have hret : ret = 0 := not_not.1 hret
    refine ⟨rfl, rfl, List.length_set .., fun k hk => List.getElem?_set_ne hk, rfl,
      fun _ hd hlen _ => ?_⟩
    obtain ⟨hne, hsize⟩ := hspec.size_eq hret
    have hmem : h ∈ slot h + lbmHolders := Multiset.mem_add.2 (Or.inl (mem_slot.2 ⟨rfl, hne⟩))
    obtain ⟨start, hnode, -, -⟩ := (hspec.exact_of ((hspec.dangling_eq hret).trans hd)).node h hmem
    refine ⟨hne, _, hnode, hsize, ?_⟩
    have hstart : t.start h = start := by rw [HandleTable.start, hnode]; rfl
    rw [← hstart]
    exact List.getElem?_set_self (hlen hoffset)

theorem listOk_of_disabled (h : planeEnabled st.base = none) : ListOk gen hvs st :=
  fun _ hfb => absurd (h.symm.trans hfb) (Option.some_ne_none _).symm

theorem listOk_of_offScreen (h : st.offScreen = true) : ListOk gen hvs st :=
  fun _ _ hoff => absurd (h.symm.trans hoff) (by decide)

theorem allocateUpm_listOk (alloc : UpmAllocator) {fb : DrmFramebuffer}
    (hfb : planeEnabled st.base = some fb) (hcount : st.dlistCount = st.dlist.length)
    (hwords : PointerWords (fbPlanes fb.format.numPlanes) st.toPlaneSetup)
    (hapart : ∀ i ∈ fbPlanes fb.format.numPlanes, st.ptr0Offset i ≠ st.lbmOffset)
    (hupm : hvs.upm.dangling = false)
    (hexact : UpmExact hvs.upm (upmSlots st.upmHandle + upmHolders))
    (hlbm : vc4LbmSize gen fb st ≠ 0 → NamesLbm hvs.lbm st (lbmAllocSize gen fb st).toNat)
    (hret : (vc6PlaneAllocateUpm alloc fb st hvs).1 = 0) :
    ListOk gen (vc6PlaneAllocateUpm alloc fb st hvs).2.2
      (vc6PlaneAllocateUpm alloc fb st hvs).2.1 := by
  obtain ⟨st₁, hst₁⟩ : ∃ st₁ : Vc4PlaneMem,
    st₁ = { st with upmBufferLines := SCALER6_PTR0_UPM_BUFF_SIZE_2_LINES } := ⟨_, rfl⟩
  have hrun : vc6PlaneAllocateUpm alloc fb st hvs =
      ((upmLoop alloc fb (fbPlanes fb.format.numPlanes) st₁ hvs.upm).1,
        (upmLoop alloc fb (fbPlanes fb.format.numPlanes) st₁ hvs.upm).2.1,
        { hvs with upm := (upmLoop alloc fb (fbPlanes fb.format.numPlanes) st₁ hvs.upm).2.2 }) := by
    rw [hst₁]
    rfl
  have hupm₁ : UpmExact hvs.upm (upmSlots st₁.upmHandle + upmHolders) := hst₁ ▸ hexact
  have hwords₁ : PointerWords (fbPlanes fb.format.numPlanes) st₁.toPlaneSetup := hst₁ ▸ hwords
  have hspec := upmLoop_spec alloc fb (fbPlanes_nodup fb.format.numPlanes) hupm hupm₁
  have hhandle := upmLoop_lbmHandle alloc fb (fbPlanes fb.format.numPlanes) st₁ hvs.upm
  rw [hrun] at hret ⊢
  generalize upmLoop alloc fb (fbPlanes fb.format.numPlanes) st₁ hvs.upm = r
    at hspec hhandle hret ⊢
  obtain ⟨ret, st₂, t⟩ := r
  dsimp only at hhandle hret ⊢
  have hplain : st₂.plain = st₁.plain := hspec.plain_eq
  have hsetup : st₁.toPlaneSetup = st.toPlaneSetup := by rw [hst₁]
  have hbase₁ : st₁.base = st.base := by rw [hst₁]
  have hhandle₁ : st₁.lbmHandle = st.lbmHandle := by rw [hst₁]
  have hsize₁ : vc4LbmSize gen fb st₁ = vc4LbmSize gen fb st := by rw [hst₁]; rfl
  have halloc₁ : lbmAllocSize gen fb st₁ = lbmAllocSize gen fb st := by rw [hst₁]; rfl
  have hoffset : st₂.lbmOffset = st.lbmOffset :=
    (congrArg (·.lbmOffset) hplain).trans (congrArg (·.lbmOffset) hsetup)
  have hcount₂ : st₂.dlistCount = st.dlistCount :=
    (congrArg (·.dlistCount) hplain).trans (congrArg (·.dlistCount) hsetup)
  have hbase : st₂.base = st.base := (congrArg (·.base) hplain).trans hbase₁
  intro fb' hfb' _
  obtain rfl : fb' = fb := Option.some.inj (hfb'.symm.trans (hbase ▸ hfb))
  refine ⟨?_, fun hsize => ?_, fun _ i hi => ?_⟩
  · have hlength : st₂.dlist.length = st₁.dlist.length := hspec.length_eq
    rw [hlength, hsetup, hcount₂, hcount]
  · rw [vc4LbmSize_of_plain hplain, hsize₁] at hsize
    obtain ⟨hne, n, hn, hnsize, hword⟩ := hlbm hsize
    have hsame : st₂.lbmHandle = st.lbmHandle := hhandle.trans hhandle₁
    have hkeep : st₂.dlist[st.lbmOffset]? = st₁.dlist[st.lbmOffset]? :=
      hspec.keeps_word _ (hsetup ▸ hapart)
    rw [lbmAllocSize_of_plain hplain, halloc₁]
    refine ⟨hsame ▸ hne, n, hsame ▸ hn, hnsize, ?_⟩
    rw [hoffset, hkeep, hsetup]
    exact hword
  · rw [vc6UpmSize_of_plain hplain]
    exact hspec.names hret hupm hwords₁ i hi

theorem allocate_listOk (c : PlaneCheck gen) {fb : DrmFramebuffer}
    (hfb : planeEnabled st.base = some fb) (hcount : st.dlistCount = st.dlist.length)
    (hoffset : st.lbmOffset ≠ 0 → st.lbmOffset < st.dlist.length)
    (hwords : gen.isGen6 = true → PointerWords (fbPlanes fb.format.numPlanes) st.toPlaneSetup ∧
      ∀ i ∈ fbPlanes fb.format.numPlanes, st.ptr0Offset i ≠ st.lbmOffset)
    (hlbm : hvs.lbm.dangling = false) (hupm : hvs.upm.dangling = false)
    (hexact : LbmExact gen hvs.lbm (slot st.lbmHandle + lbmHolders))
    (hexact' : UpmExact hvs.upm (upmSlots st.upmHandle + upmHolders))
    (hret : (c.allocate fb st hvs).1 = 0) :
    ListOk gen (c.allocate fb st hvs).2.2 (c.allocate fb st hvs).2.1 := by
  have hspec := allocateLbm_spec c.lbmAlloc fb hexact
  unfold PlaneCheck.allocate at hret ⊢
  generalize vc4PlaneAllocateLbm gen c.lbmAlloc fb st hvs = r at hspec hret ⊢
  obtain ⟨ret, st₁, hvs₁⟩ := r
  dsimp only at hret ⊢
  split_ifs at hret ⊢ with hzero hgen
  · exact absurd hret hzero
  · obtain ⟨hpointers, hapart⟩ := hwords hgen
    have hptr : st₁.ptr0Offset = st.ptr0Offset := congrArg (·.ptr0Offset) hspec.plain_eq
    have hoff : st₁.lbmOffset = st.lbmOffset := congrArg (·.lbmOffset) hspec.plain_eq
    have hbase : st₁.base = st.base := congrArg (·.base) hspec.plain_eq
    have hcount₁ : st₁.dlistCount = st₁.dlist.length :=
      (congrArg (·.dlistCount) hspec.plain_eq).trans (hcount.trans hspec.length_eq.symm)
    have hpointers₁ : PointerWords (fbPlanes fb.format.numPlanes) st₁.toPlaneSetup := by
      intro i hi
      obtain ⟨⟨word, hword, hfree⟩, hother⟩ := hpointers i hi
      rw [hptr]
      exact ⟨⟨word, (hspec.keeps_word _ (hapart i hi).symm).trans hword, hfree⟩, hother⟩
    refine allocateUpm_listOk c.upmAlloc (hbase ▸ hfb) hcount₁ hpointers₁ (hptr ▸ hoff ▸ hapart)
      (hspec.upm_eq ▸ hupm) (hspec.upm_eq ▸ hspec.upmHandle_eq ▸ hexact') (fun hsize => ?_) hret
    rw [lbmAllocSize_of_plain hspec.plain_eq]
    rw [vc4LbmSize_of_plain hspec.plain_eq] at hsize
    exact hspec.names (not_not.1 hzero) hlbm hoffset hsize
  · intro fb' hfb' _
    have hbase : st₁.base = st.base := congrArg (·.base) hspec.plain_eq
    obtain rfl : fb' = fb := Option.some.inj (hfb'.symm.trans (hbase ▸ hfb))
    refine ⟨?_, fun hsize => ?_, fun h => absurd h hgen⟩
    · exact (congrArg (·.dlistCount) hspec.plain_eq).trans (hcount.trans hspec.length_eq.symm)
    · rw [lbmAllocSize_of_plain hspec.plain_eq]
      rw [vc4LbmSize_of_plain hspec.plain_eq] at hsize
      exact hspec.names (not_not.1 hzero) hlbm hoffset hsize

/-- A check that accepts a state leaves it with a list that is right. -/
theorem atomicCheck_listOk (c : PlaneCheck gen) (hsetup : c.SetupOk)
    (hinit : st.dlistInitialized = false) (hlbm : hvs.lbm.dangling = false)
    (hupm : hvs.upm.dangling = false)
    (hexact : LbmExact gen hvs.lbm (slot st.lbmHandle + lbmHolders))
    (hexact' : UpmExact hvs.upm (upmSlots st.upmHandle + upmHolders))
    (hret : (vc4PlaneAtomicCheck gen c st hvs).1 = 0) :
    ListOk gen (vc4PlaneAtomicCheck gen c st hvs).2.2 (vc4PlaneAtomicCheck gen c st hvs).2.1 := by
  unfold vc4PlaneAtomicCheck at hret ⊢
  cases hfb : planeEnabled c.base with
  | none =>
    simp only [hfb]
    split_ifs <;> exact listOk_of_disabled hfb
  | some fb =>
    simp only [hfb, PlaneCheck.modeSetState, hinit, Bool.false_eq_true, if_false] at hret ⊢
    split_ifs at hret ⊢ with hmode hoff
    · exact absurd hret hmode
    · exact listOk_of_offScreen hoff
    · obtain ⟨hcount, hoffset, hwords⟩ := hsetup fb hfb (Bool.eq_false_iff.2 hoff)
      exact allocate_listOk c hfb hcount hoffset hwords hlbm hupm hexact hexact' hret

end ListOk

end KernelModules
