import KernelModules.PlaneMemory
import KernelModules.SharedCounts

/-!
# Plane states hold their handles

The count of a handle is the number of the states that have it, through every duplication, check and
destruction; its memory is inside of the LBM or UPM, and apart from that of any other handle. A
failed allocation can leave a state with a handle that it has dropped. Where this never happened,
all counts are right (`plane_handles_exact`).
-/

namespace KernelModules

open Interleaving Regions SharedCounts

/-! ## Tables -/

section Table

/-- What a state with this handle holds. -/
def slot (h : ℕ) : Multiset ℕ :=
  if h = 0 then 0 else {h}

@[simp]
theorem slot_zero : slot 0 = 0 :=
  rfl

theorem slot_add {h : ℕ} (hh : h ≠ 0) (holders : Multiset ℕ) :
    slot h + holders = h ::ₘ holders := by
  rw [slot, if_neg hh, Multiset.singleton_add]

/-- The count of a handle is the number of those that hold it, and it has memory of its size as long
as it is held. -/
structure HandlesExact (num total align : ℕ) (t : HandleTable) (holders : Multiset ℕ) : Prop where
  counted : Counted (fun h => (t.refcounts h).refcount) t.handles holders
  range : ∀ h ∈ holders, 1 ≤ h ∧ h ≤ num
  node : ∀ h ∈ holders, ∃ start, (t.refcounts h).node = some ⟨start, (t.refcounts h).size⟩ ∧
    align ∣ start ∧ start + (t.refcounts h).size ≤ total
  free : ∀ h, h ∉ holders → (t.refcounts h).node = none
  apart : ∀ h ∈ holders, ∀ h' ∈ holders, h ≠ h' → ∀ n ∈ (t.refcounts h).node,
    ∀ n' ∈ (t.refcounts h').node, Regions.Apart n.start n.size n'.start n'.size

/-- The memory of handles stays where it is. -/
def KeepsNodes (t t' : HandleTable) (holders : Multiset ℕ) : Prop :=
  ∀ h ∈ holders, (t'.refcounts h).node = (t.refcounts h).node

namespace HandleTable

variable (t : HandleTable) (h : ℕ) (f : HandleRefcounts → HandleRefcounts)

@[simp]
theorem modify_handles : (t.modify h f).handles = t.handles :=
  rfl

@[simp]
theorem modify_dangling : (t.modify h f).dangling = t.dangling :=
  rfl

@[simp]
theorem modify_self : (t.modify h f).refcounts h = f (t.refcounts h) :=
  Function.update_self ..

variable {h} in
@[simp]
theorem modify_of_ne {j : ℕ} (hj : j ≠ h) : (t.modify h f).refcounts j = t.refcounts j :=
  Function.update_of_ne hj ..

@[simp]
theorem release_refcounts :
    (t.release h).refcounts = (t.modify h fun r => { r with node := none, size := 0 }).refcounts :=
  rfl

@[simp]
theorem release_handles : (t.release h).handles = t.handles.erase h :=
  rfl

theorem decAndTest_dangling : (t.decAndTest h).2.dangling = t.dangling := by
  unfold decAndTest
  extract_lets t₁
  split_ifs <;> rfl

theorem drop_dangling : (t.drop h).dangling = t.dangling := by
  unfold drop
  split_ifs
  · rfl
  · exact t.decAndTest_dangling h

theorem inc_dangling : (t.inc h).dangling = t.dangling := by
  unfold inc
  split_ifs <;> rfl

theorem giveUp_dangling : (t.giveUp h).2.dangling = t.dangling := by
  unfold giveUp
  split_ifs
  · rfl
  · exact t.decAndTest_dangling h

/-- What went wrong stays recorded. -/
theorem allocate_dangling {num total align : ℕ} (alloc : HandleAllocator num total align) (size : ℕ)
    (hd : (t.allocate alloc size h).2.2.dangling = false) : t.dangling = false := by
  unfold allocate at hd
  split_ifs at hd with hkeep
  · exact hd
  rw [← t.giveUp_dangling h]
  generalize t.giveUp h = r at hd
  obtain ⟨h₁, t₁⟩ := r
  dsimp only at hd ⊢
  split at hd
  · exact (Bool.or_eq_false_iff.1 hd).1
  · unfold setUp at hd
    extract_lets t₂ t₃ at hd
    split at hd <;> exact hd

end HandleTable

variable {num total align : ℕ} {t t' : HandleTable} {holders : Multiset ℕ} {h : ℕ}

theorem HandlesExact.withDangling (ht : HandlesExact num total align t holders) (dangling : Bool) :
    HandlesExact num total align { t with dangling } holders :=
  ⟨ht.counted, ht.range, ht.node, ht.free, ht.apart⟩

theorem handlesExact_empty : HandlesExact num total align {} 0 where
  counted := Counted.empty _ fun _ => rfl
  range h hh := absurd hh (Multiset.notMem_zero h)
  node h hh := absurd hh (Multiset.notMem_zero h)
  free _ _ := rfl
  apart h hh := absurd hh (Multiset.notMem_zero h)

/-- A table whose handles nobody holds is empty. -/
theorem HandlesExact.unused (ht : HandlesExact num total align t 0) :
    t.handles = ∅ ∧ ∀ h, (t.refcounts h).node = none := by
  refine ⟨Finset.eq_empty_of_forall_notMem fun h hh => ?_, fun h => ?_⟩
  · exact Multiset.notMem_zero h ((ht.counted.mem_used h).1 hh)
  · exact ht.free h (Multiset.notMem_zero h)

/-- Handles go, or are held by more. -/
theorem HandlesExact.mono (ht : HandlesExact num total align t holders) {holders' : Multiset ℕ}
    (hcount : Counted (fun h => (t'.refcounts h).refcount) t'.handles holders')
    (hsub : ∀ j ∈ holders', j ∈ holders)
    (hnode : ∀ j ∈ holders', (t'.refcounts j).node = (t.refcounts j).node)
    (hsize : ∀ j ∈ holders', (t'.refcounts j).size = (t.refcounts j).size)
    (hfree : ∀ j, j ∉ holders' → (t'.refcounts j).node = none) :
    HandlesExact num total align t' holders' where
  counted := hcount
  range j hj := ht.range j (hsub j hj)
  node j hj := by
    rw [hnode j hj, hsize j hj]
    exact ht.node j (hsub j hj)
  free := hfree
  apart j hj j' hj' hne := by
    rw [hnode j hj, hnode j' hj']
    exact ht.apart j (hsub j hj) j' (hsub j' hj') hne

/-- A free handle is taken, with memory that is free. -/
theorem HandlesExact.take (ht : HandlesExact num total align t holders) {start size : ℕ}
    (hh : h ∉ t.handles) (hrange : 1 ≤ h ∧ h ≤ num) (hdvd : align ∣ start)
    (htotal : start + size ≤ total)
    (hapart : ∀ j ∈ holders, ∀ n ∈ (t.refcounts j).node, Regions.Apart n.start n.size start size)
    (hself : t'.refcounts h = { refcount := 1, size, node := some ⟨start, size⟩ })
    (hne : ∀ j, j ≠ h → t'.refcounts j = t.refcounts j)
    (hhandles : t'.handles = insert h t.handles) :
    HandlesExact num total align t' (h ::ₘ holders) where
  counted := ht.counted.take hh (by rw [hself]) (fun j hj => by rw [hne j hj]) hhandles
  range j hj := by
    rcases Multiset.mem_cons.1 hj with rfl | hj
    · exact hrange
    · exact ht.range j hj
  node j hj := by
    by_cases hjh : j = h
    · subst hjh
      rw [hself]
      exact ⟨start, rfl, hdvd, htotal⟩
    · rw [hne j hjh]
      exact ht.node j ((Multiset.mem_cons.1 hj).resolve_left hjh)
  free j hj := by
    rw [Multiset.mem_cons, not_or] at hj
    rw [hne j hj.1]
    exact ht.free j hj.2
  apart j hj j' hj' hjj' := by
    by_cases hjh : j = h
    · subst hjh
      have hj'mem := (Multiset.mem_cons.1 hj').resolve_left (Ne.symm hjj')
      rw [hself, hne j' (Ne.symm hjj')]
      intro n hn n' hn'
      obtain rfl := Option.mem_some_iff.1 hn
      exact (hapart j' hj'mem n' hn').symm
    · have hjmem := (Multiset.mem_cons.1 hj).resolve_left hjh
      rw [hne j hjh]
      by_cases hj'h : j' = h
      · subst hj'h
        rw [hself]
        intro n hn n' hn'
        obtain rfl := Option.mem_some_iff.1 hn'
        exact hapart j hjmem n hn
      · rw [hne j' hj'h]
        exact ht.apart j hjmem j' ((Multiset.mem_cons.1 hj').resolve_left hj'h) hjj'

/-! ### The operations -/

/-- A state drops its handle. -/
theorem HandlesExact.decAndTest (ht : HandlesExact num total align t (h ::ₘ holders)) :
    HandlesExact num total align (t.decAndTest h).2 holders ∧
      KeepsNodes t (t.decAndTest h).2 holders ∧ ((t.decAndTest h).1 = true ↔ h ∉ holders) := by
  have hmem := ht.counted.mem_iff
  have hsub : ∀ j ∈ holders, j ∈ h ::ₘ holders := fun j => Multiset.mem_cons_of_mem
  by_cases hlast : (t.refcounts h).refcount - 1 = 0
  · have hh : h ∉ holders := fun hh => hmem.1 hh hlast
    have hdec : t.decAndTest h = (true, (t.modify h fun r =>
        { r with refcount := r.refcount - 1 }).release h) := by
      simp [HandleTable.decAndTest, hlast]
    have hne : ∀ j ∈ holders, j ≠ h := fun j hj hjh => hh (hjh ▸ hj)
    rw [hdec]
    refine ⟨ht.mono ?_ hsub ?_ ?_ ?_, ?_, by simp [hh]⟩
    · exact ht.counted.dropLast hh (by simp) (fun j hj => by simp [hj]) rfl
    · exact fun j hj => by simp [hne j hj]
    · exact fun j hj => by simp [hne j hj]
    · intro j hj
      by_cases hjh : j = h
      · simp [hjh]
      · simp [hjh, ht.free j (by simp [hjh, hj])]
    · exact fun j hj => by simp [hne j hj]
  · have hh : h ∈ holders := hmem.2 hlast
    have hdec : t.decAndTest h = (false, t.modify h fun r =>
        { r with refcount := r.refcount - 1 }) := by
      simp [HandleTable.decAndTest, hlast]
    have hsame : ∀ j, ((t.decAndTest h).2.refcounts j).node = (t.refcounts j).node ∧
        ((t.decAndTest h).2.refcounts j).size = (t.refcounts j).size := by
      intro j
      rw [hdec]
      by_cases hjh : j = h
      · simp [hjh]
      · simp [hjh]
    rw [hdec] at hsame ⊢
    refine ⟨ht.mono ?_ hsub ?_ ?_ ?_, fun j _ => (hsame j).1, by simp [hh]⟩
    · exact ht.counted.drop hh (by simp) (fun j hj => by simp [hj]) rfl
    · exact fun j _ => (hsame j).1
    · exact fun j _ => (hsame j).2
    · intro j hj
      rw [(hsame j).1]
      exact ht.free j fun hmem => hj ((Multiset.mem_cons.1 hmem).elim (fun heq => heq ▸ hh) id)

theorem HandlesExact.drop (ht : HandlesExact num total align t (slot h + holders)) :
    HandlesExact num total align (t.drop h) holders ∧ KeepsNodes t (t.drop h) holders := by
  by_cases hh : h = 0
  · subst hh
    rw [slot_zero, zero_add] at ht
    exact ⟨ht, fun _ _ => rfl⟩
  · rw [slot_add hh] at ht
    rw [HandleTable.drop, if_neg hh]
    exact ⟨ht.decAndTest.1, ht.decAndTest.2.1⟩

/-- What is left in the state is a handle that others have. -/
theorem HandlesExact.giveUp (ht : HandlesExact num total align t (slot h + holders)) :
    HandlesExact num total align (t.giveUp h).2 holders ∧ KeepsNodes t (t.giveUp h).2 holders := by
  by_cases hh : h = 0
  · subst hh
    rw [slot_zero, zero_add] at ht
    exact ⟨ht, fun _ _ => rfl⟩
  · rw [slot_add hh] at ht
    rw [HandleTable.giveUp, if_neg hh]
    exact ⟨ht.decAndTest.1, ht.decAndTest.2.1⟩

/-- A state gets a handle that another one has. -/
theorem HandlesExact.inc (ht : HandlesExact num total align t holders) (hh : h = 0 ∨ h ∈ holders) :
    HandlesExact num total align (t.inc h) (slot h + holders) ∧
      ∀ j, ((t.inc h).refcounts j).node = (t.refcounts j).node := by
  by_cases hzero : h = 0
  · subst hzero
    rw [slot_zero, zero_add]
    exact ⟨ht, fun _ => rfl⟩
  · have hmem := hh.resolve_left hzero
    have hsame : ∀ j, ((t.inc h).refcounts j).node = (t.refcounts j).node ∧
        ((t.inc h).refcounts j).size = (t.refcounts j).size := by
      intro j
      rw [HandleTable.inc, if_neg hzero]
      by_cases hjh : j = h
      · simp [hjh]
      · simp [hjh]
    have hcons : ∀ j ∈ h ::ₘ holders, j ∈ holders := fun j hj =>
      (Multiset.mem_cons.1 hj).elim (fun heq => heq ▸ hmem) id
    rw [slot_add hzero]
    refine ⟨ht.mono ?_ hcons (fun j _ => (hsame j).1) (fun j _ => (hsame j).2) ?_,
      fun j => (hsame j).1⟩
    · rw [HandleTable.inc, if_neg hzero]
      exact ht.counted.share hmem (by simp) (fun j hj => by simp [hj]) rfl
    · intro j hj
      rw [(hsame j).1]
      exact ht.free j fun hmem => hj (Multiset.mem_cons_of_mem hmem)

/-- The state has the handle after an allocation, which has memory of the size if the allocation
succeeds. -/
structure AllocateSpec (num total align size : ℕ) (t : HandleTable) (holders : Multiset ℕ)
    (r : Int × ℕ × HandleTable) : Prop where
  exact_of : r.2.2.dangling = false → HandlesExact num total align r.2.2 (slot r.2.1 + holders)
  keeps : KeepsNodes t r.2.2 holders
  size_eq : r.1 = 0 → r.2.1 ≠ 0 ∧ (r.2.2.refcounts r.2.1).size = size
  dangling_eq : r.1 = 0 → r.2.2.dangling = t.dangling

theorem HandlesExact.setUp (alloc : HandleAllocator num total align) (size : ℕ)
    (ht : HandlesExact num total align t holders) (hrange : 1 ≤ h ∧ h ≤ num) (hh : h ∉ t.handles) :
    AllocateSpec num total align size t holders (t.setUp alloc size h) := by
  have hholders : h ∉ holders := fun hm => hh ((ht.counted.mem_used h).2 hm)
  have hne : ∀ j ∈ holders, j ≠ h := fun j hj hjh => hholders (hjh ▸ hj)
  unfold HandleTable.setUp
  extract_lets t₁ t₂
  have hrefs : ∀ j, j ≠ h → t₂.refcounts j = t.refcounts j := fun j hj => by
    rw [HandleTable.modify_of_ne _ _ hj]
  have hself : t₂.refcounts h = { refcount := 1, size, node := none } := by
    rw [HandleTable.modify_self, ← ht.free h hholders]
  split
  · rename_i e hins
    have he := alloc.insertNode_error hins
    have hnode : ∀ j, ((t₂.modify h fun r => { r with refcount := 0 }).refcounts j).node =
        (t.refcounts j).node := by
      intro j
      by_cases hjh : j = h
      · rw [hjh, HandleTable.modify_self, hself, ht.free h hholders]
      · rw [HandleTable.modify_of_ne _ _ hjh, hrefs j hjh]
    refine ⟨fun _ => ?_, fun j _ => hnode j, fun h => absurd h (Int.ne_of_lt he), fun _ => rfl⟩
    rw [slot_zero, zero_add]
    refine ht.mono (ht.counted.congr (fun j => ?_) (Finset.erase_insert hh)) (fun j hj => hj)
      (fun j _ => hnode j) (fun j hj => ?_) (fun j hj => (hnode j).trans (ht.free j hj))
    · by_cases hjh : j = h
      · rw [hjh, HandleTable.modify_self, ht.counted.count_of_notMem hh]
      · rw [HandleTable.modify_of_ne _ _ hjh, hrefs j hjh]
    · rw [HandleTable.modify_of_ne _ _ (hne j hj), hrefs j (hne j hj)]
  · rename_i start hins
    obtain ⟨hdvd, htotal, hapart⟩ := alloc.insertNode_ok hins
    refine ⟨fun _ => ?_, fun j hj => ?_, fun _ => ⟨Nat.ne_of_gt hrange.1, ?_⟩, fun _ => rfl⟩
    · rw [slot_add (Nat.ne_of_gt hrange.1)]
      refine ht.take hh hrange hdvd htotal (fun j hj n hn => ?_) ?_ (fun j hj => ?_) rfl
      · have hjt : j ∈ t₂.handles := Finset.mem_insert_of_mem ((ht.counted.mem_used j).2 hj)
        exact hapart j hjt n (by rwa [hrefs j (hne j hj)])
      · rw [HandleTable.modify_self, hself]
      · rw [HandleTable.modify_of_ne _ _ hj, hrefs j hj]
    · rw [HandleTable.modify_of_ne _ _ (hne j hj), hrefs j (hne j hj)]
    · rw [HandleTable.modify_self, hself]

theorem HandlesExact.allocate (alloc : HandleAllocator num total align) (size : ℕ)
    (ht : HandlesExact num total align t (slot h + holders)) :
    AllocateSpec num total align size t holders (t.allocate alloc size h) := by
  unfold HandleTable.allocate
  split_ifs with hkeep
  · exact ⟨fun _ => ht, fun _ _ => rfl, fun _ => hkeep, fun _ => rfl⟩
  obtain ⟨ht₁, hkeeps⟩ := ht.giveUp
  have hdangling := t.giveUp_dangling h
  generalize t.giveUp h = r at ht₁ hkeeps hdangling
  obtain ⟨h₁, t₁⟩ := r
  dsimp only at ht₁ hkeeps hdangling ⊢
  split
  · rename_i e hida
    have he := alloc.idaAllocRange_error hida
    have hne : e ≠ 0 := Int.ne_of_lt he
    refine ⟨fun hd => ?_, hkeeps, fun h => absurd h hne, fun h => absurd h hne⟩
    obtain rfl : h₁ = 0 := by simpa using (Bool.or_eq_false_iff.1 hd).2
    rw [slot_zero, zero_add]
    exact ht₁.withDangling _
  · rename_i k hida
    obtain ⟨hpos, hnum, hk⟩ := alloc.idaAllocRange_ok hida
    have hset := ht₁.setUp alloc size ⟨hpos, hnum⟩ hk
    exact ⟨hset.exact_of, fun j hj => (hset.keeps j hj).trans (hkeeps j hj), hset.size_eq,
      fun hret => (hset.dangling_eq hret).trans hdangling⟩

end Table

end KernelModules
