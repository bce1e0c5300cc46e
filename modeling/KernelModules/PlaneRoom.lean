import KernelModules.PlaneRuns

/-!
# Handles for every check

A state is left with a handle that it dropped only if a check got none for it. As long as a check
finds a handle for the LBM and one for each plane in the UPM, and the `ida`s fail only when they are
used up, the memory of the planes is right without a condition (`plane_memory_exact`).
-/

namespace KernelModules

open Interleaving SharedCounts

/-! ## Tables -/

section Tables

variable {num total align : ℕ} {alloc : HandleAllocator num total align} {t t' t'' : HandleTable}

/-- `ida_alloc_range` fails only if every handle is used. -/
def HandleAllocator.FailsWhenFull (alloc : HandleAllocator num total align) : Prop :=
  ∀ used e, alloc.idaAllocRange used = .error e → ∀ h, 1 ≤ h → h ≤ num → h ∈ used

theorem HandleAllocator.FailsWhenFull.exists_ok (halloc : alloc.FailsWhenFull) {used : Finset ℕ}
    (hcard : used.card < num) : ∃ h, alloc.idaAllocRange used = .ok h := by
  cases hida : alloc.idaAllocRange used with
  | ok h => exact ⟨h, rfl⟩
  | error e =>
    have hsub : Finset.Icc 1 num ⊆ used := fun h hh =>
      have ⟨hpos, hnum⟩ := Finset.mem_Icc.1 hh
      halloc used e hida h hpos hnum
    have hle := Finset.card_le_card hsub
    rw [Nat.card_Icc, Nat.add_sub_cancel] at hle
    exact absurd hle (Nat.not_le.2 hcard)

/-- At most so many handles are taken, and none is left dangling. -/
structure TakesAtMost (n : ℕ) (t t' : HandleTable) : Prop where
  dangling_eq : t'.dangling = t.dangling
  card_le : t'.handles.card ≤ t.handles.card + n

theorem TakesAtMost.refl (n : ℕ) (t : HandleTable) : TakesAtMost n t t :=
  ⟨rfl, Nat.le_add_right ..⟩

theorem TakesAtMost.trans {n m : ℕ} (h : TakesAtMost n t t') (h' : TakesAtMost m t' t'') :
    TakesAtMost (n + m) t t'' where
  dangling_eq := h'.dangling_eq.trans h.dangling_eq
  card_le := by
    have hle := h.card_le
    have hle' := h'.card_le
    omega

theorem TakesAtMost.mono {n m : ℕ} (h : TakesAtMost n t t') (hle : n ≤ m) : TakesAtMost m t t' :=
  ⟨h.dangling_eq, h.card_le.trans (Nat.add_le_add_left hle _)⟩

theorem takes_decAndTest (t : HandleTable) (h : ℕ) : TakesAtMost 0 t (t.decAndTest h).2 := by
  unfold HandleTable.decAndTest
  extract_lets t₁
  split_ifs
  · exact ⟨rfl, Finset.card_le_card (Finset.erase_subset ..)⟩
  · exact ⟨rfl, Nat.le_refl _⟩

theorem takes_drop (t : HandleTable) (h : ℕ) : TakesAtMost 0 t (t.drop h) := by
  unfold HandleTable.drop
  split_ifs
  · exact TakesAtMost.refl ..
  · exact takes_decAndTest t h

theorem takes_giveUp (t : HandleTable) (h : ℕ) : TakesAtMost 0 t (t.giveUp h).2 := by
  unfold HandleTable.giveUp
  split_ifs
  · exact TakesAtMost.refl ..
  · exact takes_decAndTest t h

theorem takes_setUp (alloc : HandleAllocator num total align) (size h : ℕ) (t : HandleTable) :
    TakesAtMost 1 t (t.setUp alloc size h).2.2 := by
  have hcard := Finset.card_insert_le h t.handles
  unfold HandleTable.setUp
  extract_lets t₁ t₂
  split
  · exact ⟨rfl, (Finset.card_le_card (Finset.erase_subset ..)).trans hcard⟩
  · exact ⟨rfl, hcard⟩

/-- A handle that is free keeps the state from being left with one that it dropped. -/
theorem takes_allocate (halloc : alloc.FailsWhenFull) (size h : ℕ) (hroom : t.handles.card < num) :
    TakesAtMost 1 t (t.allocate alloc size h).2.2 := by
  have hgive := takes_giveUp t h
  unfold HandleTable.allocate
  split_ifs
  · exact TakesAtMost.refl ..
  generalize t.giveUp h = r at hgive
  obtain ⟨h₁, t₁⟩ := r
  obtain ⟨k, hk⟩ := halloc.exists_ok (hgive.card_le.trans_lt hroom)
  dsimp only
  rw [hk]
  exact hgive.trans (takes_setUp alloc size k t₁)

end Tables

/-! ## Checks -/

section Checks

variable {gen : Vc4Gen} {st : Vc4PlaneMem} {hvs : HvsHandles} {fb : DrmFramebuffer}

theorem takes_dropUpm (st : Vc4PlaneMem) (t : HandleTable) : TakesAtMost 0 t (dropUpm st t) := by
  have hfold : ∀ (l : List (Fin 4)) (t : HandleTable),
      TakesAtMost 0 t (l.foldl (fun t i => t.drop (st.upmHandle i)) t) := by
    intro l
    induction l with
    | nil => exact TakesAtMost.refl 0
    | cons i l ih => exact fun t => (takes_drop t _).trans (ih _)
  exact hfold _ t

theorem takes_upmPass {alloc : UpmAllocator} (halloc : alloc.FailsWhenFull) (fb : DrmFramebuffer)
    (i : Fin 4) (st : Vc4PlaneMem) {t : HandleTable}
    (hroom : t.handles.card < VC4_NUM_UPM_HANDLES) :
    TakesAtMost 1 t (upmPass alloc fb i st t).2.2 := by
  unfold upmPass
  split_ifs
  · exact TakesAtMost.refl ..
  have htakes := takes_allocate halloc (vc6UpmSize fb st i) (st.upmHandle i) hroom
  generalize t.allocate alloc (vc6UpmSize fb st i) (st.upmHandle i) = r at htakes
  obtain ⟨ret, h, t'⟩ := r
  dsimp only
  split_ifs <;> exact htakes

theorem takes_upmLoop {alloc : UpmAllocator} (halloc : alloc.FailsWhenFull) (fb : DrmFramebuffer) :
    ∀ {is : List (Fin 4)} (st : Vc4PlaneMem) {t : HandleTable},
      t.handles.card + is.length ≤ VC4_NUM_UPM_HANDLES →
        TakesAtMost is.length t (upmLoop alloc fb is st t).2.2
  | [], _, t, _ => TakesAtMost.refl 0 t
  | i :: is, st, t, hroom => by
    rw [List.length_cons] at hroom ⊢
    have hpass := takes_upmPass halloc fb i st (t := t) (by omega)
    unfold upmLoop
    generalize upmPass alloc fb i st t = r at hpass
    obtain ⟨ret, st₁, t₁⟩ := r
    dsimp only at hpass ⊢
    have hle := hpass.card_le
    split_ifs
    · exact hpass.mono (by omega)
    · exact (hpass.trans (takes_upmLoop halloc fb st₁ (by omega))).mono (by omega)

/-- The tables of a check. -/
structure HandlesTake (hvs hvs' : HvsHandles) : Prop where
  lbm : TakesAtMost 1 hvs.lbm hvs'.lbm
  upm : TakesAtMost 4 hvs.upm hvs'.upm

/-- There is a handle for the LBM, and one for each plane in the UPM. -/
def HvsHandles.HaveRoom (hvs : HvsHandles) : Prop :=
  hvs.lbm.handles.card + 1 ≤ VC4_NUM_LBM_HANDLES ∧ hvs.upm.handles.card + 4 ≤ VC4_NUM_UPM_HANDLES

instance (hvs : HvsHandles) : Decidable hvs.HaveRoom :=
  inferInstanceAs (Decidable (_ ∧ _))

theorem HandlesTake.refl (hvs : HvsHandles) : HandlesTake hvs hvs :=
  ⟨TakesAtMost.refl .., TakesAtMost.refl ..⟩

theorem takes_allocateLbm {alloc : LbmAllocator gen} (halloc : alloc.FailsWhenFull)
    (fb : DrmFramebuffer) (st : Vc4PlaneMem) (hroom : hvs.HaveRoom) :
    TakesAtMost 1 hvs.lbm (vc4PlaneAllocateLbm gen alloc fb st hvs).2.2.lbm ∧
      (vc4PlaneAllocateLbm gen alloc fb st hvs).2.2.upm = hvs.upm := by
  unfold vc4PlaneAllocateLbm
  split_ifs
  · exact ⟨TakesAtMost.refl .., rfl⟩
  · exact ⟨TakesAtMost.refl .., rfl⟩
  have htakes := takes_allocate halloc (lbmAllocSize gen fb st).toNat st.lbmHandle hroom.1
  generalize hvs.lbm.allocate alloc (lbmAllocSize gen fb st).toNat st.lbmHandle = r at htakes
  obtain ⟨ret, h, t⟩ := r
  dsimp only
  split_ifs <;> exact ⟨htakes, rfl⟩

theorem takes_allocateUpm {alloc : UpmAllocator} (halloc : alloc.FailsWhenFull)
    (fb : DrmFramebuffer) (st : Vc4PlaneMem)
    (hroom : hvs.upm.handles.card + 4 ≤ VC4_NUM_UPM_HANDLES) :
    TakesAtMost 4 hvs.upm (vc6PlaneAllocateUpm alloc fb st hvs).2.2.upm ∧
      (vc6PlaneAllocateUpm alloc fb st hvs).2.2.lbm = hvs.lbm := by
  have hlength : (fbPlanes fb.format.numPlanes).length ≤ 4 := by
    rw [fbPlanes, List.length_take, List.length_finRange]
    exact Nat.min_le_right ..
  unfold vc6PlaneAllocateUpm
  extract_lets st₁
  exact ⟨(takes_upmLoop halloc fb st₁ (by omega)).mono hlength, rfl⟩

/-- The allocators of a check fail only if every handle is used. -/
def PlaneCheck.FailsWhenFull (c : PlaneCheck gen) : Prop :=
  c.lbmAlloc.FailsWhenFull ∧ c.upmAlloc.FailsWhenFull

theorem takes_planeAllocate {c : PlaneCheck gen} (hfull : c.FailsWhenFull) (hroom : hvs.HaveRoom) :
    HandlesTake hvs (c.allocate fb st hvs).2.2 := by
  obtain ⟨hlbm, hsame⟩ := takes_allocateLbm hfull.1 fb st hroom
  unfold PlaneCheck.allocate
  generalize vc4PlaneAllocateLbm gen c.lbmAlloc fb st hvs = r at hlbm hsame
  obtain ⟨ret, st₁, hvs₁⟩ := r
  dsimp only at hlbm hsame ⊢
  have hone : HandlesTake hvs hvs₁ := ⟨hlbm, hsame ▸ TakesAtMost.refl ..⟩
  split_ifs
  · exact hone
  · obtain ⟨hupm, hkeep⟩ := takes_allocateUpm hfull.2 fb st₁ (hsame ▸ hroom.2)
    exact ⟨hkeep ▸ hlbm, hsame ▸ hupm⟩
  · exact hone

theorem takes_atomicCheck {c : PlaneCheck gen} (hfull : c.FailsWhenFull) (hroom : hvs.HaveRoom) :
    HandlesTake hvs (vc4PlaneAtomicCheck gen c st hvs).2.2 := by
  unfold vc4PlaneAtomicCheck
  extract_lets st₁
  split
  · split_ifs
    · exact ⟨(takes_drop ..).mono (Nat.zero_le _), (takes_dropUpm ..).mono (Nat.zero_le _)⟩
    · exact ⟨(takes_drop ..).mono (Nat.zero_le _), TakesAtMost.refl ..⟩
    · exact HandlesTake.refl hvs
  · generalize c.modeSetState st₁ = r
    obtain ⟨ret, st₂⟩ := r
    dsimp only
    split_ifs
    · exact HandlesTake.refl hvs
    · exact HandlesTake.refl hvs
    · exact takes_planeAllocate hfull hroom

end Checks

/-! ## Runs -/

section Runs

variable {gen : Vc4Gen} {s s' : PlaneStates}

/-- The ida of a check fails only when it is full. -/
def PlaneAct.FailsWhenFull : PlaneAct gen → Prop
  | .check _ c => c.FailsWhenFull
  | .reset | .duplicate _ _ _ | .destroy _ => True

/-- A check finds what it may need. -/
def PlaneAct.HasRoom : PlaneAct gen → PlaneStates → Prop
  | .check _ _, s => s.hvs.HaveRoom
  | .reset, _ | .duplicate _ _ _, _ | .destroy _, _ => True

instance : ∀ (a : PlaneAct gen) (s : PlaneStates), Decidable (a.HasRoom s)
  | .check _ _, s => inferInstanceAs (Decidable s.hvs.HaveRoom)
  | .reset, _ | .duplicate _ _ _, _ | .destroy _, _ => isTrue trivial

/-- No state was left with a handle that it had dropped. -/
def PlaneStates.Settled (s : PlaneStates) : Prop :=
  s.hvs.lbm.dangling = false ∧ s.hvs.upm.dangling = false

theorem copyHandles_settled (x : LivePlane) (h : s.Settled) :
    (copyHandles x.st s.hvs).lbm.dangling = false ∧
      (copyHandles x.st s.hvs).upm.dangling = false :=
  ⟨(s.hvs.lbm.inc_dangling _).trans h.1, (incList_dangling _ _ _).trans h.2⟩

theorem planeStep_settled {a : PlaneAct gen} (hstep : planeStep gen a s = some s')
    (hfull : a.FailsWhenFull) (hroom : a.HasRoom s) (h : s.Settled) : s'.Settled := by
  cases a with
  | reset =>
    obtain rfl := Option.some.inj hstep
    exact h
  | duplicate x copied dlistCopied =>
    obtain ⟨-, rfl | rfl | rfl⟩ := planeStep_duplicate hstep
    · exact h
    · exact copyHandles_settled x h
    · exact copyHandles_settled x h
  | check x c =>
    obtain ⟨-, -, rfl⟩ := planeStep_check hstep
    have htake : HandlesTake s.hvs (vc4PlaneAtomicCheck gen c x.st s.hvs).2.2 :=
      takes_atomicCheck hfull hroom
    exact ⟨htake.lbm.dangling_eq.trans h.1, htake.upm.dangling_eq.trans h.2⟩
  | destroy x =>
    obtain ⟨-, -, rfl⟩ := planeStep_destroy hstep
    exact ⟨(s.hvs.lbm.drop_dangling _).trans h.1, (dropUpm_dangling x.st _).trans h.2⟩

/-- Whatever DRM does with plane states while a check can get handles, all handles are counted
right, and each state that was accepted has memory of the sizes that it needs, which its list
names. -/
theorem plane_memory_exact (gen : Vc4Gen) (acts : List (PlaneAct gen))
    (hsetup : ∀ a ∈ acts, a.SetupOk) (hfull : ∀ a ∈ acts, a.FailsWhenFull)
    (hroom : Along (planeStep gen) PlaneAct.HasRoom acts {}) :
    ∀ s, runSchedule (planeStep gen) acts {} = some s →
      LbmExact gen s.hvs.lbm s.lbmHolders ∧ UpmExact s.hvs.upm s.upmHolders ∧
        ∀ x ∈ s.states, x.checked = true → ListOk gen s.hvs x.st := by
  intro s hrun
  have halong : Along (planeStep gen) (fun a s => a.FailsWhenFull ∧ a.HasRoom s) acts {} :=
    along_iff.2 fun pre a post s heq hpre =>
      ⟨hfull a (heq ▸ by simp), along_iff.1 hroom pre a post s heq hpre⟩
  obtain ⟨hlbm, hupm⟩ : s.Settled := runSchedule_preserves_along
    (I := PlaneStates.Settled) (fun hstep hP h => planeStep_settled hstep hP.1 hP.2 h) hrun halong
    ⟨rfl, rfl⟩
  have hexact := planesExact_run hrun
  exact ⟨hexact.lbm hlbm, hexact.upm hupm, listsOk_run hsetup hrun hlbm hupm⟩

/-! ### The plane that is scaled -/

theorem firstFit_failsWhenFull (num total align : ℕ) :
    (firstFit num total align).FailsWhenFull := by
  intro used e hida h hpos hnum
  have hmem : h ∈ List.range' 1 num := List.mem_range'_1.2 ⟨hpos, by omega⟩
  exact not_not.1 fun hh => firstFree_ne_error hmem (decide_eq_true hh) hida

theorem rescale_failsWhenFull : ∀ a ∈ rescale, a.FailsWhenFull := by
  have hfit : ∀ width, (scaledCheck width).FailsWhenFull := fun _ =>
    ⟨firstFit_failsWhenFull _ _ _, firstFit_failsWhenFull _ _ _⟩
  unfold rescale
  simp only [List.forall_mem_cons]
  exact ⟨trivial, hfit 64, trivial, hfit 32, trivial, fun _ ha => absurd ha List.not_mem_nil⟩

theorem plane_memory_exact_rescale :
    ∃ s, runSchedule (planeStep .gen6C) rescale {} = some s ∧
      s.shown = (false, {⟨true, 2, 2, [0, 0, 3 <<< 16 ||| 1 <<< 10, 6]⟩}) ∧
      LbmExact .gen6C s.hvs.lbm s.lbmHolders ∧ UpmExact s.hvs.upm s.upmHolders ∧
        ∀ x ∈ s.states, x.checked = true → ListOk .gen6C s.hvs x.st := by
  obtain ⟨s, hrun, hshown⟩ := Option.map_eq_some_iff.1 rescale_shown
  exact ⟨s, hrun, hshown, plane_memory_exact .gen6C rescale rescale_setupOk rescale_failsWhenFull
    (by decide +kernel) s hrun⟩

end Runs

end KernelModules
