import KernelModules.PlaneLists

/-!
# Runs over the states of planes

Whatever DRM does with plane states, and whichever calls fail, the handles are counted right as long
as no state was left with a handle that it had dropped (`plane_handles_exact`). They are free when
the states are gone (`plane_handles_free`), and each state that a check accepted finds its memory
where its list says (`plane_lists_name_memory`).
-/

namespace KernelModules

open Interleaving SharedCounts

/-! ## Holders -/

/-- The handles for the LBM of the states, one for each reference. -/
def PlaneStates.lbmHolders (s : PlaneStates) : Multiset ℕ :=
  s.states.bind (fun x => slot x.st.lbmHandle) + s.lost.bind fun st => slot st.lbmHandle

/-- The handles for the UPM of the states, one for each reference. -/
def PlaneStates.upmHolders (s : PlaneStates) : Multiset ℕ :=
  s.states.bind (fun x => upmSlots x.st.upmHandle) + s.lost.bind fun st => upmSlots st.upmHandle

/-- The handles are counted right. -/
structure PlanesExact (gen : Vc4Gen) (s : PlaneStates) : Prop where
  lbm : s.hvs.lbm.dangling = false → LbmExact gen s.hvs.lbm s.lbmHolders
  upm : s.hvs.upm.dangling = false → UpmExact s.hvs.upm s.upmHolders

/-- The lists of the states that were accepted are right. -/
def ListsOk (gen : Vc4Gen) (s : PlaneStates) : Prop :=
  s.hvs.lbm.dangling = false → s.hvs.upm.dangling = false →
    ∀ x ∈ s.states, x.checked = true → ListOk gen s.hvs x.st

variable {gen : Vc4Gen} {s s' : PlaneStates} {x : LivePlane} {rest : Multiset LivePlane}

/-- What is held beside a state that is alive. -/
def PlaneStates.others (s : PlaneStates) (rest : Multiset LivePlane) : PlaneStates :=
  { s with states := rest }

theorem lbmHolders_of_cons (h : s.states = x ::ₘ rest) :
    s.lbmHolders = slot x.st.lbmHandle + (s.others rest).lbmHolders := by
  rw [PlaneStates.lbmHolders, h, Multiset.cons_bind, add_assoc]
  rfl

theorem upmHolders_of_cons (h : s.states = x ::ₘ rest) :
    s.upmHolders = upmSlots x.st.upmHandle + (s.others rest).upmHolders := by
  rw [PlaneStates.upmHolders, h, Multiset.cons_bind, add_assoc]
  rfl

theorem mem_lbmHolders (hx : x ∈ s.states) (hne : x.st.lbmHandle ≠ 0) :
    x.st.lbmHandle ∈ s.lbmHolders :=
  Multiset.mem_add.2 (Or.inl (Multiset.mem_bind.2 ⟨x, hx, mem_slot.2 ⟨rfl, hne⟩⟩))

theorem mem_upmHolders (hx : x ∈ s.states) {i : Fin 4} (hne : x.st.upmHandle i ≠ 0) :
    x.st.upmHandle i ∈ s.upmHolders :=
  Multiset.mem_add.2 (Or.inl (Multiset.mem_bind.2 ⟨x, hx, mem_upmSlots.2 ⟨i, rfl, hne⟩⟩))

/-! ## Steps -/

/-- Every table ends with its own part of the state's handles exchanged. -/
theorem PlanesExact.replace (h : PlanesExact gen s) (hstates : s.states = x ::ₘ rest)
    (hvs' : HvsHandles) {lbm upm : Multiset ℕ}
    (hlbm : TableSpec VC4_NUM_LBM_HANDLES (lbmTotal gen) 1 s.hvs.lbm hvs'.lbm
      (slot x.st.lbmHandle) lbm)
    (hupm : TableSpec VC4_NUM_UPM_HANDLES upmTotal HVS_UBM_WORD_SIZE s.hvs.upm hvs'.upm
      (upmSlots x.st.upmHandle) upm) :
    (hvs'.lbm.dangling = false → LbmExact gen hvs'.lbm (lbm + (s.others rest).lbmHolders) ∧
        KeepsNodes s.hvs.lbm hvs'.lbm (s.others rest).lbmHolders) ∧
      (hvs'.upm.dangling = false → UpmExact hvs'.upm (upm + (s.others rest).upmHolders) ∧
        KeepsNodes s.hvs.upm hvs'.upm (s.others rest).upmHolders) := by
  constructor
  · intro hd
    have hexact := h.lbm (hlbm.dangling hd)
    rw [lbmHolders_of_cons hstates] at hexact
    exact hlbm.exact_of hd _ hexact
  · intro hd
    have hexact := h.upm (hupm.dangling hd)
    rw [upmHolders_of_cons hstates] at hexact
    exact hupm.exact_of hd _ hexact

/-- The lists of the states that are not touched stay right. -/
theorem ListsOk.keep (h : ListsOk gen s) (hstates : s.states = x ::ₘ rest) {hvs' : HvsHandles}
    (hlbm : KeepsNodes s.hvs.lbm hvs'.lbm (s.others rest).lbmHolders)
    (hupm : KeepsNodes s.hvs.upm hvs'.upm (s.others rest).upmHolders)
    (hdlbm : s.hvs.lbm.dangling = false) (hdupm : s.hvs.upm.dangling = false) :
    ∀ y ∈ rest, y.checked = true → ListOk gen hvs' y.st := by
  intro y hy hchecked
  have hys : y ∈ s.states := hstates ▸ Multiset.mem_cons_of_mem hy
  have hother : y ∈ (s.others rest).states := hy
  exact (h hdlbm hdupm y hys hchecked).keep (fun hne => hlbm _ (mem_lbmHolders hother hne))
    fun _ hne => hupm _ (mem_upmHolders hother hne)

theorem planeStep_check {c : PlaneCheck gen} (hstep : planeStep gen (.check x c) s = some s') :
    ∃ rest, s.states = x ::ₘ rest ∧
      s' = { s with
        hvs := (vc4PlaneAtomicCheck gen c x.st s.hvs).2.2
        states := ⟨(vc4PlaneAtomicCheck gen c x.st s.hvs).2.1,
          (vc4PlaneAtomicCheck gen c x.st s.hvs).1 = 0 && !x.st.dlistInitialized⟩ ::ₘ rest } := by
  simp only [planeStep] at hstep
  split_ifs at hstep with hx
  obtain ⟨rest, hstates⟩ := Multiset.exists_cons_of_mem hx
  rw [hstates, Multiset.erase_cons_head] at hstep
  exact ⟨rest, hstates, (Option.some.inj hstep).symm⟩

theorem planeStep_destroy (hstep : planeStep gen (.destroy x) s = some s') :
    ∃ rest, s.states = x ::ₘ rest ∧
      s' = { s with hvs := vc4PlaneDestroyState x.st s.hvs, states := rest } := by
  simp only [planeStep] at hstep
  split_ifs at hstep with hx
  obtain ⟨rest, hstates⟩ := Multiset.exists_cons_of_mem hx
  rw [hstates, Multiset.erase_cons_head] at hstep
  exact ⟨rest, hstates, (Option.some.inj hstep).symm⟩

/-- A check puts a state in the place of one. -/
theorem planesExact_check (h : PlanesExact gen s) (hstates : s.states = x ::ₘ rest)
    (c : PlaneCheck gen) {r : Int × Vc4PlaneMem × HvsHandles}
    (hr : vc4PlaneAtomicCheck gen c x.st s.hvs = r) {checked : Bool}
    (hs' : s' = { s with hvs := r.2.2, states := ⟨r.2.1, checked⟩ ::ₘ rest }) :
    PlanesExact gen s' ∧
      (ListsOk gen s → (s.hvs.lbm.dangling = false → s.hvs.upm.dangling = false →
        checked = true → ListOk gen r.2.2 r.2.1) → ListsOk gen s') := by
  have hspec : HandlesSpec gen x.st r.2.1 s.hvs r.2.2 := hr ▸ handlesSpec_atomicCheck c
  obtain ⟨hlbm, hupm⟩ := h.replace hstates r.2.2 hspec.lbm hspec.upm
  have hcons : s'.states = (⟨r.2.1, checked⟩ : LivePlane) ::ₘ rest := by rw [hs']
  have hothers : s'.others rest = { s.others rest with hvs := r.2.2 } := by rw [hs']; rfl
  constructor
  · constructor
    · rw [lbmHolders_of_cons hcons, hothers, hs']
      exact fun hd => (hlbm hd).1
    · rw [upmHolders_of_cons hcons, hothers, hs']
      exact fun hd => (hupm hd).1
  · intro hlists hnew
    unfold ListsOk
    rw [hs']
    intro hdlbm hdupm y hy hchecked
    have hd := hspec.lbm.dangling hdlbm
    have hd' := hspec.upm.dangling hdupm
    rcases Multiset.mem_cons.1 hy with rfl | hy
    · exact hnew hd hd' hchecked
    · exact hlists.keep hstates (hlbm hdlbm).2 (hupm hdupm).2 hd hd' y hy hchecked

/-- A state goes. -/
theorem planesExact_destroy (h : PlanesExact gen s) (hstates : s.states = x ::ₘ rest)
    (hs' : s' = { s with hvs := vc4PlaneDestroyState x.st s.hvs, states := rest }) :
    PlanesExact gen s' ∧ (ListsOk gen s → ListsOk gen s') := by
  have hdlbm := s.hvs.lbm.drop_dangling x.st.lbmHandle
  have hspec : TableSpec VC4_NUM_UPM_HANDLES upmTotal HVS_UBM_WORD_SIZE s.hvs.upm
      (dropUpm x.st s.hvs.upm) (upmSlots x.st.upmHandle) 0 := tableSpec_dropUpm x.st s.hvs.upm
  obtain ⟨hlbm, hupm⟩ := h.replace hstates (vc4PlaneDestroyState x.st s.hvs)
    (tableSpec_drop s.hvs.lbm x.st.lbmHandle) hspec
  have hothers : s' = { s.others rest with hvs := vc4PlaneDestroyState x.st s.hvs } := by
    rw [hs']
    rfl
  rw [zero_add] at hlbm hupm
  subst hothers
  refine ⟨⟨fun hd => (hlbm hd).1, fun hd => (hupm hd).1⟩, fun hlists hd hd' => ?_⟩
  exact hlists.keep hstates (hlbm hd).2 (hupm hd').2 (hdlbm ▸ hd) (hspec.dangling hd')

/-! ### Copies -/

/-- The handles after the references for a copy were taken. -/
def copyHandles (st : Vc4PlaneMem) (hvs : HvsHandles) : HvsHandles :=
  { lbm := hvs.lbm.inc st.lbmHandle
    upm := (List.finRange 4).foldl (fun t i => t.inc (st.upmHandle i)) hvs.upm }

theorem duplicateState_cases (copied dlistCopied : Bool) (st : Vc4PlaneMem) (hvs : HvsHandles) :
    (copied = false ∧ vc4PlaneDuplicateState copied dlistCopied st hvs = (none, hvs)) ∨
      (copied = true ∧
        (vc4PlaneDuplicateState copied dlistCopied st hvs = (none, copyHandles st hvs) ∨
          vc4PlaneDuplicateState copied dlistCopied st hvs =
            (some { st with dlistInitialized := false, dlist := st.dlist.take st.dlistCount },
              copyHandles st hvs))) := by
  cases copied with
  | false => exact Or.inl ⟨rfl, rfl⟩
  | true =>
    refine Or.inr ⟨rfl, ?_⟩
    unfold vc4PlaneDuplicateState
    simp only [Bool.not_true, Bool.false_eq_true, if_false]
    split_ifs
    · exact Or.inl rfl
    · exact Or.inr rfl

theorem planeStep_duplicate {copied dlistCopied : Bool}
    (hstep : planeStep gen (.duplicate x copied dlistCopied) s = some s') :
    x ∈ s.states ∧ (s' = s ∨
      s' = { s with
        hvs := copyHandles x.st s.hvs
        states := { x with st := { x.st with
          dlistInitialized := false, dlist := x.st.dlist.take x.st.dlistCount } } ::ₘ s.states } ∨
      s' = { s with hvs := copyHandles x.st s.hvs, lost := x.st ::ₘ s.lost }) := by
  unfold planeStep at hstep
  dsimp only at hstep
  by_cases hx : x ∈ s.states
  · rw [if_pos hx] at hstep
    refine ⟨hx, ?_⟩
    obtain ⟨hcopied, heq⟩ | ⟨hcopied, heq | heq⟩ :=
      duplicateState_cases copied dlistCopied x.st s.hvs
    · rw [heq, hcopied] at hstep
      exact Or.inl (Option.some.inj hstep).symm
    · rw [heq, hcopied] at hstep
      exact Or.inr (Or.inr (Option.some.inj hstep).symm)
    · rw [heq] at hstep
      exact Or.inr (Or.inl (Option.some.inj hstep).symm)
  · rw [if_neg hx] at hstep
    exact absurd hstep (Option.some_ne_none s').symm

theorem incList_dangling (handle : Fin 4 → ℕ) : ∀ (l : List (Fin 4)) (t : HandleTable),
    (l.foldl (fun t i => t.inc (handle i)) t).dangling = t.dangling
  | [], _ => rfl
  | i :: l, t => (incList_dangling handle l _).trans (t.inc_dangling (handle i))

/-- A copy takes a reference to each of the handles, and moves no memory. -/
theorem PlanesExact.copy (h : PlanesExact gen s) (hx : x ∈ s.states) :
    ((copyHandles x.st s.hvs).lbm.dangling = false →
      LbmExact gen (copyHandles x.st s.hvs).lbm (slot x.st.lbmHandle + s.lbmHolders) ∧
        ∀ j, ((copyHandles x.st s.hvs).lbm.refcounts j).node = (s.hvs.lbm.refcounts j).node) ∧
      ((copyHandles x.st s.hvs).upm.dangling = false →
        UpmExact (copyHandles x.st s.hvs).upm (upmSlots x.st.upmHandle + s.upmHolders) ∧
          ∀ j, ((copyHandles x.st s.hvs).upm.refcounts j).node = (s.hvs.upm.refcounts j).node) := by
  constructor
  · intro hd
    refine (h.lbm (s.hvs.lbm.inc_dangling x.st.lbmHandle ▸ hd)).inc ?_
    by_cases hne : x.st.lbmHandle = 0
    · exact Or.inl hne
    · exact Or.inr (mem_lbmHolders hx hne)
  · intro hd
    have hd' : s.hvs.upm.dangling = false := (incList_dangling _ _ _).symm.trans hd
    rw [upmSlots_eq_sum]
    refine (h.upm hd').incList _ fun i _ => ?_
    by_cases hne : x.st.upmHandle i = 0
    · exact Or.inl hne
    · exact Or.inr (mem_upmHolders hx hne)

/-- The list of a copy is right if that of the state is. -/
theorem ListOk.copy {st : Vc4PlaneMem} {hvs : HvsHandles} (h : ListOk gen hvs st) :
    ListOk gen hvs
      { st with dlistInitialized := false, dlist := st.dlist.take st.dlistCount } := by
  intro fb hfb hoff
  obtain ⟨hcount, hlbm, hupm⟩ := h fb hfb hoff
  have htake : st.dlist.take st.dlistCount = st.dlist := by rw [hcount, List.take_length]
  rw [htake]
  exact ⟨hcount, hlbm, hupm⟩

theorem planesExact_duplicate (h : PlanesExact gen s) (hx : x ∈ s.states)
    (hs' : s' = { s with
        hvs := copyHandles x.st s.hvs
        states := { x with st := { x.st with
          dlistInitialized := false, dlist := x.st.dlist.take x.st.dlistCount } } ::ₘ s.states } ∨
      s' = { s with hvs := copyHandles x.st s.hvs, lost := x.st ::ₘ s.lost }) :
    PlanesExact gen s' ∧ (ListsOk gen s → ListsOk gen s') := by
  obtain ⟨hlbm, hupm⟩ := h.copy hx
  have hold : ListsOk gen s → ∀ y ∈ s.states, (copyHandles x.st s.hvs).lbm.dangling = false →
      (copyHandles x.st s.hvs).upm.dangling = false → y.checked = true →
        ListOk gen (copyHandles x.st s.hvs) y.st := by
    intro hlists y hy hdlbm hdupm hchecked
    have hd : s.hvs.lbm.dangling = false := s.hvs.lbm.inc_dangling x.st.lbmHandle ▸ hdlbm
    have hd' : s.hvs.upm.dangling = false := (incList_dangling _ _ _).symm.trans hdupm
    exact (hlists hd hd' y hy hchecked).keep (fun _ => (hlbm hdlbm).2 _) fun _ _ => (hupm hdupm).2 _
  rcases hs' with rfl | rfl
  · refine ⟨⟨fun hd => ?_, fun hd => ?_⟩, fun hlists hd hd' y hy hchecked => ?_⟩
    · rw [lbmHolders_of_cons rfl]
      exact (hlbm hd).1
    · rw [upmHolders_of_cons rfl]
      exact (hupm hd).1
    · rcases Multiset.mem_cons.1 hy with rfl | hy
      · exact (hold hlists x hx hd hd' hchecked).copy
      · exact hold hlists y hy hd hd' hchecked
  · refine ⟨⟨fun hd => ?_, fun hd => ?_⟩, fun hlists hd hd' y hy => hold hlists y hy hd hd'⟩
    · rw [PlaneStates.lbmHolders, Multiset.cons_bind, add_left_comm]
      exact (hlbm hd).1
    · rw [PlaneStates.upmHolders, Multiset.cons_bind, add_left_comm]
      exact (hupm hd).1

/-! ## Runs -/

/-- What a check sets up is as `PlaneCheck.SetupOk` says. -/
def PlaneAct.SetupOk : PlaneAct gen → Prop
  | .check _ c => c.SetupOk
  | .reset | .duplicate _ _ _ | .destroy _ => True

theorem planeStep_exact {a : PlaneAct gen} (hstep : planeStep gen a s = some s')
    (h : PlanesExact gen s) :
    PlanesExact gen s' ∧ (a.SetupOk → ListsOk gen s → ListsOk gen s') := by
  cases a with
  | reset =>
    obtain rfl := Option.some.inj hstep
    refine ⟨⟨fun hd => ?_, fun hd => ?_⟩, fun _ hlists hd hd' y hy hchecked => ?_⟩
    · rw [lbmHolders_of_cons rfl]
      exact (zero_add s.lbmHolders).symm ▸ h.lbm hd
    · rw [upmHolders_of_cons rfl]
      exact upmSlots_zero.symm ▸ (zero_add s.upmHolders).symm ▸ h.upm hd
    · rcases Multiset.mem_cons.1 hy with rfl | hy
      · exact absurd hchecked Bool.false_ne_true
      · exact hlists hd hd' y hy hchecked
  | duplicate x copied dlistCopied =>
    obtain ⟨hx, rfl | hs'⟩ := planeStep_duplicate hstep
    · exact ⟨h, fun _ => id⟩
    · have hdup := planesExact_duplicate h hx hs'
      exact ⟨hdup.1, fun _ => hdup.2⟩
  | check x c =>
    obtain ⟨rest, hstates, hs'⟩ := planeStep_check hstep
    obtain ⟨hexact, hlists⟩ := planesExact_check h hstates c rfl hs'
    refine ⟨hexact, fun hsetup hl => hlists hl fun hd hd' hchecked => ?_⟩
    obtain ⟨hret, hinit⟩ := Bool.and_eq_true_iff.1 hchecked
    exact atomicCheck_listOk c hsetup (by simpa using hinit) hd hd'
      (lbmHolders_of_cons hstates ▸ h.lbm hd) (upmHolders_of_cons hstates ▸ h.upm hd')
      (of_decide_eq_true hret)
  | destroy x =>
    obtain ⟨rest, hstates, hs'⟩ := planeStep_destroy hstep
    have hdestroy := planesExact_destroy h hstates hs'
    exact ⟨hdestroy.1, fun _ => hdestroy.2⟩

theorem planesExact_init : PlanesExact gen {} :=
  ⟨fun _ => handlesExact_empty, fun _ => handlesExact_empty⟩

theorem planesExact_run {acts : List (PlaneAct gen)}
    (hrun : runSchedule (planeStep gen) acts {} = some s) : PlanesExact gen s :=
  runSchedule_preserves (I := PlanesExact gen) (fun hstep h => (planeStep_exact hstep h).1) hrun
    planesExact_init

theorem listsOk_run {acts : List (PlaneAct gen)} (hsetup : ∀ a ∈ acts, a.SetupOk)
    (hrun : runSchedule (planeStep gen) acts {} = some s) : ListsOk gen s := by
  have halong : Along (planeStep gen) (fun a _ => a.SetupOk) acts {} :=
    along_iff.2 fun pre a post _ heq _ => hsetup a (heq ▸ by simp)
  have hok := runSchedule_preserves_along (I := fun s => PlanesExact gen s ∧ ListsOk gen s)
    (fun hstep hP hs =>
      have h := planeStep_exact hstep hs.1
      ⟨h.1, h.2 hP hs.2⟩) hrun halong
    ⟨planesExact_init, fun _ _ x hx => absurd hx (Multiset.notMem_zero x)⟩
  exact hok.2

/-! ### A plane that is scaled -/

/-- The first one that is free. -/
def firstFree (free : ℕ → Bool) (l : List ℕ) : Except Int ℕ :=
  match l.find? free with
  | some n => .ok n
  | none => .error (-ENOSPC)

theorem firstFree_ok {free : ℕ → Bool} {l : List ℕ} {n : ℕ} (h : firstFree free l = .ok n) :
    n ∈ l ∧ free n = true := by
  unfold firstFree at h
  cases hfind : l.find? free with
  | none =>
    rw [hfind] at h
    cases h
  | some m =>
    rw [hfind] at h
    obtain rfl := Except.ok.inj h
    exact ⟨List.mem_of_find?_eq_some hfind, List.find?_some hfind⟩

theorem firstFree_error {free : ℕ → Bool} {l : List ℕ} {e : Int}
    (h : firstFree free l = .error e) : e < 0 := by
  unfold firstFree at h
  cases hfind : l.find? free with
  | none =>
    rw [hfind] at h
    obtain rfl := Except.error.inj h
    decide
  | some m =>
    rw [hfind] at h
    cases h

theorem firstFree_ne_error {free : ℕ → Bool} {l : List ℕ} {n : ℕ} {e : Int} (hn : n ∈ l)
    (hfree : free n = true) : firstFree free l ≠ .error e := by
  unfold firstFree
  cases hfind : l.find? free with
  | none => exact absurd hfree (List.find?_eq_none.1 hfind n hn)
  | some m => exact nofun

/-- Gives the first handle that is free, and the first place. -/
def firstFit (num total align : ℕ) : HandleAllocator num total align where
  idaAllocRange used := firstFree (· ∉ used) (List.range' 1 num)
  insertNode t size :=
    firstFree (t.HasRoomAt total align size ·) (List.range' 0 (total / align) align)
  idaAllocRange_ok h := by
    obtain ⟨hmem, hfree⟩ := firstFree_ok h
    obtain ⟨hle, hlt⟩ := List.mem_range'_1.1 hmem
    exact ⟨hle, by omega, of_decide_eq_true hfree⟩
  idaAllocRange_error := firstFree_error
  insertNode_ok h := of_decide_eq_true (firstFree_ok h).2
  insertNode_error := firstFree_error

/-- A check of a plane of the width that is scaled vertically. -/
def scaledCheck (width : UInt32) : PlaneCheck .gen6C where
  base :=
    { fb := some
        { format := ⟨fourccCode 'X' 'R' '2' '4', 1, 1, false, false⟩
          width, pitches := fun _ => 4 * width }
      crtc := true, srcW := width <<< 16, crtcW := width }
  modeSet :=
    { dlist := [0, 0, 0, 0], dlistCount := 4, ptr0Offset := fun _ => 2, lbmOffset := 3
      crtcW := width, crtcH := 128, srcW := fun _ => width <<< 16
      srcH := fun _ => (64 : UInt32) <<< 16, yScaling := fun _ => .ppf }
  lbmAlloc := firstFit ..
  upmAlloc := firstFit ..

theorem scaledCheck_setupOk (width : UInt32) : (scaledCheck width).SetupOk := by
  intro fb hfb _
  obtain rfl := Option.some.inj hfb
  refine ⟨rfl, fun _ => (by decide : 3 < 4), fun _ => ⟨fun i hi => ⟨⟨0, rfl, rfl, rfl⟩, ?_⟩, ?_⟩⟩
  · intro j hj hne
    have hi : i = 0 := List.mem_singleton.1 hi
    have hj : j = 0 := List.mem_singleton.1 hj
    exact absurd (hi.trans hj.symm) hne
  · exact fun _ _ => (by decide : 2 ≠ 3)

/-- The first plane of a framebuffer. -/
def PLANE0 : Fin 4 := ⟨0, Nat.zero_lt_succ 3⟩

/-- A state of it that has the first handles. -/
def scaledPlane (width : UInt32) (checked : Bool) : LivePlane where
  st := { (scaledCheck width).modeSet with
    base := (scaledCheck width).base
    lbmHandle := 1, upmHandle := Function.update (fun _ => 0) PLANE0 1, dlistInitialized := true }
  checked

/-- A copy of the state, with its list still to be set up. -/
def scaledCopy : LivePlane :=
  { scaledPlane 64 true with st := { (scaledPlane 64 true).st with dlistInitialized := false } }

/-- The plane gets another width. -/
def rescale : List (PlaneAct .gen6C) :=
  [.reset, .check {} (scaledCheck 64), .duplicate (scaledPlane 64 true) true true,
    .check scaledCopy (scaledCheck 32), .destroy (scaledPlane 64 true)]

theorem rescale_setupOk : ∀ a ∈ rescale, a.SetupOk := by
  unfold rescale
  simp only [List.forall_mem_cons]
  exact ⟨trivial, scaledCheck_setupOk 64, trivial, scaledCheck_setupOk 32, trivial,
    fun _ ha => absurd ha List.not_mem_nil⟩

/-- What a state and its list have, with the handle of the first plane. -/
structure ShownPlane where
  checked : Bool
  lbmHandle : ℕ
  upmHandle : ℕ
  dlist : List ℕ
deriving DecidableEq

/-- Whether a handle may dangle, and the states. -/
def PlaneStates.shown (s : PlaneStates) : Bool × Multiset ShownPlane :=
  (s.hvs.lbm.dangling || s.hvs.upm.dangling,
    s.states.map fun x => ⟨x.checked, x.st.lbmHandle, x.st.upmHandle PLANE0, x.st.dlist⟩)

theorem rescale_shown : (runSchedule (planeStep .gen6C) rescale {}).map PlaneStates.shown =
    some (false, {⟨true, 2, 2, [0, 0, 3 <<< 16 ||| 1 <<< 10, 6]⟩}) := by
  decide +kernel

/-! ### The main results -/

/-- The count of every handle is the number of plane states that have it, those whose copies could
not be finished included; a handle that is held has memory of its own inside of the LBM or the UPM,
and one that is not has none. -/
theorem plane_handles_exact (gen : Vc4Gen) (acts : List (PlaneAct gen)) :
    ∀ s, runSchedule (planeStep gen) acts {} = some s → PlanesExact gen s :=
  fun _ => planesExact_run

/-- The new width gets memory of its own. -/
theorem plane_handles_exact_rescale : ∃ s, runSchedule (planeStep .gen6C) rescale {} = some s ∧
    s.shown = (false, {⟨true, 2, 2, [0, 0, 3 <<< 16 ||| 1 <<< 10, 6]⟩}) ∧
      PlanesExact .gen6C s := by
  obtain ⟨s, hrun, hshown⟩ := Option.map_eq_some_iff.1 rescale_shown
  exact ⟨s, hrun, hshown, plane_handles_exact .gen6C rescale s hrun⟩

/-- There is no handle for the other width. -/
def outOfHandles : PlaneCheck .gen6C :=
  { scaledCheck 32 with
    lbmAlloc :=
      { firstFit VC4_NUM_LBM_HANDLES (lbmTotal .gen6C) 1 with
        idaAllocRange := fun _ => .error (-ENOSPC)
        idaAllocRange_ok := fun h => absurd h (by simp)
        idaAllocRange_error := fun h => Except.error.inj h ▸ (by decide) } }

-- the copy keeps the handle that it dropped, and frees the memory of the other state when it goes
example :
    let acts : List (PlaneAct .gen6C) := [.reset, .check {} (scaledCheck 64),
      .duplicate (scaledPlane 64 true) true true, .check scaledCopy outOfHandles,
      .destroy (scaledPlane 32 false)]
    (runSchedule (planeStep .gen6C) acts {}).map
      (fun s => ((s.hvs.lbm.refcounts 1).node, s.shown)) =
        some (none, true, {⟨true, 1, 1, [0, 0, 0, 0]⟩}) := by
  decide +kernel

/-- When the states are gone, every handle is free and so is the memory. -/
theorem plane_handles_free (gen : Vc4Gen) (acts : List (PlaneAct gen)) :
    ∀ s, runSchedule (planeStep gen) acts {} = some s → s.states = 0 → s.lost = 0 →
      (s.hvs.lbm.dangling = false →
        s.hvs.lbm.handles = ∅ ∧ ∀ h, (s.hvs.lbm.refcounts h).node = none) ∧
      (s.hvs.upm.dangling = false →
        s.hvs.upm.handles = ∅ ∧ ∀ h, (s.hvs.upm.refcounts h).node = none) := by
  intro s hrun hstates hlost
  have hexact := planesExact_run hrun
  have hlbm : s.lbmHolders = 0 := by rw [PlaneStates.lbmHolders, hstates, hlost]; rfl
  have hupm : s.upmHolders = 0 := by rw [PlaneStates.upmHolders, hstates, hlost]; rfl
  exact ⟨fun hd => (hlbm ▸ hexact.lbm hd).unused, fun hd => (hupm ▸ hexact.upm hd).unused⟩

/-- The width is copied, and both states go. -/
theorem plane_handles_free_copy :
    let acts : List (PlaneAct .gen6C) := [.reset, .check {} (scaledCheck 64),
      .duplicate (scaledPlane 64 true) true true, .destroy (scaledPlane 64 true),
      .destroy scaledCopy]
    ∃ s, runSchedule (planeStep .gen6C) acts {} = some s ∧ s.hvs.lbm.handles = ∅ := by
  intro acts
  have hshown : (runSchedule (planeStep .gen6C) acts {}).map
      (fun s => (s.states, s.lost, s.hvs.lbm.dangling)) = some (0, 0, false) := by
    decide +kernel
  obtain ⟨s, hrun, hs⟩ := Option.map_eq_some_iff.1 hshown
  obtain ⟨hstates, hrest⟩ := Prod.mk.inj hs
  obtain ⟨hlost, hd⟩ := Prod.mk.inj hrest
  exact ⟨s, hrun, ((plane_handles_free .gen6C acts s hrun hstates hlost).1 hd).1⟩

/-- A plane state that was accepted has memory of the sizes that it needs, and its list names it. -/
theorem plane_lists_name_memory (gen : Vc4Gen) (acts : List (PlaneAct gen))
    (hsetup : ∀ a ∈ acts, a.SetupOk) :
    ∀ s, runSchedule (planeStep gen) acts {} = some s → ListsOk gen s :=
  fun _ => listsOk_run hsetup

theorem plane_lists_name_memory_rescale :
    ∃ s, runSchedule (planeStep .gen6C) rescale {} = some s ∧
      s.shown = (false, {⟨true, 2, 2, [0, 0, 3 <<< 16 ||| 1 <<< 10, 6]⟩}) ∧
        ListsOk .gen6C s := by
  obtain ⟨s, hrun, hshown⟩ := Option.map_eq_some_iff.1 rescale_shown
  exact ⟨s, hrun, hshown, plane_lists_name_memory .gen6C rescale rescale_setupOk s hrun⟩

end KernelModules
