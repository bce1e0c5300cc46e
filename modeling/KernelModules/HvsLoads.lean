import KernelModules.HvsChannels
import Mathlib.Algebra.BigOperators.Group.List.Basic
import Mathlib.Tactic.Abel

/-!
# The loads of a commit

`vc4_core_clock_atomic_check` keeps the load of a channel that of the active CRTC that it belongs to
(`LoadsOk`), and `vc4_load_tracker_atomic_check` the load of the HVS the sum of those of the planes
(`loadTrackerLoop_eq`).
-/

set_option linter.unusedSectionVars false

namespace KernelModules

variable {ι π : Type} [DecidableEq ι]

/-! ## Channels -/

/-- A channel has the load of the active CRTC that it belongs to, or none. -/
def LoadsOk (crtc : ι → Vc4CrtcState) (fifoState : ℕ → FifoState) : Prop :=
  ∀ ch < HVS_NUM_CHANNELS,
    (∃ c, (crtc c).active = true ∧ (crtc c).assignedChannel = ch ∧
      (fifoState ch).fifoLoad = (crtc c).hvsLoad) ∨
    ((∀ c, (crtc c).active = true → (crtc c).assignedChannel ≠ ch) ∧ (fifoState ch).fifoLoad = 0)

/-- Active CRTCs do not share a channel. -/
def Apart (crtc : ι → Vc4CrtcState) : Prop :=
  ∀ c d, c ≠ d → (crtc c).active = true → (crtc d).active = true →
    (crtc c).assignedChannel ≠ (crtc d).assignedChannel

/-- The check goes through a CRTC whose channels are in range : its old channel loses its load, its
new one gets it. -/
theorem coreClockCrtc_eq {old new : Vc4CrtcState} (fifoState : ℕ → FifoState)
    (hold : old.active = true → old.assignedChannel < HVS_NUM_CHANNELS)
    (hnew : new.active = true → new.assignedChannel < HVS_NUM_CHANNELS) :
    ∃ fifoState', coreClockCrtc old new fifoState = .ok fifoState' ∧
      (∀ ch, (fifoState' ch).inUse = (fifoState ch).inUse) ∧
      ∀ ch, (fifoState' ch).fifoLoad =
        if new.active = true ∧ new.assignedChannel = ch then new.hvsLoad
        else if old.active = true ∧ old.assignedChannel = ch then 0 else (fifoState ch).fifoLoad := by
  have hset : ∀ (f : ℕ → FifoState) (i load : ℕ), i < HVS_NUM_CHANNELS →
      ∃ f', setFifoLoad f i load = .ok f' ∧ (∀ ch, (f' ch).inUse = (f ch).inUse) ∧
        ∀ ch, (f' ch).fifoLoad = if i = ch then load else (f ch).fifoLoad := by
    intro f i load hi
    refine ⟨_, if_pos hi, fun ch => ?_, fun ch => ?_⟩
    · by_cases hch : ch = i
      · subst hch
        rw [Function.update_self]
      · rw [Function.update_of_ne hch]
    · by_cases hch : ch = i
      · subst hch
        rw [Function.update_self, if_pos rfl]
      · rw [Function.update_of_ne hch, if_neg (Ne.symm hch)]
  unfold coreClockCrtc
  by_cases ho : old.active = true
  · obtain ⟨f, hf, huse, hload⟩ := hset fifoState old.assignedChannel 0 (hold ho)
    rw [if_pos ho, hf]
    by_cases hn : new.active = true
    · obtain ⟨f', hf', huse', hload'⟩ := hset f new.assignedChannel new.hvsLoad (hnew hn)
      refine ⟨f', (if_pos hn).trans hf', fun ch => (huse' ch).trans (huse ch), fun ch => ?_⟩
      simp only [hload', hload, hn, ho, true_and]
    · refine ⟨f, if_neg hn, huse, fun ch => ?_⟩
      simp only [hload, hn, ho, true_and, false_and, if_false, Bool.false_eq_true]
  · rw [if_neg ho]
    by_cases hn : new.active = true
    · obtain ⟨f', hf', huse', hload'⟩ := hset fifoState new.assignedChannel new.hvsLoad (hnew hn)
      refine ⟨f', (if_pos hn).trans hf', huse', fun ch => ?_⟩
      simp only [hload', hn, ho, true_and, false_and, if_false, Bool.false_eq_true]
    · refine ⟨fifoState, if_neg hn, fun _ => rfl, fun ch => ?_⟩
      simp only [hn, ho, false_and, if_false, Bool.false_eq_true]

/-- One CRTC changes from its old to its new state. -/
theorem LoadsOk.update {crtc : ι → Vc4CrtcState} {fifoState fifoState' : ℕ → FifoState} {c : ι}
    {new : Vc4CrtcState} (h : LoadsOk crtc fifoState) (hapart : Apart crtc)
    (hload : ∀ ch, (fifoState' ch).fifoLoad =
      if new.active = true ∧ new.assignedChannel = ch then new.hvsLoad
      else if (crtc c).active = true ∧ (crtc c).assignedChannel = ch then 0
      else (fifoState ch).fifoLoad) :
    LoadsOk (Function.update crtc c new) fifoState' := by
  intro ch hch
  rw [hload ch]
  split_ifs with hnew hold
  · exact Or.inl ⟨c, by rw [Function.update_self]; exact ⟨hnew.1, hnew.2, rfl⟩⟩
  · refine Or.inr ⟨fun d hd => ?_, rfl⟩
    by_cases hdc : d = c
    · subst hdc
      rw [Function.update_self] at hd ⊢
      exact fun heq => hnew ⟨hd, heq⟩
    · rw [Function.update_of_ne hdc] at hd ⊢
      exact hold.2 ▸ hapart d c hdc hd hold.1
  · refine (h ch hch).imp ?_ ?_
    · rintro ⟨d, hd, hdch, hdload⟩
      have hdc : d ≠ c := by
        rintro rfl
        exact hold ⟨hd, hdch⟩
      exact ⟨d, by rw [Function.update_of_ne hdc]; exact ⟨hd, hdch, hdload⟩⟩
    · rintro ⟨hnone, hzero⟩
      refine ⟨fun d hd => ?_, hzero⟩
      by_cases hdc : d = c
      · subst hdc
        rw [Function.update_self] at hd ⊢
        exact fun heq => hnew ⟨hd, heq⟩
      · rw [Function.update_of_ne hdc] at hd ⊢
        exact hnone d hd

section CoreClock

variable {old new : ι → Vc4CrtcState} (req : ι → Option CrtcRequest)
  (hold : ∀ c, (old c).active = true → (old c).assignedChannel < HVS_NUM_CHANNELS)
  (hnew : ∀ c, (new c).active = true → (new c).assignedChannel < HVS_NUM_CHANNELS)
  (hapart : ∀ crtc : ι → Vc4CrtcState, (∀ c, crtc c = old c ∨ crtc c = new c) → Apart crtc)

include hold hnew hapart

/-- The CRTCs of the list that are in the commit change to their new states, one after the other. -/
theorem coreClockLoop_eq : ∀ {l : List ι} {crtc : ι → Vc4CrtcState} {fifoState : ℕ → FifoState},
    l.Nodup → (∀ c, crtc c = old c ∨ crtc c = new c) → (∀ c ∈ l, crtc c = old c) →
    LoadsOk crtc fifoState →
    ∃ fifoState', coreClockLoop old new req l fifoState = .ok fifoState' ∧
      (∀ ch, (fifoState' ch).inUse = (fifoState ch).inUse) ∧
      LoadsOk (fun c => if c ∈ l ∧ (req c).isSome then new c else crtc c) fifoState'
  | [], crtc, fifoState, _, _, _, h => ⟨fifoState, rfl, fun _ => rfl, by simpa using h⟩
  | c :: l, crtc, fifoState, hnodup, hmix, hl, h => by
    obtain ⟨hc, hnodup⟩ := List.nodup_cons.1 hnodup
    unfold coreClockLoop
    split
    · next hnone =>
      obtain ⟨f, hf, huse, hok⟩ :=
        coreClockLoop_eq hnodup hmix (fun d hd => hl d (List.mem_cons_of_mem c hd)) h
      refine ⟨f, hf, huse, ?_⟩
      convert hok using 2 with d
      by_cases hdc : d = c
      · subst hdc
        simp [hnone]
      · simp [hdc]
    · next r hsome =>
      obtain ⟨f₁, hf₁, huse₁, hload₁⟩ := coreClockCrtc_eq fifoState (hold c) (hnew c)
      rw [← hl c List.mem_cons_self] at hload₁
      have hmix₁ : ∀ d, Function.update crtc c (new c) d = old d ∨
          Function.update crtc c (new c) d = new d := by
        intro d
        by_cases hdc : d = c
        · subst hdc
          rw [Function.update_self]
          exact Or.inr rfl
        · rw [Function.update_of_ne hdc]
          exact hmix d
      have hl₁ : ∀ d ∈ l, Function.update crtc c (new c) d = old d := by
        intro d hd
        rw [Function.update_of_ne (ne_of_mem_of_not_mem hd hc)]
        exact hl d (List.mem_cons_of_mem c hd)
      obtain ⟨f, hf, huse, hok⟩ :=
        coreClockLoop_eq hnodup hmix₁ hl₁ (h.update (hapart crtc hmix) hload₁)
      refine ⟨f, by rw [hf₁]; exact hf, fun ch => (huse ch).trans (huse₁ ch), ?_⟩
      convert hok using 2 with d
      by_cases hdc : d = c
      · subst hdc
        simp [hsome, hc]
      · simp [hdc]

end CoreClock

/-! ## Planes -/

/-- What a plane adds to the load of the HVS. -/
def Vc4PlaneState.hvsShare (data : ι → Vc4CrtcData) (p : Vc4PlaneState ι) : BitVec 64 :=
  if p.counts data then p.hvsLoad else 0

/-- What a plane adds to the load of the memory bus. -/
def Vc4PlaneState.membusShare (data : ι → Vc4CrtcData) (p : Vc4PlaneState ι) : BitVec 64 :=
  if p.counts data then p.membusLoad else 0

/-- The loads of all planes. -/
def planesLoad (data : ι → Vc4CrtcData) (plane : π → Vc4PlaneState ι) (planes : List π) :
    Vc4LoadTrackerState where
  hvsLoad := (planes.map fun p => (plane p).hvsShare data).sum
  membusLoad := (planes.map fun p => (plane p).membusShare data).sum

theorem loadTrackerPlane_eq (data : ι → Vc4CrtcData) (old new : Vc4PlaneState ι)
    (load : Vc4LoadTrackerState) : loadTrackerPlane data old new load =
      { hvsLoad := load.hvsLoad - old.hvsShare data + new.hvsShare data
        membusLoad := load.membusLoad - old.membusShare data + new.membusShare data } := by
  unfold loadTrackerPlane Vc4PlaneState.hvsShare Vc4PlaneState.membusShare
  split_ifs <;> simp

/-- `abel` does not know the zero of `BitVec`. -/
theorem replace_summand {G : Type*} [AddCommGroup G] (x a b s : G) :
    x + (a + s) - a + b = x + b + s := by
  abel

/-- The planes of the list change to their new states, one after the other. -/
theorem loadTrackerLoop_eq (data : ι → Vc4CrtcData) (old : π → Vc4PlaneState ι)
    (req : π → Option (Vc4PlaneState ι)) : ∀ (l : List π) (x y : BitVec 64),
    loadTrackerLoop data old req l
        { hvsLoad := x + (planesLoad data old l).hvsLoad
          membusLoad := y + (planesLoad data old l).membusLoad } =
      { hvsLoad := x + (planesLoad data (fun p => (req p).getD (old p)) l).hvsLoad
        membusLoad := y + (planesLoad data (fun p => (req p).getD (old p)) l).membusLoad }
  | [], x, y => rfl
  | p :: l, x, y => by
    have hrest := loadTrackerLoop_eq data old req l
      (x + ((req p).getD (old p)).hvsShare data) (y + ((req p).getD (old p)).membusShare data)
    simp only [planesLoad, List.map_cons, List.sum_cons] at hrest ⊢
    rw [loadTrackerLoop]
    refine (congrArg _ ?_).trans (hrest.trans ?_)
    · cases req p with
      | none => simp only [Option.getD_none, add_assoc]
      | some new =>
        dsimp only
        rw [loadTrackerPlane_eq, Option.getD_some]
        congr 1 <;> exact replace_summand _ _ _ _
    · simp only [add_assoc]

/-- The load stays that of all planes. -/
theorem loadTrackerLoop_planesLoad (data : ι → Vc4CrtcData) (old : π → Vc4PlaneState ι)
    (req : π → Option (Vc4PlaneState ι)) (l : List π) :
    loadTrackerLoop data old req l (planesLoad data old l) =
      planesLoad data (fun p => (req p).getD (old p)) l := by
  have h := loadTrackerLoop_eq data old req l 0 0
  simpa using h

/-! ## The clock -/

/-- What the clock is for, in terms of CRTCs and planes : every active CRTC, and the share of the
planes that the number of enabled CRTCs asks for. -/
def clockRate (dev : Vc4Dev ι π) (crtc : ι → Vc4CrtcState) (load : Vc4LoadTrackerState) : ℕ :=
  let enabled := dev.crtcs.countP fun c => (crtc c).enable
  let pixelRate := if 1 < enabled then load.hvsLoad * 40 / 100 else load.hvsLoad * 60 / 100
  max ((dev.crtcs.map fun c => if (crtc c).active then (crtc c).hvsLoad else 0).foldr max 0)
    pixelRate.toNat

theorem cobRate_foldl (fifoState : ℕ → FifoState) : ∀ (l : List ℕ) (n cob : ℕ),
    let res := l.foldl (fun (numOutputs, cobRate) i =>
      if (fifoState i).inUse = false then (numOutputs, cobRate)
      else (numOutputs + 1, max (fifoState i).fifoLoad cobRate)) (n, cob)
    res.1 = n + l.countP (fun i => (fifoState i).inUse) ∧
      ∀ x, res.2 ≤ x ↔ cob ≤ x ∧ ∀ i ∈ l, (fifoState i).inUse = true → (fifoState i).fifoLoad ≤ x
  | [], n, cob => by simp
  | i :: l, n, cob => by
    rw [List.foldl_cons]
    dsimp only
    split_ifs with hi
    · obtain ⟨hn, hcob⟩ := cobRate_foldl fifoState l n cob
      refine ⟨hn.trans (by simp [hi]), fun x => ?_⟩
      rw [hcob]
      simp [hi]
    · obtain ⟨hn, hcob⟩ := cobRate_foldl fifoState l (n + 1) (max (fifoState i).fifoLoad cob)
      rw [Bool.not_eq_false] at hi
      refine ⟨hn.trans (by rw [List.countP_cons, if_pos hi]; omega), fun x => ?_⟩
      rw [hcob, max_le_iff, List.forall_mem_cons]
      tauto

section Clock

variable {dev : Vc4Dev ι π} {crtc : ι → Vc4CrtcState} {fifoState : ℕ → FifoState}
  (h : ChannelsOk dev.crtc crtc fifoState)

include h

/-- As many channels are in use as CRTCs are enabled. -/
theorem numOutputs_eq : (cobRate fifoState).1 = dev.crtcs.countP fun c => (crtc c).enable := by
  have hfold := (cobRate_foldl fifoState (List.range HVS_NUM_CHANNELS) 0 0).1
  rw [zero_add] at hfold
  refine hfold.trans ?_
  have hchannels : ((List.range HVS_NUM_CHANNELS).filter fun i => (fifoState i).inUse).Perm
      ((dev.crtcs.filter fun c => (crtc c).enable).map fun c => (crtc c).assignedChannel) := by
    rw [List.perm_ext_iff_of_nodup (List.nodup_range.filter _)]
    · intro ch
      simp only [List.mem_filter, List.mem_range, List.mem_map]
      rw [h.inUse_iff]
      constructor
      · rintro ⟨-, c, hc, rfl⟩
        exact ⟨c, ⟨dev.mem_crtcs c, hc⟩, rfl⟩
      · rintro ⟨c, ⟨-, hc⟩, rfl⟩
        exact ⟨(h.allowed c hc).1, c, hc, rfl⟩
    · refine (dev.nodup.filter _).map_on fun c hc d hd heq => ?_
      by_contra hne
      exact h.apart hne (List.mem_filter.1 hc).2 (List.mem_filter.1 hd).2 heq
  rw [List.countP_eq_length_filter, List.countP_eq_length_filter, hchannels.length_eq,
    List.length_map]

/-- The highest load of a channel is that of a CRTC. -/
theorem cobRate_eq (hloads : LoadsOk crtc fifoState)
    (hactive : ∀ c, (crtc c).active = true → (crtc c).enable = true) :
    (cobRate fifoState).2 =
      (dev.crtcs.map fun c => if (crtc c).active then (crtc c).hvsLoad else 0).foldr max 0 := by
  have hcob := (cobRate_foldl fifoState (List.range HVS_NUM_CHANNELS) 0 0).2
  refine eq_of_forall_ge_iff fun x => (hcob x).trans ?_
  have hmax : ∀ l : List ℕ, l.foldr max 0 ≤ x ↔ ∀ y ∈ l, y ≤ x := by
    intro l
    induction l with
    | nil => simp
    | cons y l ih => simp [ih]
  rw [hmax]
  simp only [Nat.zero_le, true_and, List.mem_range, List.mem_map, forall_exists_index, and_imp,
    forall_apply_eq_imp_iff₂]
  constructor
  · intro hle c _
    split_ifs with hc
    · have hen := hactive c hc
      have hload := hle _ (h.allowed c hen).1 ((h.inUse_iff _).2 ⟨c, hen, rfl⟩)
      obtain ⟨d, hd, hch, heq⟩ | ⟨hnone, -⟩ := hloads _ (h.allowed c hen).1
      · obtain rfl : d = c := by
          by_contra hne
          exact h.apart hne (hactive d hd) hen hch
        exact heq ▸ hload
      · exact absurd rfl (hnone c hc)
    · exact Nat.zero_le x
  · intro hle ch hch _
    obtain ⟨c, hc, -, heq⟩ | ⟨-, hzero⟩ := hloads ch hch
    · have hload := hle c (dev.mem_crtcs c)
      rw [if_pos hc] at hload
      exact heq.trans_le hload
    · exact hzero.trans_le (Nat.zero_le x)

end Clock

end KernelModules
