import KernelModules.DlistsIntact

/-!
# What a sweep gives back

The counts of the frames have six bits, and are compared as sequence numbers. As long as no channel
goes on for too long with an entry on the list of stale ones, and none is enabled with a count far
from the marks of its entries, a sweep gives back the memory of every stale entry but those that a
channel may still be reading (`hvs_dlists_swept`).
-/

set_option linter.unusedSectionVars false

namespace KernelModules

open Interleaving Regions

/-- An entry is swept before its channel is 33 frames further. -/
def FrameInTime : DlistAct → HvsDlists → Prop
  | .frame c, s => ∀ d ∈ s.nodes, d.Marked → d.channel = c → s.frames c < d.markedAt + 33
  | .enable start count, s => ∀ mm ∈ s.node start, ∀ d ∈ s.nodes, d.Marked →
      d.channel = mm.channel → d.markedAt ≤ count ∧ count ≤ d.markedAt + 33
  | _, _ => True

instance (d : DlistAlloc) : Decidable d.Marked :=
  inferInstanceAs (Decidable (_ ∨ _))

instance (a : DlistAct) (s : HvsDlists) : Decidable (FrameInTime a s) :=
  match a with
  | .frame c => inferInstanceAs (Decidable (∀ d ∈ s.nodes, d.Marked → d.channel = c → _ < _))
  | .enable start _ => inferInstanceAs (Decidable (∀ mm ∈ s.node start, ∀ d ∈ s.nodes, d.Marked →
      d.channel = mm.channel → _ ≤ _ ∧ _ ≤ _))
  | .upload .. | .check .. | .flush .. | .asyncSetFb .. | .stop _ | .destroy _ | .addStale _
  | .eof _ | .freeWork => isTrue trivial

/-- Every entry was marked at most 33 frames ago. -/
def Timely (s : HvsDlists) : Prop :=
  ∀ d ∈ s.nodes, d.Marked →
    d.markedAt ≤ s.frames d.channel ∧ s.frames d.channel ≤ d.markedAt + 33

section Timely

variable {lo hi : ℕ} {s s' : HvsDlists} {mm : DlistAlloc}

/-- Entries that are not new marks stay timely while the counts stay. -/
theorem Timely.of_subset (h : Timely s) (hframes : s'.frames = s.frames)
    (hnodes : ∀ d ∈ s'.nodes, d.Marked → d ∈ s.nodes) : Timely s' := by
  intro d hd hm
  rw [hframes]
  exact h d (hnodes d hd hm) hm

/-- One entry is changed. -/
theorem Timely.modify (h : Timely s) (hinv : DlistsInv lo hi s) (hmm : mm ∈ s.nodes)
    {f : DlistAlloc → DlistAlloc} (hframes : s'.frames = s.frames)
    (hnodes : s'.nodes = (s.modify mm.start f).nodes)
    (hf : (f mm).Marked → (f mm).markedAt ≤ s.frames (f mm).channel ∧
      s.frames (f mm).channel ≤ (f mm).markedAt + 33) : Timely s' := by
  intro d hd hm
  rw [hnodes, hinv.mem_modify hmm] at hd
  rw [hframes]
  rcases hd with rfl | ⟨hd, -⟩
  · exact hf hm
  · exact h d hd hm

/-- The count of one channel changes. -/
theorem Timely.count (h : Timely s) {c n : ℕ} (hframes : s'.frames = Function.update s.frames c n)
    (hnodes : s'.nodes = s.nodes)
    (hn : ∀ d ∈ s.nodes, d.Marked → d.channel = c → d.markedAt ≤ n ∧ n ≤ d.markedAt + 33) :
    Timely s' := by
  intro d hd hm
  rw [hnodes] at hd
  rw [hframes]
  by_cases hc : d.channel = c
  · rw [hc, Function.update_self]
    exact hn d hd hm hc
  · rw [Function.update_of_ne hc]
    exact h d hd hm

theorem not_marked {d : DlistAlloc} (h : d.owner = .crtcState) : ¬ d.Marked := by
  rintro (hm | hm) <;> rw [h] at hm <;> cases hm

theorem Timely.install (h : Timely s) (hinv : DlistsInv lo hi s) (hmm : mm ∈ s.nodes)
    (hcrtc : mm.owner = .crtcState) : Timely (vc4HvsInstallDlist mm s) :=
  h.modify (f := fun d => { d with dlistProgrammed := true }) hinv hmm rfl rfl
    fun hm => absurd hm (not_marked hcrtc)

theorem Timely.flush (h : Timely s) (hinv : DlistsInv lo hi s) (hmm : mm ∈ s.nodes)
    (hcrtc : mm.owner = .crtcState) (running : Bool) :
    Timely (vc4HvsAtomicFlush mm running s) := by
  have hwrite : Timely { s.modify mm.start fun d => { d with words := flushWords mm.planes } with
      dlist := store (flushWords mm.planes) s.dlist mm.start } :=
    h.modify (f := fun d => { d with words := flushWords mm.planes }) hinv hmm rfl rfl
      fun hm => absurd hm (not_marked hcrtc)
  have hinv' := hinv.flush hmm hcrtc false
  have hmm' : { mm with words := flushWords mm.planes } ∈
      (s.modify mm.start fun d => { d with words := flushWords mm.planes }).nodes :=
    (hinv.mem_modify hmm).2 (Or.inl rfl)
  unfold vc4HvsAtomicFlush
  dsimp only
  split_ifs
  · have hinst := hwrite.install hinv' hmm' hcrtc
    exact hinst
  · exact hwrite

theorem Timely.check (h : Timely s) (channel : ℕ) (planes : List PlaneDlist)
    (first second : Option ℕ) : Timely (vc4HvsAtomicCheck channel planes first second s) := by
  have hnew : ∀ {l : List DlistAlloc} {serial x size : ℕ} {d : DlistAlloc},
      (∀ d ∈ l, d ∈ s.nodes) → d ∈ l ++ [{ serial, start := x, size, channel, planes }] →
        d.Marked → d ∈ s.nodes := by
    intro l serial x size d hl hd hm
    rcases List.mem_append.1 hd with hd | hd
    · exact hl d hd
    · obtain rfl := List.mem_singleton.1 hd
      exact absurd hm (not_marked rfl)
  have hfilter : ∀ {p : DlistAlloc → Bool}, ∀ d ∈ s.nodes.filter p, d ∈ s.nodes :=
    fun d hd => (List.mem_filter.1 hd).1
  unfold vc4HvsAtomicCheck vc4HvsAllocDlistEntry
  split_ifs
  · exact h
  cases first with
  | some x => exact h.of_subset rfl fun d hd => hnew (fun _ hd => hd) hd
  | none =>
    cases second with
    | some x => exact h.of_subset rfl fun d hd => hnew hfilter hd
    | none => exact h.of_subset rfl fun d hd _ => hfilter d hd

theorem Timely.destroy (h : Timely s) (hinv : DlistsInv lo hi s) (hmm : mm ∈ s.nodes) :
    Timely (vc4HvsMarkDlistEntryStale mm s) := by
  unfold vc4HvsMarkDlistEntryStale
  split_ifs
  · exact h.of_subset rfl fun d hd _ => (List.mem_filter.1 hd).1
  · exact h.modify hinv hmm rfl rfl fun _ => ⟨le_rfl, Nat.le_add_right _ _⟩

theorem Timely.step (h : Timely s) (hinv : DlistsInv lo hi s) {a : DlistAct}
    (hclient : DlistClient lo hi a s) (htime : FrameInTime a s) (hstep : dlistStep a s = some s') :
    Timely s' := by
  cases a with
  | upload kernel start =>
    obtain rfl := Option.some.inj hstep
    unfold vc4HvsUploadLinearKernel
    cases start with
    | none => exact h
    | some x =>
      refine h.of_subset rfl fun d hd hm => ?_
      rcases List.mem_append.1 hd with hd | hd
      · exact hd
      · obtain rfl := List.mem_singleton.1 hd
        rcases hm with hm | hm <;> cases hm
  | check channel planes first second =>
    obtain rfl := Option.some.inj hstep
    exact h.check channel planes first second
  | flush start running =>
    obtain ⟨mm, hnode, rfl⟩ := Option.map_eq_some_iff.1 hstep
    exact h.flush hinv (HvsDlists.mem_of_node hnode).1 (hclient mm hnode) running
  | asyncSetFb start offset value =>
    obtain ⟨mm, hnode, rfl⟩ := Option.map_eq_some_iff.1 hstep
    exact h.modify (f := fun d => { d with words := mm.words.set offset value }) hinv
      (HvsDlists.mem_of_node hnode).1 rfl rfl fun hm => absurd hm (not_marked (hclient mm hnode).1)
  | enable start count =>
    obtain ⟨mm, hnode, rfl⟩ := Option.map_eq_some_iff.1 hstep
    have hmm := (HvsDlists.mem_of_node hnode).1
    have hcrtc := (hclient mm hnode).1
    refine (h.install hinv hmm hcrtc).count rfl rfl fun d hd hm hc => ?_
    rcases (hinv.mem_modify hmm).1 hd with rfl | ⟨hd, -⟩
    · exact absurd hm (not_marked hcrtc)
    · exact htime mm hnode d hd hm hc
  | stop channel =>
    obtain rfl := Option.some.inj hstep
    exact h
  | frame channel =>
    obtain ⟨-, rfl⟩ := Option.ite_some_none_eq_some.1 hstep
    refine h.count rfl rfl fun d hd hm hc => ?_
    have hlt := htime d hd hm hc
    have hle := (h d hd hm).1
    rw [hc] at hle
    omega
  | destroy start =>
    obtain ⟨mm, hnode, rfl⟩ := Option.map_eq_some_iff.1 hstep
    exact h.destroy hinv (HvsDlists.mem_of_node hnode).1
  | addStale start =>
    obtain ⟨mm, hnode, rfl⟩ := Option.map_eq_some_iff.1 hstep
    have hmm := (HvsDlists.mem_of_node hnode).1
    exact h.modify (f := fun d => { d with owner := .stale }) hinv hmm rfl rfl
      fun _ => h mm hmm (Or.inl (hclient mm hnode))
  | eof channel =>
    obtain rfl := Option.some.inj hstep
    unfold vc4HvsScheduleDlistSweep
    split_ifs <;> exact h
  | freeWork =>
    obtain ⟨-, rfl⟩ := Option.ite_some_none_eq_some.1 hstep
    exact h.of_subset rfl fun d hd _ => (List.mem_filter.1 hd).1

/-- A sweep leaves the entries of this frame. -/
theorem Timely.mem_freeWork (h : Timely s) (hinv : DlistsInv lo hi s) {d : DlistAlloc} :
    d ∈ (vc4HvsDlistFreeWork s).nodes ↔ d ∈ s.nodes ∧
      (d.owner = .stale → s.enabled d.channel = true ∧ d.markedAt = s.frames d.channel) := by
  unfold vc4HvsDlistFreeWork
  dsimp only
  rw [List.mem_filter]
  refine and_congr_right fun hd => ?_
  rw [decide_eq_true_iff, ← imp_iff_not_or]
  refine imp_congr_right fun hs => and_congr_right fun _ => ?_
  obtain ⟨hle, hle'⟩ := h d hd (Or.inr hs)
  rw [(hinv.ok d hd).target (Or.inr hs), vc4HvsGetFifoFrameCount, Bool.eq_false_iff, ne_eq,
    vc4HvsFrcntLte_iff hle hle']
  omega

end Timely

/-- In every run in which no channel goes on for more than 33 frames with an entry on the list, a
sweep gives back every stale entry but those of the frame that a channel is in. -/
theorem hvs_dlists_swept (lo hi : ℕ) (acts : List DlistAct)
    (hclient : Along dlistStep (fun a s => DlistClient lo hi a s ∧ FrameInTime a s) acts {}) :
    ∀ s s', runSchedule dlistStep acts {} = some s → dlistStep .freeWork s = some s' →
      ∀ d, d ∈ s'.nodes ↔ d ∈ s.nodes ∧
        (d.owner = .stale → s.enabled d.channel = true ∧ d.markedAt = s.frames d.channel) := by
  intro s s' hrun hsweep d
  have hstep : ∀ {a : DlistAct} {s s' : HvsDlists}, dlistStep a s = some s' →
      DlistClient lo hi a s ∧ FrameInTime a s → DlistsInv lo hi s ∧ Timely s →
        DlistsInv lo hi s' ∧ Timely s' :=
    fun h hP hs => ⟨hs.1.step hP.1 h, hs.2.step hs.1 hP.1 hP.2 h⟩
  obtain ⟨hinv, htimely⟩ := runSchedule_preserves_along hstep hrun hclient
    ⟨DlistsInv.init, fun _ hd => absurd hd List.not_mem_nil⟩
  obtain ⟨-, rfl⟩ := Option.ite_some_none_eq_some.1 hsweep
  exact htimely.mem_freeWork hinv

/-- The entry at 19 is stale and its frame is over; that at 22 is of this frame. -/
theorem hvs_dlists_swept_replace :
    let acts := replace.take 10 ++ [.frame 1, .check 1 [⟨0, [6]⟩] (some 26) none, .flush 26 true,
      .destroy 22, .addStale 22]
    ∃ s s', runSchedule dlistStep acts {} = some s ∧ dlistStep .freeWork s = some s' ∧
      s'.nodes.map DlistAlloc.start = [8, 22, 26] ∧
      ∀ d, d ∈ s'.nodes ↔ d ∈ s.nodes ∧
        (d.owner = .stale → s.enabled d.channel = true ∧ d.markedAt = s.frames d.channel) :=
  ⟨_, _, rfl, rfl, by decide,
    hvs_dlists_swept 8 64 (replace.take 10 ++ [.frame 1, .check 1 [⟨0, [6]⟩] (some 26) none,
      .flush 26 true, .destroy 22, .addStale 22]) (by decide) _ _ rfl rfl⟩

end KernelModules
