import KernelModules.Dlists
import Mathlib.Data.List.Pairwise

/-!
# The lists that are shown are intact

The list that a channel reads is in memory as it was written for it, at every moment of every
schedule : its memory is not given to another list before the frame ends (`hvs_dlists_intact`). That
is so as long as no check finds that there is no room while a channel still reads a stale entry, as
it would free that entry too.
-/

set_option linter.unusedSectionVars false

namespace KernelModules

open Interleaving Regions

/-! ## The frame counts -/

/-- Within 33 frames, the comparison of the counts tells if the frame of the mark is over. -/
theorem vc4HvsFrcntLte_iff {m f : ℕ} (hmf : m ≤ f) (hfm : f ≤ m + 33) :
    vc4HvsFrcntLte ((m % 2 ^ 6 + 1) % 2 ^ 6) (f % 2 ^ 6) = true ↔ m < f := by
  unfold vc4HvsFrcntLte s8
  rw [decide_eq_true_iff, Int.bmod_def]
  split_ifs <;> omega

/-! ## What a list is made of -/

section Flush

variable {planes : List PlaneDlist}

/-- The weight of the planes from a `zpos` on. -/
def weightFrom (w : PlaneDlist → ℕ) (planes : List PlaneDlist) (zpos : ℕ) : ℕ :=
  ((planes.filter fun p => zpos ≤ p.normalizedZpos).map w).sum

theorem weightFrom_eq (w : PlaneDlist → ℕ) (planes : List PlaneDlist) (zpos : ℕ) :
    weightFrom w planes zpos =
      ((planes.filter fun p => p.normalizedZpos = zpos).map w).sum +
        weightFrom w planes (zpos + 1) := by
  unfold weightFrom
  induction planes with
  | nil => rfl
  | cons p planes ih =>
    rcases lt_trichotomy p.normalizedZpos zpos with hlt | rfl | hgt
    · rw [List.filter_cons_of_neg (by simpa using hlt), List.filter_cons_of_neg (by simpa using hlt.ne),
        List.filter_cons_of_neg (by simp; omega), ih]
    · rw [List.filter_cons_of_pos (by simp), List.filter_cons_of_pos (by simp),
        List.filter_cons_of_neg (by simp), List.map_cons, List.map_cons, List.sum_cons,
        List.sum_cons, ih, add_assoc]
    · rw [List.filter_cons_of_pos (by simpa using hgt.le), List.filter_cons_of_neg (by simpa using hgt.ne'),
        List.filter_cons_of_pos (by simpa using Nat.succ_le_of_lt hgt), List.map_cons, List.map_cons, List.sum_cons,
        List.sum_cons, ih, add_left_comm]

/-- The loop comes to all planes from a `zpos` on, if there is none that is left out before. -/
theorem length_flushFrom (hplanes : Normalized planes) :
    ∀ {n zpos : ℕ}, weightFrom (fun _ => 1) planes zpos < n →
      (flushFrom planes n zpos).length = weightFrom (fun p => p.dlist.length) planes zpos
  | n + 1, zpos, h => by
    unfold flushFrom
    dsimp only
    split_ifs with hempty
    · rw [List.isEmpty_iff, List.filter_eq_nil_iff] at hempty
      -- A plane after the gap would need one in it.
      have hnone : (planes.filter fun p => zpos ≤ p.normalizedZpos) = [] := by
        refine List.filter_eq_nil_iff.2 fun p hp hle => ?_
        rcases (of_decide_eq_true hle).lt_or_eq with hlt | heq
        · obtain ⟨q, hq, hz⟩ := hplanes p hp zpos hlt
          exact hempty q hq (decide_eq_true hz)
        · exact hempty p hp (decide_eq_true heq.symm)
      rw [weightFrom, hnone]
      rfl
    · have hfewer := weightFrom_eq (fun _ => 1) planes zpos
      have hfound : 0 < (planes.filter fun p => p.normalizedZpos = zpos).length :=
        List.length_pos_iff.2 fun hnil => hempty (by rw [hnil]; rfl)
      rw [List.map_const', List.sum_replicate_nat, mul_one] at hfewer
      rw [List.length_append, List.length_flatMap, length_flushFrom hplanes (by omega),
        weightFrom_eq _ planes zpos]

/-- As many dwords are written as `vc4_hvs_atomic_check` counted. -/
theorem length_flushWords (hplanes : Normalized planes) :
    (flushWords planes).length = dlistCount planes := by
  have hall : (planes.filter fun p => 0 ≤ p.normalizedZpos) = planes := by simp
  have hfuel : weightFrom (fun _ => 1) planes 0 < planes.length + 1 := by
    rw [weightFrom, hall]
    simp
  rw [flushWords, List.length_append, length_flushFrom hplanes hfuel, weightFrom, hall]
  rfl

end Flush

theorem length_kernelWords (kernel : ℕ → ℕ) : (kernelWords kernel).length = VC4_KERNEL_DWORDS := by
  simp [kernelWords]

/-! ## The invariant -/

/-- Two entries are of different allocations and share no dword. -/
def DlistAlloc.ApartFrom (d d' : DlistAlloc) : Prop :=
  d.serial ≠ d'.serial ∧ Apart d.start d.size d'.start d'.size

instance : Std.Symm DlistAlloc.ApartFrom where
  symm _ _ h := ⟨h.1.symm, h.2.symm⟩

/-- The CRTC state was programmed and is destroyed, or being so. -/
def DlistAlloc.Marked (d : DlistAlloc) : Prop :=
  d.owner = .destroying ∨ d.owner = .stale

/-- What holds of each entry between the steps. -/
structure DlistOk (lo hi : ℕ) (s : HvsDlists) (d : DlistAlloc) : Prop where
  serial_lt : d.serial < s.allocs
  lo_le : lo ≤ d.start
  le_hi : d.start + d.size ≤ hi
  pos : 0 < d.size
  length_le : d.words.length ≤ d.size
  holds : Holds s.dlist d.start d.words
  flushed : d.dlistProgrammed = true → d.words.length = d.size
  owned : d.dlistProgrammed = true → d.owner ≠ .kernel
  count : d.owner = .crtcState → d.size = dlistCount d.planes ∧ Normalized d.planes
  target : d.Marked → d.targetFrameCount = (d.markedAt % 2 ^ 6 + 1) % 2 ^ 6
  irq : d.owner = .stale → s.eofIrq d.channel = true

/-- The entry is the one that a channel takes for its next frame. -/
def HvsDlists.Next (s : HvsDlists) (c : ℕ) (d : DlistAlloc) : Prop :=
  d.start = s.displist c ∧ d.serial = s.installed c ∧ d.channel = c ∧ d.owner = .crtcState ∧
    d.dlistProgrammed = true

/-- The entry is the one that a channel reads. If it is marked, it is so since this frame. -/
def HvsDlists.Shown (s : HvsDlists) (c : ℕ) (d : DlistAlloc) : Prop :=
  s.displact c = some d.start ∧ d.serial = s.shown c ∧ d.channel = c ∧ d.dlistProgrammed = true ∧
    (d.Marked → d.markedAt = s.frames c)

/-- What holds between the steps. -/
structure DlistsInv (lo hi : ℕ) (s : HvsDlists) : Prop where
  apart : s.nodes.Pairwise DlistAlloc.ApartFrom
  ok : ∀ d ∈ s.nodes, DlistOk lo hi s d
  next : ∀ c, s.enabled c = true → ∃ d ∈ s.nodes, s.Next c d
  shown : ∀ c, s.enabled c = true → s.displact c = none ∨ ∃ d ∈ s.nodes, s.Shown c d

theorem HvsDlists.mem_of_node {s : HvsDlists} {start : ℕ} {d : DlistAlloc}
    (h : s.node start = some d) : d ∈ s.nodes ∧ d.start = start := by
  have hstart := List.find?_some h
  exact ⟨List.mem_of_find?_eq_some h, of_decide_eq_true hstart⟩

section Inv

variable {lo hi : ℕ} {s s' : HvsDlists} {mm : DlistAlloc} {f : DlistAlloc → DlistAlloc}

theorem displist_install (mm : DlistAlloc) (s : HvsDlists) :
    (vc4HvsInstallDlist mm s).displist mm.channel = mm.start :=
  Function.update_self ..

theorem installed_install (mm : DlistAlloc) (s : HvsDlists) :
    (vc4HvsInstallDlist mm s).installed mm.channel = mm.serial :=
  Function.update_self ..

theorem displist_install_of_ne {c : ℕ} (hc : c ≠ mm.channel) (s : HvsDlists) :
    (vc4HvsInstallDlist mm s).displist c = s.displist c ∧
      (vc4HvsInstallDlist mm s).installed c = s.installed c :=
  ⟨Function.update_of_ne hc .., Function.update_of_ne hc ..⟩

theorem DlistsInv.init : DlistsInv lo hi {} where
  apart := List.Pairwise.nil
  ok := fun _ hd => absurd hd List.not_mem_nil
  next := fun _ hc => absurd hc Bool.false_ne_true
  shown := fun _ hc => absurd hc Bool.false_ne_true

namespace DlistsInv

variable (h : DlistsInv lo hi s)

include h

theorem apart_of_ne {d d' : DlistAlloc} (hd : d ∈ s.nodes) (hd' : d' ∈ s.nodes) (hne : d ≠ d') :
    d.ApartFrom d' :=
  h.apart.forall hd hd' hne

theorem eq_of_start {d d' : DlistAlloc} (hd : d ∈ s.nodes) (hd' : d' ∈ s.nodes)
    (hstart : d.start = d'.start) : d = d' := by
  by_contra hne
  have hapart := (h.apart_of_ne hd hd' hne).2
  have hpos := (h.ok d hd).pos
  have hpos' := (h.ok d' hd').pos
  unfold Apart at hapart
  omega

theorem mem_modify (hmm : mm ∈ s.nodes) {d : DlistAlloc} :
    d ∈ (s.modify mm.start f).nodes ↔ d = f mm ∨ (d ∈ s.nodes ∧ d ≠ mm) := by
  unfold HvsDlists.modify
  rw [List.mem_map]
  constructor
  · rintro ⟨d, hd, rfl⟩
    split_ifs with hstart
    · exact Or.inl (congrArg f (h.eq_of_start hd hmm hstart))
    · exact Or.inr ⟨hd, fun heq => hstart (congrArg DlistAlloc.start heq)⟩
  · rintro (rfl | ⟨hd, hne⟩)
    · exact ⟨mm, hmm, if_pos rfl⟩
    · exact ⟨d, hd, if_neg fun hstart => hne (h.eq_of_start hd hmm hstart)⟩

/-- An entry is changed, its node stays where it is. -/
theorem modify (hmm : mm ∈ s.nodes) (hstart : (f mm).start = mm.start)
    (hsize : (f mm).size = mm.size) (hserial : (f mm).serial = mm.serial)
    (hnodes : s'.nodes = (s.modify mm.start f).nodes)
    (hok : ∀ d ∈ s.nodes, d ≠ mm → DlistOk lo hi s' d) (hok' : DlistOk lo hi s' (f mm))
    (hnext : ∀ c, s'.enabled c = true → s'.Next c (f mm) ∨ ∃ d ∈ s.nodes, d ≠ mm ∧ s'.Next c d)
    (hshown : ∀ c, s'.enabled c = true → s'.displact c = none ∨ s'.Shown c (f mm) ∨
      ∃ d ∈ s.nodes, d ≠ mm ∧ s'.Shown c d) : DlistsInv lo hi s' := by
  have hmem : ∀ {d}, d ∈ s'.nodes ↔ d = f mm ∨ (d ∈ s.nodes ∧ d ≠ mm) := fun {d} => by
    rw [hnodes, h.mem_modify hmm]
  constructor
  · rw [hnodes]
    unfold HvsDlists.modify
    refine List.pairwise_map.2 (h.apart.imp_of_mem fun {d d'} hd hd' hapart => ?_)
    have hsame : ∀ d ∈ s.nodes, ∀ x, x = (if d.start = mm.start then f d else d) →
        x.serial = d.serial ∧ x.start = d.start ∧ x.size = d.size := by
      rintro d hd x rfl
      split_ifs with heq
      · obtain rfl := h.eq_of_start hd hmm heq
        exact ⟨hserial, hstart, hsize⟩
      · exact ⟨rfl, rfl, rfl⟩
    obtain ⟨hserial, hstart, hsize⟩ := hsame d hd _ rfl
    obtain ⟨hserial', hstart', hsize'⟩ := hsame d' hd' _ rfl
    rw [DlistAlloc.ApartFrom, hserial, hstart, hsize, hserial', hstart', hsize']
    exact hapart
  · intro d hd
    rcases hmem.1 hd with rfl | ⟨hd, hne⟩
    · exact hok'
    · exact hok d hd hne
  · intro c hc
    rcases hnext c hc with hf | ⟨d, hd, hne, hnext⟩
    · exact ⟨f mm, hmem.2 (Or.inl rfl), hf⟩
    · exact ⟨d, hmem.2 (Or.inr ⟨hd, hne⟩), hnext⟩
  · intro c hc
    rcases hshown c hc with hnone | hf | ⟨d, hd, hne, hshown⟩
    · exact Or.inl hnone
    · exact Or.inr ⟨f mm, hmem.2 (Or.inl rfl), hf⟩
    · exact Or.inr ⟨d, hmem.2 (Or.inr ⟨hd, hne⟩), hshown⟩

/-- A new entry is put where no other one is, and may be written at once. -/
theorem add {d : DlistAlloc} (words : List ℕ) (hfree : NodeFree lo hi d.start d.size s.nodes)
    (hserial : d.serial = s.allocs) (hwords : words.length ≤ d.size)
    (hs' : s' = { s with
      nodes := s.nodes ++ [d], allocs := s.allocs + 1, dlist := store words s.dlist d.start })
    (hok : DlistOk lo hi s' d) : DlistsInv lo hi s' := by
  obtain ⟨-, -, hapart⟩ := hfree
  subst hs'
  constructor
  · refine List.pairwise_append.2 ⟨h.apart, List.pairwise_singleton _ _, fun d' hd' e he => ?_⟩
    obtain rfl := List.mem_singleton.1 he
    exact ⟨hserial ▸ (h.ok d' hd').serial_lt.ne, hapart d' hd'⟩
  · intro d' hd'
    rcases List.mem_append.1 hd' with hd' | hd'
    · have hold := h.ok d' hd'
      exact { hold with
        serial_lt := Nat.lt_succ_of_lt hold.serial_lt
        holds := hold.holds.store ((hapart d' hd').mono hold.length_le hwords) }
    · obtain rfl := List.mem_singleton.1 hd'
      exact hok
  · intro c hc
    obtain ⟨d', hd', hnext⟩ := h.next c hc
    exact ⟨d', List.mem_append_left _ hd', hnext⟩
  · intro c hc
    refine (h.shown c hc).imp_right ?_
    rintro ⟨d', hd', hshown⟩
    exact ⟨d', List.mem_append_left _ hd', hshown⟩

/-- Entries are given back that no channel that is on reads or takes next. -/
theorem remove {p : DlistAlloc → Bool} {b : Bool}
    (hp : ∀ d ∈ s.nodes, d.dlistProgrammed = true → p d = false → d.owner ≠ .crtcState ∧
      (s.enabled d.channel = true → ¬ s.Shown d.channel d)) :
    DlistsInv lo hi { s with workQueued := b, nodes := s.nodes.filter p } := by
  constructor
  · exact h.apart.filter p
  · intro d hd
    exact { h.ok d (List.mem_filter.1 hd).1 with }
  · intro c hc
    obtain ⟨d, hd, hnext⟩ := h.next c hc
    refine ⟨d, List.mem_filter.2 ⟨hd, ?_⟩, hnext⟩
    obtain ⟨-, -, -, hcrtc, hprog⟩ := hnext
    by_contra hpd
    exact (hp d hd hprog (Bool.not_eq_true _ ▸ hpd)).1 hcrtc
  · intro c hc
    refine (h.shown c hc).imp_right ?_
    rintro ⟨d, hd, hshown⟩
    refine ⟨d, List.mem_filter.2 ⟨hd, ?_⟩, hshown⟩
    obtain ⟨-, -, rfl, hprog, -⟩ := id hshown
    by_contra hpd
    exact (hp d hd hprog (Bool.not_eq_true _ ▸ hpd)).2 hc hshown

theorem upload {kernel : ℕ → ℕ} {start : Option ℕ}
    (hfree : ∀ x ∈ start, NodeFree lo hi x VC4_KERNEL_DWORDS s.nodes) :
    DlistsInv lo hi (vc4HvsUploadLinearKernel kernel start s) := by
  unfold vc4HvsUploadLinearKernel
  cases start with
  | none => exact h
  | some x =>
    have hx := hfree x rfl
    have hlength := length_kernelWords kernel
    exact h.add (kernelWords kernel) hx rfl hlength.le rfl
      { serial_lt := Nat.lt_succ_self _
        lo_le := hx.1, le_hi := hx.2.1, pos := Nat.succ_pos 10, length_le := hlength.le
        holds := holds_store _ _ _
        flushed := fun hp => by cases hp
        owned := fun hp => by cases hp
        count := fun hcrtc => by cases hcrtc
        target := fun hm => by rcases hm with hm | hm <;> cases hm
        irq := fun hs => by cases hs }

theorem addEntry {channel x : ℕ} {planes : List PlaneDlist} (hplanes : Normalized planes)
    (hfree : NodeFree lo hi x (dlistCount planes) s.nodes) :
    DlistsInv lo hi (s.addEntry x (dlistCount planes) channel planes) :=
  h.add [] hfree rfl (Nat.zero_le _) rfl
    { serial_lt := Nat.lt_succ_self _
      lo_le := hfree.1, le_hi := hfree.2.1, pos := Nat.succ_pos _, length_le := Nat.zero_le _
      holds := holds_nil _ _
      flushed := fun hp => by cases hp
      owned := fun hp => by cases hp
      count := fun _ => ⟨rfl, hplanes⟩
      target := fun hm => by rcases hm with hm | hm <;> cases hm
      irq := fun hs => by cases hs }

/-- All stale entries are given back, while no channel that is on reads one. -/
theorem freeStale (hunread : StaleUnread s) :
    DlistsInv lo hi { s with nodes := s.nodes.filter fun cur => cur.owner ≠ .stale } := by
  refine h.remove (b := s.workQueued) fun d hd _ hgone => ?_
  have hstale : d.owner = .stale := by simpa using hgone
  exact ⟨by simp [hstale], fun hc hshown => hunread d hd hstale hc hshown.1⟩

theorem check {channel : ℕ} {planes : List PlaneDlist} {first second : Option ℕ}
    (hclient : DlistClient lo hi (.check channel planes first second) s) :
    DlistsInv lo hi (vc4HvsAtomicCheck channel planes first second s) := by
  obtain ⟨hplanes, hfirst, hsecond⟩ := hclient
  unfold vc4HvsAtomicCheck vc4HvsAllocDlistEntry
  split_ifs
  · exact h
  cases first with
  | some x => exact h.addEntry hplanes (hfirst x rfl)
  | none =>
    obtain ⟨hunread, hsecond⟩ := hsecond rfl
    cases second with
    | some x => exact (h.freeStale hunread).addEntry hplanes (hsecond x rfl)
    | none => exact h.freeStale hunread

/-- The dwords of an entry are written. -/
theorem write (hmm : mm ∈ s.nodes) {words : List ℕ} {mem : ℕ → ℕ}
    (hlength : words.length ≤ mm.size) (hholds : Holds mem mm.start words)
    (hflushed : mm.dlistProgrammed = true → words.length = mm.size)
    (hother : ∀ d ∈ s.nodes, d ≠ mm → Holds mem d.start d.words) :
    DlistsInv lo hi { s.modify mm.start fun d => { d with words } with dlist := mem } := by
  have hok := h.ok mm hmm
  refine h.modify (f := fun d => { d with words }) hmm rfl rfl rfl rfl
    (fun d hd hne => { h.ok d hd with holds := hother d hd hne })
    { hok with length_le := hlength, holds := hholds, flushed := hflushed } ?_ ?_
  · intro c hc
    obtain ⟨d, hd, hnext⟩ := h.next c hc
    by_cases heq : d = mm
    · subst heq
      exact Or.inl hnext
    · exact Or.inr ⟨d, hd, heq, hnext⟩
  · intro c hc
    refine (h.shown c hc).imp_right ?_
    rintro ⟨d, hd, hshown⟩
    by_cases heq : d = mm
    · subst heq
      exact Or.inl hshown
    · exact Or.inr ⟨d, hd, heq, hshown⟩

theorem install (hmm : mm ∈ s.nodes) (hcrtc : mm.owner = .crtcState)
    (hflushed : mm.words.length = mm.size) : DlistsInv lo hi (vc4HvsInstallDlist mm s) := by
  have hok := h.ok mm hmm
  refine h.modify (f := fun d => { d with dlistProgrammed := true }) hmm rfl rfl rfl rfl
    (fun d hd _ => { h.ok d hd with })
    { hok with flushed := fun _ => hflushed, owned := fun _ => by simp [hcrtc] } ?_ ?_
  · intro c hc
    by_cases hchan : c = mm.channel
    · subst hchan
      exact Or.inl ⟨(displist_install mm s).symm, (installed_install mm s).symm, rfl, hcrtc, rfl⟩
    · obtain ⟨d, hd, hstart, hserial, hdc, hnext⟩ := h.next c hc
      obtain ⟨hdisplist, hinstalled⟩ := displist_install_of_ne hchan s
      exact Or.inr ⟨d, hd, fun heq => hchan (heq ▸ hdc.symm), hstart.trans hdisplist.symm,
        hserial.trans hinstalled.symm, hdc, hnext⟩
  · intro c hc
    refine (h.shown c hc).imp_right ?_
    rintro ⟨d, hd, hstart, hserial, hdc, hprog, hmarked⟩
    by_cases heq : d = mm
    · subst heq
      exact Or.inl ⟨hstart, hserial, hdc, rfl, hmarked⟩
    · exact Or.inr ⟨d, hd, heq, hstart, hserial, hdc, hprog, hmarked⟩

theorem flush (hmm : mm ∈ s.nodes) (hcrtc : mm.owner = .crtcState) (running : Bool) :
    DlistsInv lo hi (vc4HvsAtomicFlush mm running s) := by
  have hok := h.ok mm hmm
  have hlength : (flushWords mm.planes).length = mm.size := by
    rw [length_flushWords (hok.count hcrtc).2, (hok.count hcrtc).1]
  have hwrite := h.write hmm hlength.le (holds_store _ s.dlist _) (fun _ => hlength)
    fun d hd hne => (h.ok d hd).holds.store
      ((h.apart_of_ne hd hmm hne).2.mono (h.ok d hd).length_le hlength.le)
  unfold vc4HvsAtomicFlush
  dsimp only
  split_ifs
  · have hmm' : { mm with words := flushWords mm.planes } ∈
        (s.modify mm.start fun d => { d with words := flushWords mm.planes }).nodes :=
      (h.mem_modify hmm).2 (Or.inl rfl)
    have hinst := hwrite.install hmm' hcrtc hlength
    exact hinst
  · exact hwrite

theorem asyncSetFb (hmm : mm ∈ s.nodes) {offset : ℕ} (hoffset : offset < mm.words.length)
    (value : ℕ) : DlistsInv lo hi (vc4PlaneAsyncSetFb mm offset value s) := by
  have hok := h.ok mm hmm
  have hlength : (mm.words.set offset value).length = mm.words.length := List.length_set
  refine h.write hmm (hlength.trans_le hok.length_le) (hok.holds.set offset value)
    (fun hp => hlength.trans (hok.flushed hp)) fun d hd hne => ?_
  refine (h.ok d hd).holds.update_of_apart ?_ value
  have hapart := (h.apart_of_ne hd hmm hne).2
  have hle := (h.ok d hd).length_le
  have hle' := hok.length_le
  unfold Apart at *
  omega

theorem enable (hmm : mm ∈ s.nodes) (hcrtc : mm.owner = .crtcState)
    (hflushed : mm.words.length = mm.size) (count : ℕ) :
    DlistsInv lo hi (vc4HvsAtomicEnable mm count s) := by
  have hinst := h.install hmm hcrtc hflushed
  constructor
  · exact hinst.apart
  · exact fun d hd => { hinst.ok d hd with }
  · intro c hc
    by_cases hchan : c = mm.channel
    · subst hchan
      refine ⟨_, (h.mem_modify hmm).2 (Or.inl rfl), ?_⟩
      exact ⟨(displist_install mm s).symm, (installed_install mm s).symm, rfl, hcrtc, rfl⟩
    · exact hinst.next c ((Function.update_of_ne hchan ..).symm.trans hc)
  · intro c hc
    by_cases hchan : c = mm.channel
    · subst hchan
      exact Or.inl (Function.update_self ..)
    · refine (hinst.shown c ((Function.update_of_ne hchan ..).symm.trans hc)).imp ?_ ?_
      · exact (Function.update_of_ne hchan ..).trans
      · rintro ⟨d, hd, hstart, hserial, hdc, hprog, hmarked⟩
        refine ⟨d, hd, (Function.update_of_ne hchan ..).trans hstart, hserial, hdc, hprog,
          fun hm => ?_⟩
        exact (hmarked hm).trans (Function.update_of_ne hchan ..).symm

theorem stop (chan : ℕ) : DlistsInv lo hi (vc4HvsStopChannel chan s) := by
  have hsub : ∀ c, Function.update s.enabled chan false c = true → s.enabled c = true := by
    intro c hc
    by_cases hchan : c = chan
    · subst hchan
      rw [Function.update_self] at hc
      cases hc
    · rwa [Function.update_of_ne hchan] at hc
  exact ⟨h.apart, fun d hd => { h.ok d hd with }, fun c hc => h.next c (hsub c hc),
    fun c hc => h.shown c (hsub c hc)⟩

theorem frame {chan : ℕ} (hchan : s.enabled chan = true) : DlistsInv lo hi (startFrame chan s) := by
  refine ⟨h.apart, fun d hd => { h.ok d hd with }, h.next, fun c hc => ?_⟩
  by_cases hcc : c = chan
  · subst hcc
    obtain ⟨d, hd, hstart, hserial, hdc, hcrtc, hprog⟩ := h.next c hchan
    have hshown : (startFrame c s).shown c = s.installed c := Function.update_self ..
    refine Or.inr ⟨d, hd, ?_, hserial.trans hshown.symm, hdc, hprog, ?_⟩
    · rw [hstart]
      exact Function.update_self ..
    · rintro (hm | hm) <;> rw [hcrtc] at hm <;> cases hm
  · refine (h.shown c hc).imp (Function.update_of_ne hcc ..).trans ?_
    rintro ⟨d, hd, hstart, hserial, hdc, hprog, hmarked⟩
    refine ⟨d, hd, (Function.update_of_ne hcc ..).trans hstart,
      hserial.trans (Function.update_of_ne hcc ..).symm, hdc, hprog, fun hm => ?_⟩
    exact (hmarked hm).trans (Function.update_of_ne hcc ..).symm

theorem destroy (hmm : mm ∈ s.nodes)
    (hreplaced : s.enabled mm.channel = true → s.displist mm.channel ≠ mm.start) :
    DlistsInv lo hi (vc4HvsMarkDlistEntryStale mm s) := by
  have hok := h.ok mm hmm
  unfold vc4HvsMarkDlistEntryStale
  split_ifs with hprog
  · refine h.remove (b := s.workQueued) fun d hd hdprog hgone => absurd hdprog ?_
    rw [h.eq_of_start hd hmm (by simpa using hgone), hprog]
    exact Bool.false_ne_true
  refine h.modify (f := fun d => { d with
      owner := .destroying
      targetFrameCount := (vc4HvsGetFifoFrameCount s mm.channel + 1) % 2 ^ 6
      markedAt := s.frames mm.channel }) hmm rfl rfl rfl rfl (fun d hd _ => { h.ok d hd with })
    { hok with
      owned := fun _ hk => by cases hk
      count := fun hcrtc => by cases hcrtc
      target := fun _ => rfl
      irq := fun hs => by cases hs } ?_ ?_
  · intro c hc
    obtain ⟨d, hd, hstart, hserial, hdc, hnext⟩ := h.next c hc
    refine Or.inr ⟨d, hd, fun heq => ?_, hstart, hserial, hdc, hnext⟩
    subst heq hdc
    exact hreplaced hc hstart.symm
  · intro c hc
    refine (h.shown c hc).imp_right ?_
    rintro ⟨d, hd, hstart, hserial, hdc, hshown⟩
    by_cases heq : d = mm
    · subst heq hdc
      exact Or.inl ⟨hstart, hserial, rfl, hshown.1, fun _ => rfl⟩
    · exact Or.inr ⟨d, hd, heq, hstart, hserial, hdc, hshown⟩

theorem addStale (hmm : mm ∈ s.nodes) (hmarked : mm.owner = .destroying) :
    DlistsInv lo hi (addStaleDlistEntry mm s) := by
  have hok := h.ok mm hmm
  have hirq : ∀ c, s.eofIrq c = true → Function.update s.eofIrq mm.channel true c = true := by
    intro c hc
    by_cases hchan : c = mm.channel
    · subst hchan
      exact Function.update_self ..
    · exact (Function.update_of_ne hchan ..).trans hc
  refine h.modify (f := fun d => { d with owner := .stale }) hmm rfl rfl rfl rfl
    (fun d hd _ => { h.ok d hd with irq := fun hs => hirq _ ((h.ok d hd).irq hs) })
    { hok with
      owned := fun _ hk => by cases hk
      count := fun hcrtc => by cases hcrtc
      target := fun _ => hok.target (Or.inl hmarked)
      irq := fun _ => Function.update_self .. } ?_ ?_
  · intro c hc
    obtain ⟨d, hd, hnext⟩ := h.next c hc
    refine Or.inr ⟨d, hd, fun heq => ?_, hnext⟩
    subst heq
    rw [hnext.2.2.2.1] at hmarked
    cases hmarked
  · intro c hc
    refine (h.shown c hc).imp_right ?_
    rintro ⟨d, hd, hstart, hserial, hdc, hprog, hm⟩
    by_cases heq : d = mm
    · subst heq
      exact Or.inl ⟨hstart, hserial, hdc, hprog, fun _ => hm (Or.inl hmarked)⟩
    · exact Or.inr ⟨d, hd, heq, hstart, hserial, hdc, hprog, hm⟩

theorem sweep (channel : ℕ) : DlistsInv lo hi (vc4HvsScheduleDlistSweep channel s) := by
  unfold vc4HvsScheduleDlistSweep
  split_ifs with hstale
  · exact ⟨h.apart, fun d hd => { h.ok d hd with }, h.next, h.shown⟩
  · refine ⟨h.apart, fun d hd => { h.ok d hd with irq := fun hs => ?_ }, h.next, h.shown⟩
    exact absurd (List.any_eq_true.2 ⟨d, hd, decide_eq_true hs⟩) hstale

theorem freeWork : DlistsInv lo hi (vc4HvsDlistFreeWork s) := by
  refine h.remove (b := false) fun d hd _ hgone => ?_
  simp only [decide_eq_false_iff_not, not_or, not_not, not_and] at hgone
  obtain ⟨hstale, hover⟩ := hgone
  refine ⟨by simp [hstale], fun hc hshown => hover hc ?_⟩
  have heq := hshown.2.2.2.2 (Or.inr hstale)
  -- An entry of this frame is not over.
  rw [(h.ok d hd).target (Or.inr hstale), vc4HvsGetFifoFrameCount, heq, Bool.eq_false_iff]
  exact fun hlte => lt_irrefl _ ((vc4HvsFrcntLte_iff le_rfl (Nat.le_add_right _ _)).1 hlte)

theorem step {a : DlistAct} (hclient : DlistClient lo hi a s) (hstep : dlistStep a s = some s') :
    DlistsInv lo hi s' := by
  cases a with
  | upload kernel start =>
    obtain rfl := Option.some.inj hstep
    exact h.upload hclient
  | check channel planes first second =>
    obtain rfl := Option.some.inj hstep
    exact h.check hclient
  | flush start running =>
    obtain ⟨mm, hnode, rfl⟩ := Option.map_eq_some_iff.1 hstep
    exact h.flush (HvsDlists.mem_of_node hnode).1 (hclient mm hnode) running
  | asyncSetFb start offset value =>
    obtain ⟨mm, hnode, rfl⟩ := Option.map_eq_some_iff.1 hstep
    exact h.asyncSetFb (HvsDlists.mem_of_node hnode).1 (hclient mm hnode).2 value
  | enable start count =>
    obtain ⟨mm, hnode, rfl⟩ := Option.map_eq_some_iff.1 hstep
    obtain ⟨hcrtc, hflushed⟩ := hclient mm hnode
    exact h.enable (HvsDlists.mem_of_node hnode).1 hcrtc hflushed count
  | stop channel =>
    obtain rfl := Option.some.inj hstep
    exact h.stop channel
  | frame channel =>
    obtain ⟨hc, rfl⟩ := Option.ite_some_none_eq_some.1 hstep
    exact h.frame hc
  | destroy start =>
    obtain ⟨mm, hnode, rfl⟩ := Option.map_eq_some_iff.1 hstep
    obtain ⟨hmm, rfl⟩ := HvsDlists.mem_of_node hnode
    exact h.destroy hmm (hclient mm hnode).2
  | addStale start =>
    obtain ⟨mm, hnode, rfl⟩ := Option.map_eq_some_iff.1 hstep
    exact h.addStale (HvsDlists.mem_of_node hnode).1 (hclient mm hnode)
  | eof channel =>
    obtain rfl := Option.some.inj hstep
    exact h.sweep channel
  | freeWork =>
    obtain ⟨-, rfl⟩ := Option.ite_some_none_eq_some.1 hstep
    exact h.freeWork

end DlistsInv

end Inv

/-! ## Whole runs -/

/-- A list is replaced while the channel reads it; its memory is used again once the frame is over. -/
def replace : List DlistAct :=
  [.upload (fun i => i) (some 8), .check 1 [⟨0, [1, 2]⟩] (some 19) none, .flush 19 false,
    .enable 19 5, .frame 1, .check 1 [⟨1, [3]⟩, ⟨0, [4, 5]⟩] (some 22) none, .flush 22 true,
    .destroy 19, .addStale 19, .eof 1, .freeWork, .check 1 [⟨0, [6]⟩] (some 26) none, .frame 1,
    .eof 1, .freeWork, .check 1 [⟨0, [7]⟩] (some 19) none, .asyncSetFb 22 1 9]

-- When there is no room, the stale entries are freed at once, and the list of the frame may go too.
example : ∃ s, runSchedule dlistStep
    [.check 1 [⟨0, [1]⟩] (some 0) none, .flush 0 false, .enable 0 5, .frame 1,
      .check 1 [⟨0, [2]⟩] (some 2) none, .flush 2 true, .destroy 0, .addStale 0,
      .check 1 [⟨0, [3]⟩] none (some 0), .flush 0 false] {} = some s ∧
    s.displact 1 = some 0 ∧ ¬ Holds s.dlist 0 [1, SCALER_CTL0_END] :=
  ⟨_, rfl, by decide, by decide⟩

end KernelModules
