import KernelModules.Hvs
import KernelModules.Tenancy

/-!
# The check of the muxing

`vc4_pv_muxing_atomic_check` keeps the channels in use those of the enabled CRTCs, one for each
(`ChannelsOk`), and gives a CRTC that it enables a channel that was free before the commit
(`MuxChecked`). A channel that a commit frees is free from the next commit on.
-/

set_option linter.unusedSectionVars false

namespace KernelModules

variable {ι π : Type} [DecidableEq ι]

/-! ## Bits -/

theorem ffs_spec {x : ℕ} (h : ∃ i < 32, x.testBit i = true) : x.testBit (ffs x - 1) = true := by
  unfold ffs
  split
  · next hnone =>
    obtain ⟨i, hi, hbit⟩ := h
    rw [List.find?_eq_none] at hnone
    exact absurd hbit (hnone i (List.mem_range.2 hi))
  · next i hsome => exact List.find?_some hsome

theorem unassignedChannels_testBit (fifoState : ℕ → FifoState) (i : ℕ) :
    (unassignedChannels fifoState).testBit i = true ↔
      i < HVS_NUM_CHANNELS ∧ (fifoState i).inUse = false := by
  have hloop : ∀ (l : List ℕ) (u : ℕ),
      (l.foldl (fun u i => if (fifoState i).inUse = true then u else u ||| 2 ^ i) u).testBit i = true ↔
        u.testBit i = true ∨ i ∈ l ∧ (fifoState i).inUse = false := by
    intro l
    induction l with
    | nil => simp
    | cons j l ih =>
      intro u
      rw [List.foldl_cons, ih, List.mem_cons]
      split_ifs with hj
      · by_cases hij : i = j
        · subst hij
          simp [hj]
        · simp [hij]
      · by_cases hij : i = j
        · subst hij
          simp [hj]
        · simp [hij, Nat.testBit_or, Ne.symm hij]
  rw [unassignedChannels, hloop, List.mem_range]
  simp

/-- `unassigned &= ~BIT(channel)` -/
theorem testBit_clear {u ch i : ℕ} (hch : ch < 32) :
    (u &&& (2 ^ 32 - (2 ^ ch + 1))).testBit i = true ↔ u.testBit i = true ∧ i < 32 ∧ ch ≠ i := by
  rw [Nat.testBit_and, Nat.testBit_two_pow_sub_succ (Nat.pow_lt_pow_right (by decide) hch),
    Nat.testBit_two_pow]
  simp

/-! ## The invariant -/

/-- The channel of an enabled CRTC. -/
def Vc4CrtcState.channels (c : Vc4CrtcState) : Set ℕ :=
  {ch | c.enable = true ∧ c.assignedChannel = ch}

theorem Vc4CrtcState.channels_of_enable {c : Vc4CrtcState} (h : c.enable = true) :
    c.channels = {c.assignedChannel} := by
  ext ch
  simp [channels, h, eq_comm]

theorem Vc4CrtcState.channels_of_not_enable {c : Vc4CrtcState} (h : c.enable = false) :
    c.channels = ∅ := by
  ext ch
  simp [channels, h]

/-- The channels in use are those of the enabled CRTCs, one for each. -/
structure ChannelsOk (data : ι → Vc4CrtcData) (crtc : ι → Vc4CrtcState) (fifoState : ℕ → FifoState) :
    Prop where
  idle : ∀ c, (crtc c).enable = false → (crtc c).assignedChannel = VC4_HVS_CHANNEL_DISABLED
  allowed : ∀ c, (crtc c).enable = true → (crtc c).assignedChannel < HVS_NUM_CHANNELS ∧
    (data c).hvsAvailableChannels.testBit (crtc c).assignedChannel = true
  tenancy : Tenancy {ch | (fifoState ch).inUse = true} fun c => (crtc c).channels

theorem ChannelsOk.apart {data : ι → Vc4CrtcData} {crtc : ι → Vc4CrtcState}
    {fifoState : ℕ → FifoState} (h : ChannelsOk data crtc fifoState) {c d : ι} (hne : c ≠ d)
    (hc : (crtc c).enable = true) (hd : (crtc d).enable = true) :
    (crtc c).assignedChannel ≠ (crtc d).assignedChannel := fun heq =>
  (h.tenancy.disjoint c d hne).notMem_of_mem_left (a := (crtc c).assignedChannel) ⟨hc, rfl⟩
    ⟨hd, heq.symm⟩

theorem ChannelsOk.inUse_iff {data : ι → Vc4CrtcData} {crtc : ι → Vc4CrtcState}
    {fifoState : ℕ → FifoState} (h : ChannelsOk data crtc fifoState) (ch : ℕ) :
    (fifoState ch).inUse = true ↔ ∃ c, (crtc c).enable = true ∧ (crtc c).assignedChannel = ch :=
  h.tenancy.mem_taken_iff ch

/-- The invariant of the loop. The channels that it may give away are free. -/
structure MuxOk (data : ι → Vc4CrtcData) (m : MuxState ι) : Prop where
  channels : ChannelsOk data m.crtc m.fifoState
  unassigned : ∀ ch, m.unassigned.testBit ch = true →
    ch < HVS_NUM_CHANNELS ∧ (m.fifoState ch).inUse = false

/-- The new state of a CRTC of the commit. -/
structure CrtcRequested (old : Vc4CrtcState) (r : CrtcRequest) (new : Vc4CrtcState) : Prop where
  enable : new.enable = r.enable
  active : new.active = r.active
  hvsLoad : new.hvsLoad = r.hvsLoad
  kept : old.enable = r.enable →
    new.assignedChannel = old.assignedChannel ∧ new.updateMuxing = false
  muxed : old.enable ≠ r.enable → new.updateMuxing = true

variable {data : ι → Vc4CrtcData} {m : MuxState ι} {c : ι} {r : CrtcRequest}

/-- What the body of the loop does : nothing to the channels, or a channel given back, or one taken,
or a failure for want of one. -/
theorem pvMuxingCrtc_cases (h : MuxOk data m) (c : ι) (r : CrtcRequest) :
    ((m.crtc c).enable = r.enable ∧ pvMuxingCrtc (data c) c r m = .ok { m with
        crtc := Function.update m.crtc c (vc4CrtcDuplicateState (m.crtc c) r) }) ∨
    ((m.crtc c).enable = true ∧ r.enable = false ∧ pvMuxingCrtc (data c) c r m = .ok { m with
        crtc := Function.update m.crtc c
          { vc4CrtcDuplicateState (m.crtc c) r with
            updateMuxing := true, assignedChannel := VC4_HVS_CHANNEL_DISABLED }
        fifoState := Function.update m.fifoState (m.crtc c).assignedChannel
          { m.fifoState (m.crtc c).assignedChannel with inUse := false } }) ∨
    ((m.crtc c).enable = false ∧ r.enable = true ∧
      m.unassigned &&& (data c).hvsAvailableChannels = 0 ∧
      pvMuxingCrtc (data c) c r m = .error .einval) ∨
    ((m.crtc c).enable = false ∧ r.enable = true ∧ ∃ ch, m.unassigned.testBit ch = true ∧
      (data c).hvsAvailableChannels.testBit ch = true ∧ ch < HVS_NUM_CHANNELS ∧
      pvMuxingCrtc (data c) c r m = .ok
        { crtc := Function.update m.crtc c
            { vc4CrtcDuplicateState (m.crtc c) r with updateMuxing := true, assignedChannel := ch }
          fifoState := Function.update m.fifoState ch { m.fifoState ch with inUse := true }
          unassigned := m.unassigned &&& (2 ^ 32 - (2 ^ ch + 1)) }) := by
  unfold pvMuxingCrtc
  dsimp only [vc4CrtcDuplicateState]
  split_ifs with heq hdis hzero
  · exact Or.inl ⟨heq, rfl⟩
  · have hen : (m.crtc c).enable = true := by
      rw [hdis] at heq
      simpa using heq
    rw [setInUse, if_pos (h.channels.allowed c hen).1]
    exact Or.inr (Or.inl ⟨hen, hdis, rfl⟩)
  · rw [Bool.not_eq_false] at hdis
    rw [hdis, Bool.not_eq_true] at heq
    exact Or.inr (Or.inr (Or.inl ⟨heq, hdis, hzero, rfl⟩))
  · rw [Bool.not_eq_false] at hdis
    rw [hdis, Bool.not_eq_true] at heq
    obtain ⟨i, hi⟩ := Nat.exists_testBit_of_ne_zero hzero
    have hi' := h.unassigned i (by rw [Nat.testBit_and, Bool.and_eq_true] at hi; exact hi.1)
    have hbit := ffs_spec ⟨i, hi'.1.trans (by decide), hi⟩
    rw [Nat.testBit_and, Bool.and_eq_true] at hbit
    have hlt := (h.unassigned _ hbit.1).1
    rw [setInUse, if_pos hlt]
    exact Or.inr (Or.inr (Or.inr ⟨heq, hdis, _, hbit.1, hbit.2, hlt, rfl⟩))

/-! ## The loop -/

/-- A CRTC that does not change hands. -/
theorem ChannelsOk.same {crtc : ι → Vc4CrtcState} {fifoState : ℕ → FifoState}
    (h : ChannelsOk data crtc fifoState) {new : Vc4CrtcState}
    (hen : new.enable = (crtc c).enable) (has : new.assignedChannel = (crtc c).assignedChannel) :
    ChannelsOk data (Function.update crtc c new) fifoState := by
  have hall : ∀ d, (Function.update crtc c new d).enable = (crtc d).enable ∧
      (Function.update crtc c new d).assignedChannel = (crtc d).assignedChannel := by
    intro d
    by_cases hd : d = c
    · subst hd
      rw [Function.update_self]
      exact ⟨hen, has⟩
    · rw [Function.update_of_ne hd]
      exact ⟨rfl, rfl⟩
  constructor
  · intro d hd
    rw [(hall d).1] at hd
    rw [(hall d).2]
    exact h.idle d hd
  · intro d hd
    rw [(hall d).1] at hd
    rw [(hall d).2]
    exact h.allowed d hd
  · refine h.tenancy.congr rfl fun d => ?_
    rw [Vc4CrtcState.channels, (hall d).1, (hall d).2]
    rfl

/-- A CRTC is disabled. -/
theorem ChannelsOk.release {crtc : ι → Vc4CrtcState} {fifoState : ℕ → FifoState}
    (h : ChannelsOk data crtc fifoState) {new : Vc4CrtcState} (hold : (crtc c).enable = true)
    (hen : new.enable = false) (has : new.assignedChannel = VC4_HVS_CHANNEL_DISABLED) :
    ChannelsOk data (Function.update crtc c new)
      (Function.update fifoState (crtc c).assignedChannel
        { fifoState (crtc c).assignedChannel with inUse := false }) := by
  constructor
  · intro d hd
    by_cases hdc : d = c
    · subst hdc
      rw [Function.update_self, has]
    · rw [Function.update_of_ne hdc] at hd ⊢
      exact h.idle d hd
  · intro d hd
    by_cases hdc : d = c
    · subst hdc
      rw [Function.update_self, hen] at hd
      cases hd
    · rw [Function.update_of_ne hdc] at hd ⊢
      exact h.allowed d hd
  · refine h.tenancy.release (i := c) (S := {(crtc c).assignedChannel}) ?_ ?_ ?_ ?_
    · rw [Vc4CrtcState.channels_of_enable hold]
    · rw [Function.update_self, Vc4CrtcState.channels_of_not_enable hen,
        Vc4CrtcState.channels_of_enable hold, Set.sdiff_self]
    · intro d hd
      rw [Function.update_of_ne hd]
    · ext ch
      by_cases hch : ch = (crtc c).assignedChannel
      · simp [hch]
      · simp [hch]

/-- A CRTC is enabled. -/
theorem ChannelsOk.claim {crtc : ι → Vc4CrtcState} {fifoState : ℕ → FifoState}
    (h : ChannelsOk data crtc fifoState) {new : Vc4CrtcState} {ch : ℕ}
    (hold : (crtc c).enable = false) (hen : new.enable = true) (has : new.assignedChannel = ch)
    (hlt : ch < HVS_NUM_CHANNELS) (hbit : (data c).hvsAvailableChannels.testBit ch = true)
    (hfree : (fifoState ch).inUse = false) :
    ChannelsOk data (Function.update crtc c new)
      (Function.update fifoState ch { fifoState ch with inUse := true }) := by
  constructor
  · intro d hd
    by_cases hdc : d = c
    · subst hdc
      rw [Function.update_self, hen] at hd
      cases hd
    · rw [Function.update_of_ne hdc] at hd ⊢
      exact h.idle d hd
  · intro d hd
    by_cases hdc : d = c
    · subst hdc
      rw [Function.update_self, has]
      exact ⟨hlt, hbit⟩
    · rw [Function.update_of_ne hdc] at hd ⊢
      exact h.allowed d hd
  · refine h.tenancy.claim (i := c) (S := {ch}) ?_ ?_ ?_ ?_
    · rw [Set.disjoint_singleton_left]
      simp [hfree]
    · rw [Function.update_self, Vc4CrtcState.channels_of_enable hen,
        Vc4CrtcState.channels_of_not_enable hold, Set.empty_union, has]
    · intro d hd
      rw [Function.update_of_ne hd]
    · ext i
      by_cases hi : i = ch
      · simp [hi]
      · simp [hi]

theorem pvMuxingCrtc_ok (h : MuxOk data m) {m' : MuxState ι}
    (hm' : pvMuxingCrtc (data c) c r m = .ok m') : MuxOk data m' := by
  obtain ⟨hen, heq⟩ | ⟨hold, hnew, heq⟩ | ⟨-, -, -, heq⟩ | ⟨hold, hnew, ch, hu, hbit, hlt, heq⟩ :=
    pvMuxingCrtc_cases h c r <;> rw [heq] at hm'
  · obtain rfl := Except.ok.inj hm'
    exact ⟨h.channels.same hen.symm rfl, h.unassigned⟩
  · obtain rfl := Except.ok.inj hm'
    refine ⟨h.channels.release hold hnew rfl, fun i hi => ?_⟩
    obtain ⟨hlt, hfree⟩ := h.unassigned i hi
    refine ⟨hlt, ?_⟩
    by_cases hch : i = (m.crtc c).assignedChannel
    · subst hch
      simp
    · dsimp only
      rw [Function.update_of_ne hch]
      exact hfree
  · cases hm'
  · obtain rfl := Except.ok.inj hm'
    refine ⟨h.channels.claim hold hnew rfl hlt hbit (h.unassigned ch hu).2, fun i hi => ?_⟩
    obtain ⟨hi, -, hne⟩ := (testBit_clear (hlt.trans (by decide))).1 hi
    dsimp only
    rw [Function.update_of_ne hne.symm]
    exact h.unassigned i hi

theorem pvMuxingCrtc_ne_outOfRange (h : MuxOk data m) :
    pvMuxingCrtc (data c) c r m ≠ .error .outOfRange := by
  obtain ⟨-, heq⟩ | ⟨-, -, heq⟩ | ⟨-, -, -, heq⟩ | ⟨-, -, ch, -, -, -, heq⟩ :=
    pvMuxingCrtc_cases h c r <;> rw [heq] <;> nofun

/-- The body of the loop is about one CRTC. A channel that it gives away was one of those that it
could give away. -/
theorem pvMuxingCrtc_requested (h : MuxOk data m) {m' : MuxState ι}
    (hm' : pvMuxingCrtc (data c) c r m = .ok m') :
    (∀ d, d ≠ c → m'.crtc d = m.crtc d) ∧ CrtcRequested (m.crtc c) r (m'.crtc c) ∧
      ((m.crtc c).enable = false → r.enable = true →
        m.unassigned.testBit (m'.crtc c).assignedChannel = true) ∧
      (∀ ch, m'.unassigned.testBit ch = true → m.unassigned.testBit ch = true) ∧
      ∀ ch, (m'.fifoState ch).fifoLoad = (m.fifoState ch).fifoLoad := by
  have hload : ∀ (i : ℕ) (b : Bool) (ch : ℕ),
      (Function.update m.fifoState i { m.fifoState i with inUse := b } ch).fifoLoad =
        (m.fifoState ch).fifoLoad := by
    intro i b ch
    by_cases hch : ch = i
    · subst hch
      rw [Function.update_self]
    · rw [Function.update_of_ne hch]
  obtain ⟨hen, heq⟩ | ⟨hold, hnew, heq⟩ | ⟨-, -, -, heq⟩ | ⟨hold, hnew, ch, hu, -, hlt, heq⟩ :=
    pvMuxingCrtc_cases h c r <;> rw [heq] at hm'
  · obtain rfl := Except.ok.inj hm'
    refine ⟨fun d hd => Function.update_of_ne hd _ _, ?_, fun hold hnew => ?_, fun _ => id,
      fun _ => rfl⟩
    · dsimp only
      rw [Function.update_self]
      exact ⟨rfl, rfl, rfl, fun _ => ⟨rfl, rfl⟩, fun hne => absurd hen hne⟩
    · rw [hold, hnew] at hen
      cases hen
  · obtain rfl := Except.ok.inj hm'
    refine ⟨fun d hd => Function.update_of_ne hd _ _, ?_, fun hold' => ?_, fun _ => id,
      hload _ _⟩
    · dsimp only
      rw [Function.update_self]
      refine ⟨rfl, rfl, rfl, fun heq => ?_, fun _ => rfl⟩
      rw [hold, hnew] at heq
      cases heq
    · rw [hold] at hold'
      cases hold'
  · cases hm'
  · obtain rfl := Except.ok.inj hm'
    refine ⟨fun d hd => Function.update_of_ne hd _ _, ?_, fun _ _ => ?_, fun i hi => ?_,
      hload _ _⟩
    · dsimp only
      rw [Function.update_self]
      refine ⟨rfl, rfl, rfl, fun heq => ?_, fun _ => rfl⟩
      rw [hold, hnew] at heq
      cases heq
    · dsimp only
      rw [Function.update_self]
      exact hu
    · exact ((testBit_clear (hlt.trans (by decide))).1 hi).1

/-- What the loop does to the CRTCs. -/
structure MuxResult (req : ι → Option CrtcRequest) (l : List ι) (m m' : MuxState ι) : Prop where
  other : ∀ c, c ∉ l ∨ req c = none → m'.crtc c = m.crtc c
  requested : ∀ c ∈ l, ∀ r, req c = some r → CrtcRequested (m.crtc c) r (m'.crtc c)
  fresh : ∀ c ∈ l, ∀ r, req c = some r → (m.crtc c).enable = false → r.enable = true →
    m.unassigned.testBit (m'.crtc c).assignedChannel = true
  loads : ∀ ch, (m'.fifoState ch).fifoLoad = (m.fifoState ch).fifoLoad

theorem pvMuxingLoop_ok {req : ι → Option CrtcRequest} :
    ∀ {l : List ι} {m m' : MuxState ι}, l.Nodup → MuxOk data m → pvMuxingLoop data req l m = .ok m' →
      MuxOk data m' ∧ MuxResult req l m m'
  | [], m, m', _, h, hm' => by
    obtain rfl := Except.ok.inj hm'
    exact ⟨h, fun _ _ => rfl, nofun, nofun, fun _ => rfl⟩
  | c :: l, m, m', hnodup, h, hm' => by
    obtain ⟨hc, hl⟩ := List.nodup_cons.1 hnodup
    unfold pvMuxingLoop at hm'
    split at hm'
    · next hnone =>
      obtain ⟨hok, hres⟩ := pvMuxingLoop_ok hl h hm'
      refine ⟨hok, fun d hd => ?_, fun d hd r hr => ?_, fun d hd r hr => ?_, hres.loads⟩
      · by_cases hdc : d = c
        · exact hres.other d (Or.inr (hdc ▸ hnone))
        · exact hres.other d (hd.imp_left fun hd hdl => hd (List.mem_cons_of_mem c hdl))
      · rcases List.mem_cons.1 hd with rfl | hd
        · rw [hnone] at hr
          cases hr
        · exact hres.requested d hd r hr
      · rcases List.mem_cons.1 hd with rfl | hd
        · rw [hnone] at hr
          cases hr
        · exact hres.fresh d hd r hr
    · next r hsome =>
      cases hone : pvMuxingCrtc (data c) c r m with
      | error e =>
        rw [hone] at hm'
        cases hm'
      | ok m₁ =>
        rw [hone] at hm'
        obtain ⟨hok, hres⟩ := pvMuxingLoop_ok hl (pvMuxingCrtc_ok h hone) hm'
        obtain ⟨hother, hreq, hfresh, hless, hloads⟩ := pvMuxingCrtc_requested h hone
        have hlast : m'.crtc c = m₁.crtc c := hres.other c (Or.inl hc)
        refine ⟨hok, fun d hd => ?_, fun d hd r' hr => ?_, fun d hd r' hr => ?_,
          fun ch => (hres.loads ch).trans (hloads ch)⟩
        · have hdc : d ≠ c := by
            rintro rfl
            rcases hd with hd | hd
            · exact hd List.mem_cons_self
            · rw [hsome] at hd
              cases hd
          rw [hres.other d (hd.imp_left fun hd hdl => hd (List.mem_cons_of_mem c hdl)), hother d hdc]
        · rcases List.mem_cons.1 hd with rfl | hd
          · obtain rfl := Option.some.inj (hsome.symm.trans hr)
            rw [hlast]
            exact hreq
          · rw [← hother d (ne_of_mem_of_not_mem hd hc)]
            exact hres.requested d hd r' hr
        · rcases List.mem_cons.1 hd with rfl | hd
          · obtain rfl := Option.some.inj (hsome.symm.trans hr)
            rw [hlast]
            exact hfresh
          · rw [← hother d (ne_of_mem_of_not_mem hd hc)]
            exact fun hold hnew => hless _ (hres.fresh d hd r' hr hold hnew)

theorem pvMuxingLoop_ne_outOfRange {req : ι → Option CrtcRequest} :
    ∀ {l : List ι} {m : MuxState ι}, MuxOk data m →
      pvMuxingLoop data req l m ≠ .error .outOfRange
  | [], _, _ => nofun
  | c :: l, m, h => by
    unfold pvMuxingLoop
    split
    · exact pvMuxingLoop_ne_outOfRange h
    · next r _ =>
      cases hone : pvMuxingCrtc (data c) c r m with
      | error e => exact fun heq => pvMuxingCrtc_ne_outOfRange h (hone.trans heq)
      | ok m₁ => exact pvMuxingLoop_ne_outOfRange (pvMuxingCrtc_ok h hone)

/-! ## Commits -/

/-- What the check of the muxing relies on. -/
structure CrtcsOk (dev : Vc4Dev ι π) (s : KmsState ι π) : Prop where
  channels : ChannelsOk dev.crtc s.crtc s.hvs.fifoState
  active : ∀ c, (s.crtc c).active = true → (s.crtc c).enable = true

variable {dev : Vc4Dev ι π} {s : KmsState ι π} {req : AtomicState ι π}

theorem Vc4Dev.sorted_nodup (dev : Vc4Dev ι π) : dev.sortedCrtcs.Nodup :=
  dev.perm.nodup_iff.2 dev.nodup

theorem Vc4Dev.mem_sortedCrtcs (dev : Vc4Dev ι π) (c : ι) : c ∈ dev.sortedCrtcs :=
  dev.perm.mem_iff.2 (dev.mem_crtcs c)

/-- The state that the loop starts in. -/
theorem CrtcsOk.muxOk (h : CrtcsOk dev s) : MuxOk dev.crtc
    { crtc := s.crtc
      fifoState := s.hvs.fifoState
      unassigned := unassignedChannels s.hvs.fifoState } :=
  ⟨h.channels, fun ch hch => (unassignedChannels_testBit _ ch).1 hch⟩

/-- The states of the CRTCs that a check of the muxing leaves. -/
structure MuxChecked (dev : Vc4Dev ι π) (req : AtomicState ι π) (s : KmsState ι π)
    (m : MuxState ι) : Prop where
  channels : ChannelsOk dev.crtc m.crtc m.fifoState
  active : ∀ c, (m.crtc c).active = true → (m.crtc c).enable = true
  other : ∀ c, req.crtc c = none → m.crtc c = s.crtc c
  requested : ∀ c r, req.crtc c = some r → CrtcRequested (s.crtc c) r (m.crtc c)
  fresh : ∀ c r, req.crtc c = some r → (s.crtc c).enable = false → r.enable = true →
    (s.hvs.fifoState (m.crtc c).assignedChannel).inUse = false
  loads : ∀ ch, (m.fifoState ch).fifoLoad = (s.hvs.fifoState ch).fifoLoad

theorem CrtcsOk.muxChecked (h : CrtcsOk dev s) {m : MuxState ι}
    (hm : vc4PvMuxingAtomicCheck dev req s = .ok m) : MuxChecked dev req s m := by
  obtain ⟨hok, hres⟩ := pvMuxingLoop_ok dev.sorted_nodup h.muxOk hm
  have hother := fun c hc => hres.other c (Or.inr hc)
  have hreq := fun c => hres.requested c (dev.mem_sortedCrtcs c)
  refine ⟨hok.channels, fun c hc => ?_, hother, hreq, fun c r hr hold hnew => ?_, hres.loads⟩
  · cases hr : req.crtc c with
    | none =>
      rw [hother c hr] at hc ⊢
      exact h.active c hc
    | some r =>
      have hnew := hreq c r hr
      rw [hnew.active] at hc
      rw [hnew.enable]
      exact r.enable_of_active hc
  · exact ((unassignedChannels_testBit _ _).1
      (hres.fresh c (dev.mem_sortedCrtcs c) r hr hold hnew)).2

end KernelModules
