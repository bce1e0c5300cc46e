import KernelModules.HvsLoads

/-!
# Commits of the HVS

After any commits, a channel is in use exactly if an enabled CRTC has it, no two CRTCs have the same
one, and each has one that it can be routed to. A CRTC keeps its channel for as long as it is
enabled. No check reads or writes beyond the channels, whatever is asked for (`hvs_muxing_run`).

A check rejects a commit for want of a channel exactly if the channels that were free cannot be given
to the CRTCs that it enables, in any way, as long as the routes are such that the source's simple
loop is enough (`hvs_muxing_complete`). Those of the pixelvalves are (`nested_pixelvalves`).

The loads are those of all planes and CRTCs, and so is the clock (`hvs_loads_run`).
-/

set_option linter.unusedSectionVars false

namespace KernelModules

open GreedyMatching

variable {ι π : Type} [DecidableEq ι]

/-! ## One commit -/

/-- The invariant of the commits. -/
structure KmsOk (dev : Vc4Dev ι π) (s : KmsState ι π) : Prop extends CrtcsOk dev s where
  loads : LoadsOk s.crtc s.hvs.fifoState
  load : s.load = planesLoad dev.crtc s.plane dev.planes
  clock : s.hvs.coreClockRate = clockRate dev s.crtc s.load

variable {dev : Vc4Dev ι π} {s s' : KmsState ι π} {req : AtomicState ι π} {m : MuxState ι}

/-- A channel that one CRTC has after the check is not one that another one had before. -/
theorem MuxChecked.new_ne_old (h : MuxChecked dev req s m)
    (hold : ChannelsOk dev.crtc s.crtc s.hvs.fifoState) {c d : ι} (hne : c ≠ d)
    (hc : (m.crtc c).enable = true) (hd : (s.crtc d).enable = true) :
    (m.crtc c).assignedChannel ≠ (s.crtc d).assignedChannel := by
  cases hr : req.crtc c with
  | none =>
    rw [h.other c hr] at hc ⊢
    exact hold.apart hne hc hd
  | some r =>
    have hreq := h.requested c r hr
    have hen : r.enable = true := hreq.enable ▸ hc
    by_cases heq : (s.crtc c).enable = r.enable
    · rw [(hreq.kept heq).1]
      exact hold.apart hne (heq.trans hen) hd
    · -- the channel was free, that of `d` was not
      have hfree := h.fresh c r hr (by simpa [hen] using heq) hen
      have huse := (hold.inUse_iff _).2 ⟨d, hd, rfl⟩
      intro hch
      rw [hch, huse] at hfree
      cases hfree

/-- Active CRTCs do not share a channel, also if some have their new states already. -/
theorem MuxChecked.apart (h : MuxChecked dev req s m) (hold : CrtcsOk dev s)
    {crtc : ι → Vc4CrtcState} (hmix : ∀ c, crtc c = s.crtc c ∨ crtc c = m.crtc c) : Apart crtc := by
  intro c d hne hc hd
  rcases hmix c with hc' | hc' <;> rcases hmix d with hd' | hd' <;> rw [hc'] at hc ⊢ <;>
    rw [hd'] at hd ⊢
  · exact hold.channels.apart hne (hold.active c hc) (hold.active d hd)
  · exact (h.new_ne_old hold.channels hne.symm (h.active d hd) (hold.active c hc)).symm
  · exact h.new_ne_old hold.channels hne (h.active c hc) (hold.active d hd)
  · exact h.channels.apart hne (h.active c hc) (h.active d hd)

/-- The check of the clock goes through, and the channels get the loads of the new states. -/
theorem KmsOk.coreClock (h : KmsOk dev s) (hm : MuxChecked dev req s m)
    (load : Vc4LoadTrackerState) :
    ∃ hvs, vc4CoreClockAtomicCheck dev req s.crtc m load = .ok hvs ∧
      ChannelsOk dev.crtc m.crtc hvs.fifoState ∧ LoadsOk m.crtc hvs.fifoState ∧
      hvs.coreClockRate = clockRate dev m.crtc load := by
  have hlt : ∀ c, (s.crtc c).active = true → (s.crtc c).assignedChannel < HVS_NUM_CHANNELS :=
    fun c hc => (h.channels.allowed c (h.active c hc)).1
  have hlt' : ∀ c, (m.crtc c).active = true → (m.crtc c).assignedChannel < HVS_NUM_CHANNELS :=
    fun c hc => (hm.channels.allowed c (hm.active c hc)).1
  have hstart : LoadsOk s.crtc m.fifoState := by
    intro ch hch
    rw [hm.loads ch]
    exact h.loads ch hch
  obtain ⟨f, hf, huse, hloads⟩ := coreClockLoop_eq req.crtc hlt hlt'
    (fun _ hmix => hm.apart h.toCrtcsOk hmix) dev.nodup (fun c => Or.inl rfl) (fun _ _ => rfl)
    hstart
  have hall : (fun c => if c ∈ dev.crtcs ∧ (req.crtc c).isSome then m.crtc c else s.crtc c) =
      m.crtc := by
    funext c
    cases hr : req.crtc c with
    | none => simp [hm.other c hr]
    | some r => simp [dev.mem_crtcs c]
  rw [hall] at hloads
  have hchannels : ChannelsOk dev.crtc m.crtc f :=
    ⟨hm.channels.idle, hm.channels.allowed,
      hm.channels.tenancy.congr (by simp only [huse]) fun _ => rfl⟩
  refine ⟨_, by rw [vc4CoreClockAtomicCheck, hf]; rfl, hchannels, hloads, ?_⟩
  dsimp only
  rw [numOutputs_eq hchannels, cobRate_eq hchannels hloads hm.active]
  rfl

theorem vc4LoadTrackerAtomicCheck_ok {load : Vc4LoadTrackerState} (h : KmsOk dev s)
    (hload : vc4LoadTrackerAtomicCheck dev req s = .ok load) :
    load = planesLoad dev.crtc (fun p => (req.plane p).getD (s.plane p)) dev.planes := by
  unfold vc4LoadTrackerAtomicCheck at hload
  rw [h.load, loadTrackerLoop_planesLoad] at hload
  dsimp only at hload
  split_ifs at hload <;> exact (Except.ok.inj hload).symm

/-- A check that accepts keeps the invariant, and leaves the CRTCs as the check of the muxing does. -/
theorem KmsOk.check (h : KmsOk dev s) (hs' : vc4AtomicCheck dev req s = .ok s') :
    KmsOk dev s' ∧ s'.regs = s.regs ∧ ∃ m, MuxChecked dev req s m ∧ s'.crtc = m.crtc := by
  unfold vc4AtomicCheck at hs'
  cases hm : vc4PvMuxingAtomicCheck dev req s with
  | error e =>
    rw [hm] at hs'
    cases hs'
  | ok m =>
    rw [hm] at hs'
    have hmux := h.muxChecked hm
    change (if _ then _ else _) = _ at hs'
    split_ifs at hs'
    cases hload : vc4LoadTrackerAtomicCheck dev req s with
    | error e =>
      rw [hload] at hs'
      cases hs'
    | ok load =>
      obtain ⟨hvs, hhvs, hchannels, hloads, hclock⟩ := h.coreClock hmux load
      rw [hload] at hs'
      change (vc4CoreClockAtomicCheck dev req s.crtc m load).bind _ = _ at hs'
      rw [hhvs] at hs'
      obtain rfl := Except.ok.inj hs'
      exact ⟨⟨⟨hchannels, hmux.active⟩, hloads, vc4LoadTrackerAtomicCheck_ok h hload, hclock⟩, rfl,
        m, hmux, rfl⟩

/-- No check gets to a channel that does not exist. -/
theorem KmsOk.check_ne_outOfRange (h : KmsOk dev s) :
    vc4AtomicCheck dev req s ≠ .error .outOfRange := by
  intro herr
  unfold vc4AtomicCheck at herr
  cases hm : vc4PvMuxingAtomicCheck dev req s with
  | error e =>
    rw [hm] at herr
    obtain rfl : e = .outOfRange := Except.error.inj herr
    exact pvMuxingLoop_ne_outOfRange h.muxOk hm
  | ok m =>
    rw [hm] at herr
    have hmux := h.muxChecked hm
    change (if _ then _ else _) = _ at herr
    split_ifs at herr
    · cases herr
    cases hload : vc4LoadTrackerAtomicCheck dev req s with
    | error e =>
      rw [hload] at herr
      obtain rfl : e = .outOfRange := Except.error.inj herr
      unfold vc4LoadTrackerAtomicCheck at hload
      dsimp only at hload
      split_ifs at hload <;> cases hload
    | ok load =>
      obtain ⟨hvs, hhvs, -⟩ := h.coreClock hmux load
      rw [hload] at herr
      change (vc4CoreClockAtomicCheck dev req s.crtc m load).bind _ = _ at herr
      rw [hhvs] at herr
      cases herr

/-- What a commit does : nothing if the check rejects it. -/
theorem vc4AtomicCommit_cases (dev : Vc4Dev ι π) (s : KmsState ι π) (req : AtomicState ι π) :
    (∃ s', vc4AtomicCheck dev req s = .ok s' ∧ vc4AtomicCommit dev s req =
      { s' with regs := vc5HvsPvMuxingCommit dev.crtc req.crtc s'.crtc dev.crtcs s'.regs }) ∨
    vc4AtomicCommit dev s req = s := by
  unfold vc4AtomicCommit
  split
  · next s' hs' => exact Or.inl ⟨s', hs', rfl⟩
  · exact Or.inr rfl

theorem KmsOk.commit (h : KmsOk dev s) (req : AtomicState ι π) :
    KmsOk dev (vc4AtomicCommit dev s req) := by
  obtain ⟨s', hs', heq⟩ | heq := vc4AtomicCommit_cases dev s req
  · obtain ⟨hok, -⟩ := h.check hs'
    rw [heq]
    exact { hok with }
  · rw [heq]
    exact h

/-! ## Runs -/

theorem kmsOk_load (dev : Vc4Dev ι π) (regs : HvsRegs) : KmsOk dev { regs } where
  channels :=
    { idle := fun _ _ => rfl
      allowed := nofun
      tenancy := (Tenancy.empty fun _ => Vc4CrtcState.channels_of_not_enable rfl).congr
        (by ext; simp) fun _ => rfl }
  active := nofun
  loads := fun _ _ => Or.inr ⟨nofun, rfl⟩
  load := by
    have hsum : (dev.planes.map fun _ => (0 : BitVec 64)).sum = 0 := by simp
    exact (congrArg₂ Vc4LoadTrackerState.mk hsum hsum).symm
  clock := by
    have hzero : ∀ l : List ι, (l.map fun _ => 0).foldr max 0 = 0 := by
      intro l
      induction l with
      | nil => rfl
      | cons c l ih => exact (Nat.zero_max _).trans ih
    change 0 = max ((dev.crtcs.map fun _ => 0).foldr max 0) _
    rw [hzero]
    split_ifs <;> simp

theorem kmsRun_append (dev : Vc4Dev ι π) (regs : HvsRegs) (reqs : List (AtomicState ι π))
    (req : AtomicState ι π) :
    kmsRun dev regs (reqs ++ [req]) = vc4AtomicCommit dev (kmsRun dev regs reqs) req := by
  simp [kmsRun]

theorem kmsOk_run (dev : Vc4Dev ι π) (regs : HvsRegs) (reqs : List (AtomicState ι π)) :
    KmsOk dev (kmsRun dev regs reqs) := by
  induction reqs using List.reverseRecOn with
  | nil => exact kmsOk_load dev _
  | append_singleton reqs req ih =>
    rw [kmsRun_append]
    exact ih.commit req

/-- A channel is in use exactly if an enabled CRTC has it. Enabled CRTCs have different channels that
they can be routed to, the others have none. -/
structure HvsMuxed (dev : Vc4Dev ι π) (s : KmsState ι π) : Prop where
  inUse : ∀ ch, (s.hvs.fifoState ch).inUse = true ↔
    ∃ c, (s.crtc c).enable = true ∧ (s.crtc c).assignedChannel = ch
  apart : ∀ c d, c ≠ d → (s.crtc c).enable = true → (s.crtc d).enable = true →
    (s.crtc c).assignedChannel ≠ (s.crtc d).assignedChannel
  allowed : ∀ c, (s.crtc c).enable = true → (s.crtc c).assignedChannel < HVS_NUM_CHANNELS ∧
    (dev.crtc c).hvsAvailableChannels.testBit (s.crtc c).assignedChannel = true
  idle : ∀ c, (s.crtc c).enable = false → (s.crtc c).assignedChannel = VC4_HVS_CHANNEL_DISABLED

/-- An enabled CRTC keeps its channel. -/
theorem KmsOk.commit_kept (h : KmsOk dev s) {c : ι} (hold : (s.crtc c).enable = true)
    (hnew : ((vc4AtomicCommit dev s req).crtc c).enable = true) :
    ((vc4AtomicCommit dev s req).crtc c).assignedChannel = (s.crtc c).assignedChannel := by
  obtain ⟨s', hs', heq⟩ | heq := vc4AtomicCommit_cases dev s req
  · obtain ⟨-, -, m, hm, hcrtc⟩ := h.check hs'
    rw [heq] at hnew ⊢
    dsimp only at hnew ⊢
    rw [hcrtc] at hnew ⊢
    cases hr : req.crtc c with
    | none => rw [hm.other c hr]
    | some r =>
      have hreq := hm.requested c r hr
      exact (hreq.kept (hold.trans (hreq.enable ▸ hnew).symm)).1
  · rw [heq]

/-- The channels are those of the enabled CRTCs after any commits, no check gets beyond them, and an
enabled CRTC keeps its channel until it is disabled. -/
theorem hvs_muxing_run (dev : Vc4Dev ι π) (regs : HvsRegs) (reqs : List (AtomicState ι π)) :
    let s := kmsRun dev regs reqs
    HvsMuxed dev s ∧ ∀ req, vc4AtomicCheck dev req s ≠ .error .outOfRange ∧
      ∀ c, (s.crtc c).enable = true → ((vc4AtomicCommit dev s req).crtc c).enable = true →
        ((vc4AtomicCommit dev s req).crtc c).assignedChannel = (s.crtc c).assignedChannel := by
  have h := kmsOk_run dev regs reqs
  exact ⟨⟨h.channels.inUse_iff, fun _ _ => h.channels.apart, h.channels.allowed, h.channels.idle⟩,
    fun _ => ⟨h.check_ne_outOfRange, fun _ => h.commit_kept⟩⟩

/-- The loads are those of the planes and CRTCs after any commits, and the clock is what they ask
for. -/
theorem hvs_loads_run (dev : Vc4Dev ι π) (regs : HvsRegs) (reqs : List (AtomicState ι π)) :
    let s := kmsRun dev regs reqs
    s.load = planesLoad dev.crtc s.plane dev.planes ∧ LoadsOk s.crtc s.hvs.fifoState ∧
      s.hvs.coreClockRate = clockRate dev s.crtc s.load := by
  have h := kmsOk_run dev regs reqs
  exact ⟨h.load, h.loads, h.clock⟩

/-! ## Want of a channel -/

/-- The channels that a CRTC can be routed to. -/
def Vc4CrtcData.options (data : Vc4CrtcData) : Set ℕ :=
  {ch | data.hvsAvailableChannels.testBit ch = true}

/-- The commit enables the CRTC. -/
def AtomicState.enables (req : AtomicState ι π) (s : KmsState ι π) (c : ι) : Bool :=
  !(s.crtc c).enable && (req.crtc c).any CrtcRequest.enable

/-- The loop fails exactly if the channels that it may give away cannot be given to the CRTCs that are
still to be enabled. -/
theorem pvMuxingLoop_einval_iff {data : ι → Vc4CrtcData} (req : ι → Option CrtcRequest)
    (crtc : ι → Vc4CrtcState) : ∀ {l : List ι} {m : MuxState ι}, l.Nodup →
    Nested (fun c => (data c).options) l → MuxOk data m → (∀ c ∈ l, m.crtc c = crtc c) →
    (pvMuxingLoop data req l m = .error .einval ↔ ¬ ∃ f, Matching (fun c => (data c).options)
      (l.filter fun c => !(crtc c).enable && (req c).any CrtcRequest.enable)
      {ch | m.unassigned.testBit ch = true} f)
  | [], m, _, _, _, _ => by
    refine iff_of_false nofun (not_not.2 ⟨fun _ => 0, matching_nil _ _⟩)
  | c :: l, m, hnodup, hnested, h, hm => by
    obtain ⟨hc, hnodup⟩ := List.nodup_cons.1 hnodup
    obtain ⟨hcl, hnested⟩ := List.pairwise_cons.1 hnested
    have hmc := hm c List.mem_cons_self
    have hml : ∀ {m' : MuxState ι}, (∀ d, d ≠ c → m'.crtc d = m.crtc d) →
        ∀ d ∈ l, m'.crtc d = crtc d := fun hother d hd =>
      (hother d (ne_of_mem_of_not_mem hd hc)).trans (hm d (List.mem_cons_of_mem c hd))
    unfold pvMuxingLoop
    split
    · next hnone =>
      rw [List.filter_cons_of_neg (by simp [hnone])]
      exact pvMuxingLoop_einval_iff req crtc hnodup hnested h fun d hd => hm d (List.mem_cons_of_mem c hd)
    · next r hsome =>
      obtain ⟨hen, heq⟩ | ⟨hold, hnew, heq⟩ | ⟨hold, hnew, hzero, heq⟩ |
        ⟨hold, hnew, ch, hu, hbit, hlt, heq⟩ := pvMuxingCrtc_cases h c r
      · have hok := pvMuxingCrtc_ok h heq
        rw [heq, List.filter_cons_of_neg (by rw [hsome, ← hmc, hen]; simp)]
        exact pvMuxingLoop_einval_iff req crtc hnodup hnested hok
          (hml fun d hd => Function.update_of_ne hd _ _)
      · have hok := pvMuxingCrtc_ok h heq
        rw [heq, List.filter_cons_of_neg (by rw [hsome, ← hmc, hold]; simp)]
        exact pvMuxingLoop_einval_iff req crtc hnodup hnested hok
          (hml fun d hd => Function.update_of_ne hd _ _)
      · -- no channel is left for the CRTC
        rw [heq, List.filter_cons_of_pos (by rw [hsome, ← hmc, hold]; simpa using hnew)]
        refine iff_of_true rfl fun ⟨f, hf⟩ => not_matching_cons ?_ f hf
        refine Set.eq_empty_iff_forall_notMem.2 fun ch ⟨hopt, hfree⟩ => ?_
        have hboth : (m.unassigned &&& (data c).hvsAvailableChannels).testBit ch = true := by
          rw [Nat.testBit_and, Bool.and_eq_true]
          exact ⟨hfree, hopt⟩
        rw [hzero, Nat.zero_testBit] at hboth
        cases hboth
      · -- the CRTC may take any of its channels that are free
        have hok := pvMuxingCrtc_ok h heq
        have hfree : {i | (m.unassigned &&& (2 ^ 32 - (2 ^ ch + 1))).testBit i = true} =
            {i | m.unassigned.testBit i = true} \ {ch} := by
          ext i
          rw [Set.mem_sdiff, Set.mem_singleton_iff, Set.mem_ofPred_eq, Set.mem_ofPred_eq,
            testBit_clear (hlt.trans (by decide))]
          constructor
          · rintro ⟨hi, -, hne⟩
            exact ⟨hi, hne.symm⟩
          · rintro ⟨hi, hne⟩
            exact ⟨hi, (h.unassigned i hi).1.trans (by decide), Ne.symm hne⟩
        have hrest := pvMuxingLoop_einval_iff req crtc hnodup hnested hok
          (hml fun d hd => Function.update_of_ne hd _ _)
        rw [hfree] at hrest
        rw [heq, List.filter_cons_of_pos (by rw [hsome, ← hmc, hold]; simpa using hnew),
          exists_matching_cons_iff (c := ch) (fun hmem => hc (List.mem_filter.1 hmem).1)
            (fun d hd => hcl d (List.mem_filter.1 hd).1) hbit hu]
        exact hrest

/-- If the routes are nested in the order of the outputs, a check finds no channel for the CRTCs that a
commit enables exactly if there is no way to give them the channels that were free. -/
theorem hvs_muxing_complete (dev : Vc4Dev ι π) (regs : HvsRegs)
    (hnested : Nested (fun c => (dev.crtc c).options) dev.sortedCrtcs)
    (reqs : List (AtomicState ι π)) (req : AtomicState ι π) :
    let s := kmsRun dev regs reqs
    vc4PvMuxingAtomicCheck dev req s = .error .einval ↔
      ¬ ∃ f, Matching (fun c => (dev.crtc c).options) (dev.sortedCrtcs.filter (req.enables s))
        {ch | ch < HVS_NUM_CHANNELS ∧ (s.hvs.fifoState ch).inUse = false} f := by
  intro s
  have h := (kmsOk_run dev regs reqs).muxOk
  have hfree : {ch | (unassignedChannels s.hvs.fifoState).testBit ch = true} =
      {ch | ch < HVS_NUM_CHANNELS ∧ (s.hvs.fifoState ch).inUse = false} := by
    ext ch
    exact unassignedChannels_testBit _ _
  rw [← hfree]
  exact pvMuxingLoop_einval_iff req.crtc s.crtc dev.sorted_nodup hnested h fun _ _ => rfl

/-- The routes of the pixelvalves of a chip are nested in the order of their outputs. -/
theorem nested_pixelvalves (dev : Vc4Dev ι π) {chip : List Vc4CrtcData} (hchip : chip ∈ pixelvalves)
    (hdev : ∀ c, dev.crtc c ∈ chip) : Nested (fun c => (dev.crtc c).options) dev.sortedCrtcs := by
  have htable : ∀ chip ∈ pixelvalves, ∀ a ∈ chip, ∀ b ∈ chip, a.hvsOutput ≤ b.hvsOutput →
      a.hvsAvailableChannels &&& b.hvsAvailableChannels = a.hvsAvailableChannels ∨
        a.hvsAvailableChannels &&& b.hvsAvailableChannels = 0 := by
    decide
  refine dev.sorted.imp fun {c d} hcd => ?_
  have hboth : ∀ ch, (dev.crtc c).hvsAvailableChannels.testBit ch = true →
      (dev.crtc d).hvsAvailableChannels.testBit ch = true →
      ((dev.crtc c).hvsAvailableChannels &&& (dev.crtc d).hvsAvailableChannels).testBit ch =
        true := by
    intro ch hc hd
    rw [Nat.testBit_and, hc, hd, Bool.and_self]
  refine (htable chip hchip _ (hdev c) _ (hdev d) hcd).imp (fun hsub ch hch => ?_) fun hdisj => ?_
  · have hch' : (dev.crtc c).hvsAvailableChannels.testBit ch = true := hch
    rw [← hsub, Nat.testBit_and, Bool.and_eq_true] at hch'
    exact hch'.2
  · refine Set.disjoint_left.2 fun ch hc hd => ?_
    have hbit := hboth ch hc hd
    rw [hdisj, Nat.zero_testBit] at hbit
    cases hbit

/-- The BCM2711 with its five pixelvalves, and a plane for each. -/
def bcm2711 : Vc4Dev (Fin 5) (Fin 5) where
  crtc := bcm2711Pixelvalves.get
  crtcs := [0, 1, 2, 3, 4]
  sortedCrtcs := [0, 3, 1, 2, 4]
  planes := [0, 1, 2, 3, 4]
  nodup := by decide
  mem_crtcs := by decide
  perm := by decide
  sorted := by decide
  planes_nodup := by decide
  mem_planes := by decide

/-- A commit that enables CRTCs. -/
def enableAll (l : List (Fin 5)) : AtomicState (Fin 5) (Fin 5) where
  crtc c := if c ∈ l then some ⟨true, true, 1000, fun _ => rfl⟩ else none

/-- A commit that disables CRTCs. -/
def disableAll (l : List (Fin 5)) : AtomicState (Fin 5) (Fin 5) where
  crtc c := if c ∈ l then some ⟨false, false, 0, nofun⟩ else none

/-- With a display on pixelvalve 2, which has channel 0, there is no channel for pixelvalve 0, and
there are for 1 and 4. -/
theorem hvs_muxing_complete_bcm2711 :
    let s := kmsRun bcm2711 ⟨0, 0, 0, 0, false⟩ [enableAll [2]]
    let free := {ch | ch < HVS_NUM_CHANNELS ∧ (s.hvs.fifoState ch).inUse = false}
    (¬ ∃ f, Matching (fun c => (bcm2711.crtc c).options)
      (bcm2711.sortedCrtcs.filter ((enableAll [0]).enables s)) free f) ∧
    ∃ f, Matching (fun c => (bcm2711.crtc c).options)
      (bcm2711.sortedCrtcs.filter ((enableAll [1, 4]).enables s)) free f := by
  have hnested := nested_pixelvalves bcm2711 (show bcm2711Pixelvalves ∈ pixelvalves by decide) (by decide)
  have hnone : (match vc4PvMuxingAtomicCheck bcm2711 (enableAll [0])
      (kmsRun bcm2711 ⟨0, 0, 0, 0, false⟩ [enableAll [2]]) with
    | .error .einval => true
    | _ => false) = true := by decide +kernel
  have hsome : (match vc4PvMuxingAtomicCheck bcm2711 (enableAll [1, 4])
      (kmsRun bcm2711 ⟨0, 0, 0, 0, false⟩ [enableAll [2]]) with
    | .ok _ => true
    | _ => false) = true := by decide +kernel
  refine ⟨(hvs_muxing_complete bcm2711 _ hnested [enableAll [2]] _).1 ?_, not_not.1 fun hno => ?_⟩
  · split at hnone
    · assumption
    · cases hnone
  · rw [(hvs_muxing_complete bcm2711 _ hnested [enableAll [2]] _).2 hno] at hsome
    cases hsome

end KernelModules
