import KernelModules.HvsCommit
import Mathlib.Tactic.IntervalCases

/-!
# The muxes of the HVS

What the hardware does follows what the driver says : after any commits on a BCM2711, the FIFO that
`vc4_hvs_get_fifo_from_output` reads off the muxes of an enabled pixelvalve is the channel that it
was given, the muxes of disabled ones are off, and no `WARN_ON` about the muxes was hit
(`hvs_routing_run`).
-/

set_option linter.unusedSectionVars false

namespace KernelModules

variable {ι π : Type} [DecidableEq ι]

/-! ## Fields -/

theorem getLsbD_fieldMask {shift width i : ℕ} (h : shift + width ≤ 32) (hi : i < 32) :
    (fieldMask shift width).getLsbD i = decide (shift ≤ i ∧ i < shift + width) := by
  rw [fieldMask, BitVec.getLsbD_shiftLeft, BitVec.getLsbD_ofNat, Nat.testBit_two_pow_sub_one]
  simp only [Bool.decide_and]
  grind

/-- What is set is read back. -/
theorem fieldGet_fieldSet {shift width value : ℕ} (h : shift + width ≤ 32)
    (hvalue : value < 2 ^ width) (reg : BitVec 32) :
    fieldGet shift width (fieldSet shift width reg value) = value := by
  have hbits : (fieldSet shift width reg value &&& fieldMask shift width) >>> shift =
      BitVec.ofNat 32 value := by
    refine BitVec.eq_of_getLsbD_eq fun i hi => ?_
    have hbit : i < width ∨ value.testBit i = false :=
      (Nat.lt_or_ge i width).imp_right fun hle =>
        Nat.testBit_lt_two_pow (hvalue.trans_le (Nat.pow_le_pow_right (by decide) hle))
    rw [BitVec.getLsbD_ushiftRight, BitVec.getLsbD_and, fieldSet, BitVec.getLsbD_or,
      BitVec.getLsbD_and, BitVec.getLsbD_and, BitVec.getLsbD_not, BitVec.getLsbD_shiftLeft,
      BitVec.getLsbD_ofNat, BitVec.getLsbD_ofNat]
    by_cases hlt : shift + i < 32
    · rw [getLsbD_fieldMask h hlt]
      grind
    · rw [BitVec.getLsbD_of_ge _ _ (Nat.le_of_not_lt hlt)]
      grind
  rw [fieldGet, hbits, BitVec.toNat_ofNat, Nat.mod_eq_of_lt]
  exact hvalue.trans_le (Nat.pow_le_pow_right (by decide) (by omega))

/-! ## The muxes -/

/-- What the mux of an output is set to, for the outputs that can be connected to any FIFO. -/
def HvsRegs.mux (regs : HvsRegs) (output : ℕ) : ℕ :=
  if output = 3 then fieldGet 18 2 regs.dispctrl
  else if output = 4 then fieldGet 30 2 regs.dispeoln
  else fieldGet 30 2 regs.dispdither

/-- What the mux is to be set to. -/
def Vc4CrtcState.target (c : Vc4CrtcState) : ℕ :=
  if c.assignedChannel = VC4_HVS_CHANNEL_DISABLED then 3 else c.assignedChannel

theorem target_eq (c : Vc4CrtcState) : c.target =
    if c.assignedChannel = VC4_HVS_CHANNEL_DISABLED then 3 else c.assignedChannel :=
  rfl

/-- The muxes of the outputs are those of their CRTCs. The mux of an output without a CRTC stays
off. -/
structure RegsOk (data : ι → Vc4CrtcData) (crtc : ι → Vc4CrtcState) (regs : HvsRegs) : Prop where
  mux : ∀ c, (data c).hvsOutput ∈ [3, 4, 5] → regs.mux (data c).hvsOutput = (crtc c).target
  off : (∀ c, (data c).hvsOutput ≠ 3) → regs.mux 3 = 3
  warned : regs.warned = false

/-- A channel, or none. -/
def Vc4CrtcState.HasChannel (c : Vc4CrtcState) : Prop :=
  c.assignedChannel < HVS_NUM_CHANNELS ∨ c.assignedChannel = VC4_HVS_CHANNEL_DISABLED

theorem Vc4CrtcState.HasChannel.target_lt {c : Vc4CrtcState} (h : c.HasChannel) :
    c.target < 2 ^ 2 := by
  unfold target
  split_ifs with hdis
  · decide
  · exact (h.resolve_right hdis).trans (by decide)

theorem ChannelsOk.hasChannel {data : ι → Vc4CrtcData} {crtc : ι → Vc4CrtcState}
    {fifoState : ℕ → FifoState} (h : ChannelsOk data crtc fifoState) (c : ι) :
    (crtc c).HasChannel := by
  cases hc : (crtc c).enable with
  | false => exact Or.inr (h.idle c hc)
  | true => exact Or.inl (h.allowed c hc).1

/-- A step of the commit sets the mux of its CRTC's output, and no other. -/
theorem vc5PvMuxingCrtc_mux {data : Vc4CrtcData} {c : Vc4CrtcState} (hc : c.HasChannel)
    (regs : HvsRegs) {o : ℕ} (ho : o ∈ [3, 4, 5]) :
    (vc5PvMuxingCrtc data c regs).mux o =
      if c.updateMuxing = true ∧ data.hvsOutput = o then c.target else regs.mux o := by
  have hlt := hc.target_lt
  have h18 : ∀ reg, fieldGet 18 2 (fieldSet 18 2 reg c.target) = c.target :=
    fieldGet_fieldSet (by decide) hlt
  have h30 : ∀ reg, fieldGet 30 2 (fieldSet 30 2 reg c.target) = c.target :=
    fieldGet_fieldSet (by decide) hlt
  have hout : o = 3 ∨ o = 4 ∨ o = 5 := by simpa using ho
  unfold vc5PvMuxingCrtc
  dsimp only
  rw [← target_eq]
  by_cases hno : c.updateMuxing = false
  · rw [if_pos hno, if_neg (by simp [hno])]
  rw [if_neg hno]
  rw [Bool.not_eq_false] at hno
  by_cases hd : data.hvsOutput = o
  · refine Eq.trans ?_ (if_pos ⟨hno, hd⟩).symm
    rcases hout with rfl | rfl | rfl <;> rw [hd]
    · exact h18 _
    · exact h30 _
    · exact h30 _
  · refine Eq.trans ?_ (if_neg fun hdo => hd hdo.2).symm
    split <;> rename_i heq <;> rcases hout with rfl | rfl | rfl <;>
      first | rfl | exact absurd heq hd

/-- No `WARN_ON` is hit if the channel is not the one that output 3 is connected to. -/
theorem vc5PvMuxingCrtc_warned {data : Vc4CrtcData} {c : Vc4CrtcState} (hc : c.HasChannel)
    {regs : HvsRegs} (hregs : regs.warned = false)
    (hdsp3 : c.updateMuxing = true → data.hvsOutput = 2 → regs.mux 3 ≠ c.assignedChannel) :
    (vc5PvMuxingCrtc data c regs).warned = false := by
  have hfit : fieldWarns 2 c.target = false := decide_eq_false (Nat.not_le.2 hc.target_lt)
  unfold vc5PvMuxingCrtc
  dsimp only
  rw [← target_eq]
  by_cases hno : c.updateMuxing = false
  · rw [if_pos hno]
    exact hregs
  rw [if_neg hno]
  rw [Bool.not_eq_false] at hno
  split
  · next hd =>
    have hne : fieldGet 18 2 regs.dispctrl ≠ c.assignedChannel := hdsp3 hno hd
    have hmux : fieldWarns 1 (if c.assignedChannel = 2 then 0 else 1) = false := by
      split_ifs <;> decide
    dsimp only
    rw [hregs, hmux, beq_eq_false_iff_ne.2 hne]
    rfl
  · dsimp only
    rw [hregs, hfit, Bool.or_self]
  · dsimp only
    rw [hregs, hfit, Bool.or_self]
  · dsimp only
    rw [hregs, hfit, Bool.or_self]
  · exact hregs

section Commit

variable {dev : Vc4Dev ι π} {s : KmsState ι π} {req : AtomicState ι π} {m : MuxState ι}
  (hout : Function.Injective fun c => (dev.crtc c).hvsOutput) (h : MuxChecked dev req s m)
  (hold : ChannelsOk dev.crtc s.crtc s.hvs.fifoState)

include hout h hold

omit hout in
/-- The channel that a CRTC of output 2 is given is not the one that output 3 is connected to, before
or after the CRTC of output 3 has its new state. -/
theorem mux_ne_assignedChannel {crtc : ι → Vc4CrtcState}
    (hmix : ∀ c, crtc c = s.crtc c ∨ crtc c = m.crtc c) {regs : HvsRegs}
    (hregs : RegsOk dev.crtc crtc regs) {c : ι} (hc : (dev.crtc c).hvsOutput = 2) :
    regs.mux 3 ≠ (m.crtc c).assignedChannel := by
  have hchan := h.channels.hasChannel c
  by_cases hex : ∃ d, (dev.crtc d).hvsOutput = 3
  · obtain ⟨d, hd⟩ := hex
    have hne : c ≠ d := by
      rintro rfl
      rw [hc] at hd
      cases hd
    have hmux := hregs.mux d (by rw [hd]; decide)
    rw [hd] at hmux
    rw [hmux]
    have hdchan : (crtc d).HasChannel := by
      rcases hmix d with heq | heq <;> rw [heq]
      · exact hold.hasChannel d
      · exact h.channels.hasChannel d
    rcases hchan with hlt | hdis
    · -- both CRTCs are enabled if they have a channel
      have hen : (m.crtc c).enable = true := by
        by_contra hno
        rw [Bool.not_eq_true] at hno
        rw [h.channels.idle c hno] at hlt
        exact absurd hlt (by decide)
      rw [target_eq]
      split_ifs with hddis
      · exact (hlt.trans_le (by decide)).ne'
      · rcases hmix d with heq | heq <;> rw [heq] at hddis ⊢
        · have hden : (s.crtc d).enable = true := by
            by_contra hno
            exact hddis (hold.idle d (Bool.not_eq_true _ ▸ hno))
          exact (h.new_ne_old hold hne hen hden).symm
        · have hden : (m.crtc d).enable = true := by
            by_contra hno
            exact hddis (h.channels.idle d (Bool.not_eq_true _ ▸ hno))
          exact h.channels.apart hne.symm hden hen
    · rw [hdis]
      exact (hdchan.target_lt.trans (by decide)).ne
  · rw [hregs.off fun d hd => hex ⟨d, hd⟩]
    rcases hchan with hlt | hdis
    · exact (hlt.trans_le (by decide)).ne'
    · rw [hdis]
      decide

/-- One CRTC of the commit changes to its new state. -/
theorem vc5PvMuxingCrtc_ok {crtc : ι → Vc4CrtcState}
    (hmix : ∀ c, crtc c = s.crtc c ∨ crtc c = m.crtc c) {regs : HvsRegs}
    (hregs : RegsOk dev.crtc crtc regs) {c : ι} (hcc : crtc c = s.crtc c) :
    RegsOk dev.crtc (Function.update crtc c (m.crtc c))
      (if (req.crtc c).isSome then vc5PvMuxingCrtc (dev.crtc c) (m.crtc c) regs else regs) := by
  cases hr : req.crtc c with
  | none =>
    rw [h.other c hr, ← hcc, Function.update_eq_self]
    exact hregs
  | some r =>
    have hreq := h.requested c r hr
    have hchan := h.channels.hasChannel c
    rw [Option.isSome_some, if_pos rfl]
    refine ⟨fun d hd => ?_, fun hno => ?_, ?_⟩
    · rw [vc5PvMuxingCrtc_mux hchan regs hd]
      by_cases hdc : d = c
      · subst hdc
        rw [Function.update_self]
        split_ifs with hmuxed
        · rfl
        · -- nothing changed
          have hsame : (s.crtc d).enable = r.enable := by
            by_contra hne
            exact hmuxed ⟨hreq.muxed hne, rfl⟩
          rw [hregs.mux d hd, hcc, target_eq, target_eq, (hreq.kept hsame).1]
      · rw [Function.update_of_ne hdc, if_neg fun hmuxed => hdc (hout hmuxed.2).symm]
        exact hregs.mux d hd
    · rw [vc5PvMuxingCrtc_mux hchan regs (by decide), if_neg fun hmuxed => hno c hmuxed.2]
      exact hregs.off hno
    · exact vc5PvMuxingCrtc_warned hchan hregs.warned fun _ hc =>
        mux_ne_assignedChannel h hold hmix hregs hc

/-- The CRTCs of the list change to their new states, one after the other. -/
theorem vc5HvsPvMuxingCommit_ok : ∀ {l : List ι} {crtc : ι → Vc4CrtcState} {regs : HvsRegs},
    l.Nodup → (∀ c, crtc c = s.crtc c ∨ crtc c = m.crtc c) → (∀ c ∈ l, crtc c = s.crtc c) →
    RegsOk dev.crtc crtc regs →
    RegsOk dev.crtc (fun c => if c ∈ l then m.crtc c else crtc c)
      (vc5HvsPvMuxingCommit dev.crtc req.crtc m.crtc l regs)
  | [], crtc, regs, _, _, _, hregs => by simpa [vc5HvsPvMuxingCommit] using hregs
  | c :: l, crtc, regs, hnodup, hmix, hl, hregs => by
    obtain ⟨hc, hnodup⟩ := List.nodup_cons.1 hnodup
    have hmix' : ∀ d, Function.update crtc c (m.crtc c) d = s.crtc d ∨
        Function.update crtc c (m.crtc c) d = m.crtc d := by
      intro d
      by_cases hdc : d = c
      · subst hdc
        rw [Function.update_self]
        exact Or.inr rfl
      · rw [Function.update_of_ne hdc]
        exact hmix d
    have hl' : ∀ d ∈ l, Function.update crtc c (m.crtc c) d = s.crtc d := by
      intro d hd
      rw [Function.update_of_ne (ne_of_mem_of_not_mem hd hc)]
      exact hl d (List.mem_cons_of_mem c hd)
    have hrest := vc5HvsPvMuxingCommit_ok hnodup hmix' hl'
      (vc5PvMuxingCrtc_ok hout h hold hmix hregs (hl c List.mem_cons_self))
    rw [vc5HvsPvMuxingCommit]
    convert hrest using 2 with d
    by_cases hdc : d = c
    · subst hdc
      simp [hc]
    · simp [hdc]

end Commit

/-! ## Runs -/

section Runs

variable {dev : Vc4Dev ι π} (hout : Function.Injective fun c => (dev.crtc c).hvsOutput)

include hout

theorem regsOk_commit {s : KmsState ι π} (h : KmsOk dev s) (hregs : RegsOk dev.crtc s.crtc s.regs)
    (req : AtomicState ι π) :
    RegsOk dev.crtc (vc4AtomicCommit dev s req).crtc (vc4AtomicCommit dev s req).regs := by
  obtain ⟨s', hs', heq⟩ | heq := vc4AtomicCommit_cases dev s req
  · obtain ⟨-, hkeep, m, hm, hcrtc⟩ := h.check hs'
    have hok := vc5HvsPvMuxingCommit_ok hout hm h.channels dev.nodup (fun _ => Or.inl rfl)
      (fun _ _ => rfl) hregs
    rw [heq]
    dsimp only
    rw [hcrtc, hkeep]
    convert hok using 2 with c
    simp [dev.mem_crtcs c]
  · rw [heq]
    exact hregs

omit hout in
theorem regsOk_init (data : ι → Vc4CrtcData) (regs : HvsRegs) :
    RegsOk data (fun _ => {}) (vc4HvsHwInit regs) := by
  have hmux : ∀ o ∈ [3, 4, 5], (vc4HvsHwInit regs).mux o = 3 := by
    have h18 : fieldGet 18 2 (vc4HvsHwInit regs).dispctrl = 3 :=
      fieldGet_fieldSet (by decide) (by decide) _
    have h30 : ∀ reg, fieldGet 30 2 (fieldSet 30 2 reg 3) = 3 :=
      fieldGet_fieldSet (by decide) (by decide)
    intro o ho
    unfold HvsRegs.mux
    split_ifs
    · exact h18
    · exact h30 _
    · exact h30 _
  exact ⟨fun c hc => hmux _ hc, fun _ => hmux 3 (by decide), rfl⟩

theorem regsOk_run (regs : HvsRegs) (reqs : List (AtomicState ι π)) :
    RegsOk dev.crtc (kmsRun dev regs reqs).crtc (kmsRun dev regs reqs).regs := by
  induction reqs using List.reverseRecOn with
  | nil => exact regsOk_init dev.crtc regs
  | append_singleton reqs req ih =>
    rw [kmsRun_append]
    exact regsOk_commit hout (kmsOk_run dev regs reqs) ih req

omit hout in
theorem vc5HvsGetFifoFromOutput_eq (regs : HvsRegs) {o : ℕ} (ho : o ∈ [3, 4, 5]) :
    vc5HvsGetFifoFromOutput regs o = if regs.mux o = 3 then none else some (regs.mux o) := by
  have hout : o = 3 ∨ o = 4 ∨ o = 5 := by simpa using ho
  rcases hout with rfl | rfl | rfl <;> rfl

/-- The FIFO of an enabled pixelvalve of a BCM2711 in the hardware is the channel that it was given,
and those of disabled ones that have a mux are off. -/
theorem hvs_routing_run (regs : HvsRegs) (reqs : List (AtomicState ι π)) :
    let s := kmsRun dev regs reqs
    s.regs.warned = false ∧ ∀ c, dev.crtc c ∈ bcm2711Pixelvalves →
      ((s.crtc c).enable = true → vc5HvsGetFifoFromOutput s.regs (dev.crtc c).hvsOutput =
        some (s.crtc c).assignedChannel) ∧
      ((s.crtc c).enable = false → 2 < (dev.crtc c).hvsOutput →
        vc5HvsGetFifoFromOutput s.regs (dev.crtc c).hvsOutput = none) := by
  intro s
  have h := (kmsOk_run dev regs reqs).channels
  have hregs := regsOk_run hout regs reqs
  refine ⟨hregs.warned, fun c hc => ?_⟩
  have hmux : (dev.crtc c).hvsOutput ∈ [3, 4, 5] →
      vc5HvsGetFifoFromOutput s.regs (dev.crtc c).hvsOutput =
        if (s.crtc c).target = 3 then none else some (s.crtc c).target := by
    intro ho
    rw [vc5HvsGetFifoFromOutput_eq _ ho, hregs.mux c ho]
  have htable : ∀ data ∈ bcm2711Pixelvalves, data.hvsOutput ∈ [3, 4, 5] ∨
      data.hvsOutput < 2 ∧ data.hvsAvailableChannels = 2 ^ data.hvsOutput := by
    decide
  constructor
  · intro hen
    obtain ⟨hlt, hbit⟩ := h.allowed c hen
    have htarget : (s.crtc c).target = (s.crtc c).assignedChannel :=
      if_neg (hlt.trans (by decide)).ne
    obtain ho | ⟨hlow, hmask⟩ := htable _ hc
    · rw [hmux ho, htarget, if_neg (hlt.trans_le (by decide)).ne]
    · -- the outputs that are wired to one FIFO
      rw [hmask, Nat.testBit_two_pow, decide_eq_true_eq] at hbit
      rw [← hbit]
      interval_cases (dev.crtc c).hvsOutput <;> rfl
  · intro hdis hhigh
    have htarget : (s.crtc c).target = 3 := if_pos (h.idle c hdis)
    obtain ho | ⟨hlow, -⟩ := htable _ hc
    · rw [hmux ho, htarget, if_pos rfl]
    · omega

end Runs

/-- A display on pixelvalve 2, then two more, then the first one goes and pixelvalve 0 gets its
channel. -/
theorem hvs_routing_run_bcm2711 :
    let s := kmsRun bcm2711 ⟨0, 0, 0, 0, false⟩
      [enableAll [2], enableAll [1, 4], disableAll [2], enableAll [0]]
    (vc5HvsGetFifoFromOutput s.regs 0, vc5HvsGetFifoFromOutput s.regs 4) = (some 0, none) ∧
      ((s.crtc 4).enable = true → vc5HvsGetFifoFromOutput s.regs 5 = some (s.crtc 4).assignedChannel) :=
  ⟨by decide +kernel, ((@hvs_routing_run _ _ _ bcm2711 (by decide) _ _).2 4 (by decide)).1⟩

end KernelModules
