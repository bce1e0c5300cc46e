import KernelModules.FixedWidth
import KernelModules.Interleaving
import Mathlib.Data.List.Nodup
import Mathlib.Data.List.Perm.Basic
import Mathlib.Data.List.Range

/-!
# The fences of virtio-gpu

A command may carry a fence, which is given the next number when the command is queued
(`virtio_gpu_fence_emit`). The response to the command brings the number back, and
`virtio_gpu_fence_event_process` signals the fence and those before it on the same timeline
(`dma_fence` context). The commands of different timelines are answered in any order.

The parties of the interleaving are the threads that queue commands and the work function that reads
the responses; both take the lock of the fences for the whole step. The host may send any number,
one that was answered before or one that no fence has.

A fence is signaled exactly if some response so far was to a fence of its timeline that is not before
it; each fence is signaled once, and those of a timeline in the order of their numbers
(`fences_exact`).
-/

namespace KernelModules

open Interleaving

/-! ## The code -/

/-- `struct virtio_gpu_fence`. `seqno` of the `dma_fence` is `fenceId`; `e` is whether there is an
event to be sent. -/
structure GpuFence where
  context : ℕ
  fenceId : ℕ
  e : Bool
deriving DecidableEq, Repr

/-- `dma_fence_is_later` of two numbers on one timeline. -/
structure FenceOps where
  dmaFenceIsLater : ℕ → ℕ → Bool

/-- Numbers that are not far apart are compared as such. -/
def FenceOps.Documented (ops : FenceOps) : Prop :=
  ∀ a b, a < b + 2 ^ 31 → b < a + 2 ^ 31 → (ops.dmaFenceIsLater a b = true ↔ b < a)

/-- `struct virtio_gpu_fence_driver`, with what has happened so far : the fences that were emitted,
those that a response was for, those that were signaled, the events that were sent, and the
references that were given back. -/
structure FenceDriver where
  lastFenceId : ℕ := 0
  currentFenceId : ℕ := 0
  fences : List GpuFence := []
  emitted : List GpuFence := []
  answered : List GpuFence := []
  signaled : List GpuFence := []
  sent : List GpuFence := []
  put : List GpuFence := []

/-- `dma_fence_signal_locked`, the event, and `dma_fence_put`. -/
def FenceDriver.signal (s : FenceDriver) (curr : GpuFence) : FenceDriver :=
  { s with
    signaled := s.signaled ++ [curr]
    sent := if curr.e then s.sent ++ [curr] else s.sent
    put := s.put ++ [curr] }

/-- `virtio_gpu_fence_emit` for a fence of a context. The list has a reference to it. -/
def virtioGpuFenceEmit (context : ℕ) (e : Bool) (s : FenceDriver) : FenceDriver :=
  let fenceId := (s.currentFenceId + 1) % 2 ^ 64
  let fence : GpuFence := ⟨context, fenceId, e⟩
  { s with
    currentFenceId := fenceId
    fences := s.fences ++ [fence]
    emitted := s.emitted ++ [fence] }

/-- The inner loop of `virtio_gpu_fence_event_process` : the fences that stay on the list, and what
is done to the others. -/
def signalEarlier (ops : FenceOps) (signaled : GpuFence) :
    List GpuFence → FenceDriver → List GpuFence × FenceDriver
  | [], s => ([], s)
  | curr :: l, s =>
    if signaled.context ≠ curr.context ∨
        ops.dmaFenceIsLater signaled.fenceId curr.fenceId = false then
      let (kept, s) := signalEarlier ops signaled l s
      (curr :: kept, s)
    else signalEarlier ops signaled l (s.signal curr)

/-- `virtio_gpu_fence_event_process` -/
def virtioGpuFenceEventProcess (ops : FenceOps) (fenceId : ℕ) (s : FenceDriver) : FenceDriver :=
  let s := { s with
    lastFenceId := fenceId
    answered := s.answered ++ (s.emitted.find? fun curr => fenceId = curr.fenceId).toList }
  match s.fences.find? fun curr => fenceId = curr.fenceId with
  | none => s
  | some signaled =>
    let (kept, s) := signalEarlier ops signaled s.fences s
    { s with fences := kept.erase signaled }.signal signaled

/-- A thread queues a command with a fence, or a response arrives. -/
inductive FenceAct where
  | emit (context : ℕ) (e : Bool)
  | event (fenceId : ℕ)
deriving DecidableEq, Repr

/-- A step of one of them. -/
def fenceStep (ops : FenceOps) : FenceAct → FenceDriver → Option FenceDriver
  | .emit context e, s => some (virtioGpuFenceEmit context e s)
  | .event fenceId, s => some (virtioGpuFenceEventProcess ops fenceId s)

/-- The numbers do not run out, and the oldest fence on the list is not far behind the newest. -/
def FenceClient : FenceAct → FenceDriver → Prop
  | .emit .., s => s.currentFenceId + 1 < 2 ^ 64 ∧
      ∀ f ∈ s.fences, s.currentFenceId + 1 < f.fenceId + 2 ^ 31
  | .event _, _ => True

instance (a : FenceAct) (s : FenceDriver) : Decidable (FenceClient a s) :=
  match a with
  | .emit .. => inferInstanceAs (Decidable (_ ∧ ∀ f ∈ s.fences, _ < f.fenceId + 2 ^ 31))
  | .event _ => isTrue trivial

/-! ## The loop -/

/-- The fence is an earlier one of the same timeline. -/
def GpuFence.Earlier (f signaled : GpuFence) : Prop :=
  signaled.context = f.context ∧ f.fenceId < signaled.fenceId

instance (f signaled : GpuFence) : Decidable (f.Earlier signaled) :=
  inferInstanceAs (Decidable (_ ∧ _))

section Loop

variable {ops : FenceOps} (hops : ops.Documented) {sig : GpuFence}

include hops

/-- The loop signals the earlier fences, in order, and keeps the others. -/
theorem signalEarlier_eq : ∀ {l : List GpuFence} (s : FenceDriver),
    (∀ f ∈ l, sig.fenceId < f.fenceId + 2 ^ 31 ∧ f.fenceId < sig.fenceId + 2 ^ 31) →
    signalEarlier ops sig l s =
      (l.filter fun f => !decide (f.Earlier sig),
        { s with
          signaled := s.signaled ++ l.filter fun f => decide (f.Earlier sig)
          sent := s.sent ++ (l.filter fun f => decide (f.Earlier sig)).filter GpuFence.e
          put := s.put ++ l.filter fun f => decide (f.Earlier sig) })
  | [], s, _ => by simp [signalEarlier]
  | curr :: l, s, hl => by
    obtain ⟨hlt, hlt'⟩ := hl curr List.mem_cons_self
    have hlater := hops _ _ hlt hlt'
    have hrest := fun s => signalEarlier_eq (l := l) s fun f hf => hl f (List.mem_cons_of_mem _ hf)
    unfold signalEarlier
    split_ifs with hstay
    · have hkeep : ¬ curr.Earlier sig := by
        rintro ⟨hctx, hearlier⟩
        rw [← hlater] at hearlier
        rcases hstay with hne | hno
        · exact hne hctx
        · rw [hearlier] at hno
          cases hno
      rw [hrest]
      simp [hkeep]
    · rw [not_or, not_ne_iff, Bool.not_eq_false, hlater] at hstay
      have hgo : curr.Earlier sig := hstay
      rw [hrest]
      cases he : curr.e <;> simp [hgo, FenceDriver.signal, he]

end Loop

/-- The earlier fences of a pending one are signaled, and then the fence itself. -/
def signalUpTo (sig : GpuFence) (s : FenceDriver) : FenceDriver :=
  let go := s.fences.filter fun f => decide (f.Earlier sig)
  { s with
    lastFenceId := sig.fenceId
    answered := s.answered ++ [sig]
    fences := (s.fences.filter fun f => !decide (f.Earlier sig)).erase sig
    signaled := s.signaled ++ go ++ [sig]
    sent := s.sent ++ go.filter GpuFence.e ++ [sig].filter GpuFence.e
    put := s.put ++ go ++ [sig] }

/-! ## The invariant -/

/-- What holds between the steps. -/
structure FenceInv (s : FenceDriver) : Prop where
  ids : s.emitted.map GpuFence.fenceId = List.range' 1 s.currentFenceId
  sub : s.fences.Sublist s.emitted
  perm : (s.fences ++ s.signaled).Perm s.emitted
  inorder : s.signaled.Pairwise fun f g => f.context = g.context → f.fenceId < g.fenceId
  before : ∀ f ∈ s.signaled, ∀ g ∈ s.fences, f.context = g.context → f.fenceId < g.fenceId
  answered : ∀ g ∈ s.answered, g ∈ s.emitted
  signaled_iff : ∀ f ∈ s.emitted, f ∈ s.signaled ↔
    ∃ g ∈ s.answered, g.context = f.context ∧ f.fenceId ≤ g.fenceId
  sent : s.sent = s.signaled.filter GpuFence.e
  put : s.put = s.signaled
  span : ∀ f ∈ s.fences, s.currentFenceId < f.fenceId + 2 ^ 31

namespace FenceInv

variable {s : FenceDriver}

theorem sorted (h : FenceInv s) : s.emitted.Pairwise fun f g => f.fenceId < g.fenceId := by
  rw [← List.pairwise_map (f := GpuFence.fenceId) (R := (· < ·)), h.ids]
  exact List.pairwise_lt_range'

theorem le_current (h : FenceInv s) {f : GpuFence} (hf : f ∈ s.emitted) :
    f.fenceId ≤ s.currentFenceId := by
  have hmem := List.mem_map_of_mem (f := GpuFence.fenceId) hf
  rw [h.ids, List.mem_range'_1] at hmem
  omega

theorem eq_of_fenceId (h : FenceInv s) {f g : GpuFence} (hf : f ∈ s.emitted) (hg : g ∈ s.emitted)
    (heq : f.fenceId = g.fenceId) : f = g := by
  have hnodup : (s.emitted.map GpuFence.fenceId).Nodup := by
    rw [h.ids]
    exact List.nodup_range'
  exact List.inj_on_of_nodup_map hnodup hf hg heq

theorem mem_emitted_iff (h : FenceInv s) (f : GpuFence) :
    f ∈ s.emitted ↔ f ∈ s.fences ∨ f ∈ s.signaled := by
  rw [← h.perm.mem_iff, List.mem_append]

/-- The fence with a number is the one that was given it. -/
theorem find?_emitted (h : FenceInv s) {n : ℕ} {f : GpuFence} (hf : f ∈ s.emitted)
    (hn : n = f.fenceId) : (s.emitted.find? fun curr => n = curr.fenceId) = some f := by
  cases hfind : s.emitted.find? fun curr => n = curr.fenceId with
  | none =>
    rw [List.find?_eq_none] at hfind
    exact absurd (decide_eq_true hn) (hfind f hf)
  | some g =>
    have hg := List.find?_some hfind
    rw [h.eq_of_fenceId (List.mem_of_find?_eq_some hfind) hf ((of_decide_eq_true hg).symm.trans hn)]

theorem emit (h : FenceInv s) {context : ℕ} {e : Bool} (hclient : FenceClient (.emit context e) s) :
    FenceInv (virtioGpuFenceEmit context e s) := by
  obtain ⟨hlast, hspan⟩ := hclient
  unfold virtioGpuFenceEmit
  dsimp only
  rw [Nat.mod_eq_of_lt hlast]
  have hnew : ∀ f ∈ s.emitted, f.fenceId < s.currentFenceId + 1 := fun f hf =>
    Nat.lt_succ_of_le (h.le_current hf)
  have hsig : ∀ f ∈ s.signaled, f ∈ s.emitted := fun f hf => (h.mem_emitted_iff f).2 (Or.inr hf)
  exact { h with
    ids := by
      rw [List.map_append, h.ids, List.range'_concat]
      simp [Nat.add_comm]
    sub := h.sub.append (List.Sublist.refl _)
    perm := by
      refine List.Perm.trans ?_ (h.perm.append_right _)
      rw [List.append_assoc, List.append_assoc]
      exact List.perm_append_comm.append_left _
    before := by
      intro f hf g hg hctx
      rcases List.mem_append.1 hg with hg | hg
      · exact h.before f hf g hg hctx
      · obtain rfl := List.mem_singleton.1 hg
        exact hnew f (hsig f hf)
    answered := fun g hg => List.mem_append_left _ (h.answered g hg)
    signaled_iff := by
      intro f hf
      rcases List.mem_append.1 hf with hf | hf
      · exact h.signaled_iff f hf
      · obtain rfl := List.mem_singleton.1 hf
        refine iff_of_false (fun hmem => ?_) ?_
        · exact Nat.lt_irrefl _ (hnew _ (hsig _ hmem))
        · rintro ⟨g, hg, -, hle⟩
          exact Nat.not_le.2 (hnew g (h.answered g hg)) hle
    span := by
      intro f hf
      rcases List.mem_append.1 hf with hf | hf
      · exact hspan f hf
      · obtain rfl := List.mem_singleton.1 hf
        exact Nat.lt_add_of_pos_right (by decide) }

section Event

variable {sig : GpuFence}

/-- What a response does : nothing to the fences, or it signals up to the fence with its number. -/
theorem eventProcess_cases {ops : FenceOps} (hops : ops.Documented) (h : FenceInv s) (n : ℕ) :
    ((∀ f ∈ s.fences, f.fenceId ≠ n) ∧ ∃ l, (∀ g ∈ l, g ∈ s.signaled) ∧
      virtioGpuFenceEventProcess ops n s =
        { s with lastFenceId := n, answered := s.answered ++ l }) ∨
    ∃ sig ∈ s.fences, virtioGpuFenceEventProcess ops n s = signalUpTo sig s := by
  have hsub := fun f hf => h.sub.subset (a := f) hf
  unfold virtioGpuFenceEventProcess
  dsimp only
  split
  · next hnone =>
    have hno : ∀ f ∈ s.fences, f.fenceId ≠ n := fun f hf heq =>
      List.find?_eq_none.1 hnone f hf (decide_eq_true heq.symm)
    refine Or.inl ⟨hno, _, fun g hg => ?_, rfl⟩
    rw [Option.mem_toList] at hg
    have hn := List.find?_some hg
    refine ((h.mem_emitted_iff g).1 (List.mem_of_find?_eq_some hg)).resolve_left fun hmem => ?_
    exact hno g hmem (of_decide_eq_true hn).symm
  · next sig hsome =>
    have hmem := List.mem_of_find?_eq_some hsome
    have hfound := List.find?_some hsome
    have hn : n = sig.fenceId := of_decide_eq_true hfound
    refine Or.inr ⟨sig, hmem, ?_⟩
    have hrange : ∀ f ∈ s.fences,
        sig.fenceId < f.fenceId + 2 ^ 31 ∧ f.fenceId < sig.fenceId + 2 ^ 31 := fun f hf =>
      ⟨(h.le_current (hsub sig hmem)).trans_lt (h.span f hf),
        (h.le_current (hsub f hf)).trans_lt (h.span sig hmem)⟩
    rw [h.find?_emitted (hsub sig hmem) hn, signalEarlier_eq hops _ hrange, hn]
    cases he : sig.e <;> simp [signalUpTo, FenceDriver.signal, he]

theorem nodup (h : FenceInv s) : s.emitted.Nodup :=
  h.sorted.imp fun hlt heq => absurd (congrArg GpuFence.fenceId heq) hlt.ne

/-- A fence that stays on the list when an earlier one of its timeline goes is after it. -/
theorem lt_of_mem_kept (h : FenceInv s) (hsig : sig ∈ s.fences) {g : GpuFence}
    (hg : g ∈ (s.fences.filter fun f => !decide (f.Earlier sig)).erase sig)
    (hctx : sig.context = g.context) : sig.fenceId < g.fenceId := by
  have hnodup := (h.sub.nodup h.nodup).filter fun f => !decide (f.Earlier sig)
  obtain ⟨hne, hg⟩ := (hnodup.mem_erase_iff).1 hg
  obtain ⟨hmem, hkeep⟩ := List.mem_filter.1 hg
  have hle : sig.fenceId ≤ g.fenceId := by
    by_contra hlt
    have hgo : g.Earlier sig := ⟨hctx, Nat.not_le.1 hlt⟩
    simp [hgo] at hkeep
  refine lt_of_le_of_ne hle fun heq => hne ?_
  exact (h.eq_of_fenceId (h.sub.subset hsig) (h.sub.subset hmem) heq).symm

/-- The fences that a response is to, and the earlier ones of its timeline, go from the list. -/
theorem perm_signalUpTo (h : FenceInv s) (hsig : sig ∈ s.fences) :
    ((signalUpTo sig s).fences ++ (signalUpTo sig s).signaled).Perm s.emitted := by
  have hkeep : sig ∈ s.fences.filter fun f => !decide (f.Earlier sig) := by
    rw [List.mem_filter]
    exact ⟨hsig, by simp [GpuFence.Earlier]⟩
  refine List.Perm.trans ?_ h.perm
  rw [List.perm_iff_count]
  intro f
  have herase := (List.perm_cons_erase hkeep).count_eq f
  have hsplit := (List.filter_append_perm (fun f => decide (f.Earlier sig)) s.fences).count_eq f
  simp only [List.count_append, List.count_cons] at herase hsplit
  simp only [signalUpTo, List.count_append, List.count_cons, List.count_nil]
  omega

theorem mem_signaled_signalUpTo {f : GpuFence} : f ∈ (signalUpTo sig s).signaled ↔
    f ∈ s.signaled ∨ (f ∈ s.fences ∧ f.Earlier sig) ∨ f = sig := by
  simp [signalUpTo]

theorem inorder_signalUpTo (h : FenceInv s) (hsig : sig ∈ s.fences) :
    (signalUpTo sig s).signaled.Pairwise fun f g =>
      f.context = g.context → f.fenceId < g.fenceId := by
  have hgo : (s.fences.filter fun f => decide (f.Earlier sig)).Pairwise fun f g =>
      f.context = g.context → f.fenceId < g.fenceId := by
    refine ((h.sorted.sublist h.sub).filter _).imp ?_
    intro f g hlt _
    exact hlt
  unfold signalUpTo
  dsimp only
  rw [List.append_assoc, List.pairwise_append, List.pairwise_append]
  refine ⟨h.inorder, ⟨hgo, List.pairwise_singleton _ _, ?_⟩, ?_⟩
  · intro f hf g hg _
    obtain rfl := List.mem_singleton.1 hg
    exact (of_decide_eq_true (List.mem_filter.1 hf).2).2
  · intro f hf g hg hctx
    rcases List.mem_append.1 hg with hg | hg
    · exact h.before f hf g (List.mem_filter.1 hg).1 hctx
    · obtain rfl := List.mem_singleton.1 hg
      exact h.before f hf g hsig hctx

theorem signalUpTo (h : FenceInv s) (hsig : sig ∈ s.fences) :
    FenceInv (KernelModules.signalUpTo sig s) := by
  have hemitted := h.sub.subset hsig
  have hkept : (KernelModules.signalUpTo sig s).fences.Sublist s.fences :=
    List.erase_sublist.trans List.filter_sublist
  refine ⟨h.ids, hkept.trans h.sub, h.perm_signalUpTo hsig, h.inorder_signalUpTo hsig,
    fun f hf g hg hctx => ?_, fun g hg => ?_, fun f hf => ?_, ?_, ?_,
    fun f hf => h.span f (hkept.subset hf)⟩
  · rcases mem_signaled_signalUpTo.1 hf with hf | ⟨-, hgo⟩ | rfl
    · exact h.before f hf g (hkept.subset hg) hctx
    · exact hgo.2.trans (h.lt_of_mem_kept hsig hg (hgo.1.trans hctx))
    · exact h.lt_of_mem_kept hsig hg hctx
  · rcases List.mem_append.1 hg with hg | hg
    · exact h.answered g hg
    · exact List.mem_singleton.1 hg ▸ hemitted
  · rw [mem_signaled_signalUpTo, h.signaled_iff f hf]
    constructor
    · rintro (⟨g, hg, hle⟩ | ⟨-, hgo⟩ | rfl)
      · exact ⟨g, List.mem_append_left _ hg, hle⟩
      · exact ⟨sig, List.mem_append_right _ (List.mem_singleton_self _), hgo.1, hgo.2.le⟩
      · exact ⟨f, List.mem_append_right _ (List.mem_singleton_self _), rfl, le_rfl⟩
    · rintro ⟨g, hg, hctx, hle⟩
      rcases List.mem_append.1 hg with hg | hg
      · exact Or.inl ⟨g, hg, hctx, hle⟩
      obtain rfl := List.mem_singleton.1 hg
      rcases hle.lt_or_eq with hlt | heq
      · rw [← h.signaled_iff f hf]
        rcases (h.mem_emitted_iff f).1 hf with hmem | hmem
        · exact Or.inr (Or.inl ⟨hmem, hctx, hlt⟩)
        · exact Or.inl hmem
      · exact Or.inr (Or.inr (h.eq_of_fenceId hf hemitted heq))
  · unfold KernelModules.signalUpTo
    dsimp only
    rw [h.sent, List.filter_append, List.filter_append]
  · unfold KernelModules.signalUpTo
    dsimp only
    rw [h.put]

end Event

theorem step {ops : FenceOps} (hops : ops.Documented) (h : FenceInv s) {a : FenceAct}
    (hclient : FenceClient a s) {s' : FenceDriver} (hstep : fenceStep ops a s = some s') :
    FenceInv s' := by
  cases a with
  | emit context e =>
    obtain rfl := Option.some.inj hstep
    exact h.emit hclient
  | event n =>
    obtain rfl := Option.some.inj hstep
    rcases h.eventProcess_cases hops n with ⟨-, l, hl, heq⟩ | ⟨sig, hsig, heq⟩
    · rw [heq]
      refine { h with answered := fun g hg => ?_, signaled_iff := fun f hf => ?_ }
      · rcases List.mem_append.1 hg with hg | hg
        · exact h.answered g hg
        · exact (h.mem_emitted_iff g).2 (Or.inr (hl g hg))
      · rw [h.signaled_iff f hf]
        constructor
        · rintro ⟨g, hg, hle⟩
          exact ⟨g, List.mem_append_left _ hg, hle⟩
        · rintro ⟨g, hg, hctx, hle⟩
          rcases List.mem_append.1 hg with hg | hg
          · exact ⟨g, hg, hctx, hle⟩
          -- A fence that is answered once more was signaled by an answer before.
          have hsig := hl g hg
          have hemitted := (h.mem_emitted_iff g).2 (Or.inr hsig)
          obtain ⟨g', hg', hctx', hle'⟩ := (h.signaled_iff g hemitted).1 hsig
          exact ⟨g', hg', hctx'.trans hctx, hle.trans hle'⟩
    · rw [heq]
      exact h.signalUpTo hsig

theorem init : FenceInv {} where
  ids := rfl
  sub := List.Sublist.refl _
  perm := List.Perm.refl _
  inorder := List.Pairwise.nil
  before := fun _ hf => absurd hf List.not_mem_nil
  answered := fun _ hg => absurd hg List.not_mem_nil
  signaled_iff := fun _ hf => absurd hf List.not_mem_nil
  sent := rfl
  put := rfl
  span := fun _ hf => absurd hf List.not_mem_nil

end FenceInv

/-! ## Whole runs -/

/-- What holds between two steps. -/
structure FencesExact (s : FenceDriver) : Prop where
  /-- Each fence that was emitted is either on the list or signaled, and no other fence is. -/
  once : (s.fences ++ s.signaled).Perm s.emitted ∧ s.emitted.Nodup
  /-- A fence is signaled when it, or a later one of its timeline, was answered. -/
  signaled_iff : ∀ f ∈ s.emitted, f ∈ s.signaled ↔
    ∃ g ∈ s.answered, g.context = f.context ∧ f.fenceId ≤ g.fenceId
  /-- The fences of one timeline are signaled in the order in which they were emitted. -/
  inorder : s.signaled.Pairwise fun f g => f.context = g.context → f.fenceId < g.fenceId
  /-- Each event is sent when its fence is signaled. -/
  sent : s.sent = s.signaled.filter GpuFence.e
  /-- The reference of the list is given back once for each fence that leaves it. -/
  put : s.put = s.signaled

theorem FenceInv.exact {s : FenceDriver} (h : FenceInv s) : FencesExact s :=
  ⟨⟨h.perm, h.nodup⟩, h.signaled_iff, h.inorder, h.sent, h.put⟩

/-- In every run of threads that queue commands and of responses in any order, a fence is signaled
once, exactly when it or a later fence of its timeline was answered, and in order. -/
theorem fences_exact (ops : FenceOps) (hops : ops.Documented) (acts : List FenceAct)
    (hclient : Along (fenceStep ops) FenceClient acts {}) :
    ∀ s, runSchedule (fenceStep ops) acts {} = some s → FencesExact s := by
  intro s hrun
  have hstep : ∀ {a : FenceAct} {s s' : FenceDriver}, fenceStep ops a s = some s' →
      FenceClient a s → FenceInv s → FenceInv s' :=
    fun h hP hs => hs.step hops hP h
  exact (runSchedule_preserves_along hstep hrun hclient FenceInv.init).exact

/-- `dma_fence_is_later` on the lower halves of the numbers. -/
def fenceOps32 : FenceOps := ⟨fun a b => decide (0 < s32 ((a : ℤ) - b))⟩

theorem fenceOps32_documented : fenceOps32.Documented := by
  intro a b hab hba
  unfold fenceOps32
  rw [decide_eq_true_iff, s32_of_lt (by omega) (by omega)]
  omega

/-- Two timelines, an answer that is out of order, one that comes twice and one to no fence. -/
theorem fences_exact_outOfOrder :
    ∃ s, runSchedule (fenceStep fenceOps32)
      [.emit 7 true, .emit 9 false, .emit 7 false, .event 3, .emit 9 true, .event 1, .event 40,
        .event 4] {} = some s ∧ s.fences = [] ∧ FencesExact s :=
  ⟨_, rfl, by decide, fences_exact fenceOps32 fenceOps32_documented
    [.emit 7 true, .emit 9 false, .emit 7 false, .event 3, .emit 9 true, .event 1, .event 40,
      .event 4] (by decide) _ rfl⟩

end KernelModules
