import KernelModules.Interleaving

/-!
# Draining a virtqueue

A queue of virtio-gpu is drained by a work function. FreeBSD calls `lkpi_virtqueue_intr` on
an interrupt, which calls the driver's callback, which schedules the work. The work function
(`virtio_gpu_dequeue_ctrl_func`, `virtio_gpu_dequeue_cursor_func`) disables the interrupt,
takes buffers until there are none, and repeats that while `lkpi_virtqueue_enable_cb` returns
false. `virtqueue_enable_intr` enables the interrupt and then looks at the ring; the device
may complete a buffer between the two.

The parties of the interleaving are the device, which completes buffers and raises the
interrupt, the interrupt handler, and the worker. A schedule of them starts after
`virtio_device_ready`. The device may also raise the interrupt without need : disabling it
is a hint.

`drain_complete` : what the work function was given, followed by what is on the used ring,
is what the device completed; the worker does not sleep on a used ring that is not empty,
unless the interrupt is on its way; and at most four steps of the worker pass before it takes
the next buffer.
-/

namespace KernelModules

open Interleaving

/-! ## FreeBSD's virtqueue -/

/-- What the consumer of a virtqueue sees. `enableIntr` and `enableIntrResult` are the two
halves of `virtqueue_enable_intr`. A dequeued buffer comes with the length written to it. -/
structure BsdUsedRing (β : Type) where
  used : β → List ℕ
  intrEnabled : β → Bool
  complete : ℕ → β → β
  virtqueueDequeue : β → Option (ℕ × ℕ) × β
  virtqueueDisableIntr : β → β
  enableIntr : β → β
  enableIntrResult : β → Int

/-- What is documented : buffers are dequeued in the order in which they were used, and
`virtqueue_enable_intr` enables the interrupt and returns non-zero if buffers are pending. -/
structure BsdUsedRing.Documented {β : Type} (V : BsdUsedRing β) : Prop where
  used_complete : ∀ b v, V.used (V.complete b v) = V.used v ++ [b]
  dequeue_nil : ∀ {v}, V.used v = [] →
    (V.virtqueueDequeue v).1 = none ∧ V.used (V.virtqueueDequeue v).2 = []
  dequeue_cons : ∀ {v b l}, V.used v = b :: l →
    (∃ len, (V.virtqueueDequeue v).1 = some (b, len)) ∧ V.used (V.virtqueueDequeue v).2 = l
  used_disableIntr : ∀ v, V.used (V.virtqueueDisableIntr v) = V.used v
  used_enableIntr : ∀ v, V.used (V.enableIntr v) = V.used v
  intrEnabled_enableIntr : ∀ v, V.intrEnabled (V.enableIntr v) = true
  enableIntrResult_iff : ∀ v, V.enableIntrResult v ≠ 0 ↔ V.used v ≠ []

/-! ## The shim -/

section Shim

variable {β : Type} (V : BsdUsedRing β)

/-- `lkpi_virtqueue_get_buf`. For `none`, which is `NULL`, the length is not written. -/
def lkpiVirtqueueGetBuf (v : β) : Option (ℕ × ℕ) × β :=
  V.virtqueueDequeue v

/-- `lkpi_virtqueue_enable_cb`, given what `virtqueue_enable_intr` returns. -/
def lkpiVirtqueueEnableCb (enabled : Int) : Bool :=
  enabled == 0

/-- `lkpi_virtqueue_disable_cb` -/
def lkpiVirtqueueDisableCb (v : β) : β :=
  V.virtqueueDisableIntr v

/-- `lkpi_virtqueue_intr` -/
def lkpiVirtqueueIntr {σ : Type} (callback : Option (σ → σ)) (s : σ) : σ :=
  match callback with
  | some cb => cb s
  | none => s

/-- `lkpi_virtio_device_ready`. What `virtqueue_enable_intr` returns is ignored. -/
def lkpiVirtioDeviceReady (vqs : List β) : List β :=
  vqs.map V.enableIntr

end Shim

/-! ## The queue and its worker -/

/-- Where the work function is. `pendingCheck` is between the two halves of
`virtqueue_enable_intr`, `respond` after the loop. -/
inductive DrainPc where
  | idle
  | disableCb
  | getBuf
  | enableIntr
  | pendingCheck
  | respond
deriving DecidableEq, Repr

/-- A queue. `raised` : the interrupt is raised and its handler was not called yet.
`returned` are the buffers `lkpi_virtqueue_get_buf` returned, `reclaimList` those of them in
the current run of the work function, `handled` those it is done with. -/
structure DrainState (β : Type) where
  ring : β
  raised : Bool := false
  scheduled : Bool := false
  worker : DrainPc := .idle
  reclaimList : List ℕ := []
  returned : List ℕ := []
  handled : List ℕ := []
  completed : List ℕ := []

/-- `schedule_work` on the work of the queue. Scheduling it again while it is scheduled does
nothing; scheduled while it runs, it runs again. -/
def scheduleWork {β : Type} (s : DrainState β) : DrainState β :=
  { s with scheduled := true }

/-- `virtio_gpu_ctrl_ack` -/
def virtioGpuCtrlAck {β : Type} (s : DrainState β) : DrainState β :=
  scheduleWork s

/-- `virtio_gpu_cursor_ack` -/
def virtioGpuCursorAck {β : Type} (s : DrainState β) : DrainState β :=
  scheduleWork s

/-- The queues of the device. -/
inductive GpuQueue where
  | ctrl
  | cursor
deriving DecidableEq, Repr

/-- The callbacks in `vqs_info`. -/
def GpuQueue.callback {β : Type} : GpuQueue → Option (DrainState β → DrainState β)
  | .ctrl => some virtioGpuCtrlAck
  | .cursor => some virtioGpuCursorAck

variable {β : Type} (V : BsdUsedRing β)

/-- The next step of the worker. `none` if it is idle and no work is scheduled. -/
def workerStep (s : DrainState β) : Option (DrainState β) :=
  match s.worker with
  | .idle =>
    if s.scheduled then
      some { s with scheduled := false, worker := .disableCb, reclaimList := [] }
    else none
  | .disableCb => some { s with ring := lkpiVirtqueueDisableCb V s.ring, worker := .getBuf }
  | .getBuf =>
    -- the loop of `reclaim_vbufs`
    match lkpiVirtqueueGetBuf V s.ring with
    | (some (vbuf, _), v) => some { s with
        ring := v
        reclaimList := s.reclaimList ++ [vbuf]
        returned := s.returned ++ [vbuf] }
    | (none, v) => some { s with ring := v, worker := .enableIntr }
  | .enableIntr => some { s with ring := V.enableIntr s.ring, worker := .pendingCheck }
  | .pendingCheck =>
    -- `while (!virtqueue_enable_cb(vq))`
    if !lkpiVirtqueueEnableCb (V.enableIntrResult s.ring) then
      some { s with worker := .disableCb }
    else some { s with worker := .respond }
  | .respond =>
    some { s with handled := s.handled ++ s.reclaimList, reclaimList := [], worker := .idle }

/-- What the device, the interrupt handler and the worker can do. -/
inductive DrainAct where
  | complete (b : ℕ)
  | raise
  | deliver
  | work
deriving DecidableEq, Repr

/-- A step of one of them; none if there is nothing to do. -/
def drainStep (q : GpuQueue) : DrainAct → DrainState β → Option (DrainState β)
  | .complete b, s => some { s with
      ring := V.complete b s.ring
      raised := s.raised || V.intrEnabled s.ring
      completed := s.completed ++ [b] }
  | .raise, s => some { s with raised := true }
  | .deliver, s =>
    if s.raised then some (lkpiVirtqueueIntr q.callback { s with raised := false }) else none
  | .work, s => workerStep V s

/-! ## What a step does -/

/-- The steps of the worker, in terms of the used ring. -/
inductive WorkerMove (s : DrainState β) : DrainState β → Prop where
  | start (hpc : s.worker = .idle) (hs : s.scheduled = true) :
    WorkerMove s { s with scheduled := false, worker := .disableCb, reclaimList := [] }
  | disable (hpc : s.worker = .disableCb) (v : β) (hv : V.used v = V.used s.ring) :
    WorkerMove s { s with ring := v, worker := .getBuf }
  | take (hpc : s.worker = .getBuf) (b : ℕ) (v : β) (hv : V.used s.ring = b :: V.used v) :
    WorkerMove s { s with
      ring := v
      reclaimList := s.reclaimList ++ [b]
      returned := s.returned ++ [b] }
  | empty (hpc : s.worker = .getBuf) (v : β) (hs : V.used s.ring = []) (hv : V.used v = []) :
    WorkerMove s { s with ring := v, worker := .enableIntr }
  | enable (hpc : s.worker = .enableIntr) (v : β) (hv : V.used v = V.used s.ring)
    (hi : V.intrEnabled v = true) : WorkerMove s { s with ring := v, worker := .pendingCheck }
  | again (hpc : s.worker = .pendingCheck) (hs : V.used s.ring ≠ []) :
    WorkerMove s { s with worker := .disableCb }
  | leave (hpc : s.worker = .pendingCheck) (hs : V.used s.ring = []) :
    WorkerMove s { s with worker := .respond }
  | respond (hpc : s.worker = .respond) :
    WorkerMove s { s with
      handled := s.handled ++ s.reclaimList
      reclaimList := []
      worker := .idle }

variable {V}

theorem lkpiVirtqueueEnableCb_iff (hV : V.Documented) (v : β) :
    lkpiVirtqueueEnableCb (V.enableIntrResult v) = true ↔ V.used v = [] := by
  rw [lkpiVirtqueueEnableCb, beq_iff_eq]
  exact not_iff_not.1 (hV.enableIntrResult_iff v)

theorem workerMove_of_step (hV : V.Documented) {s s' : DrainState β}
    (h : workerStep V s = some s') : WorkerMove V s s' := by
  unfold workerStep at h
  split at h
  · next hpc =>
    split at h
    · next hs =>
      obtain rfl := Option.some.inj h
      exact .start hpc hs
    · simp at h
  · next hpc =>
    obtain rfl := Option.some.inj h
    exact .disable hpc _ (hV.used_disableIntr _)
  · next hpc =>
    unfold lkpiVirtqueueGetBuf at h
    rcases hdeq : V.virtqueueDequeue s.ring with ⟨r, v⟩
    rw [hdeq] at h
    cases hu : V.used s.ring with
    | nil =>
      obtain ⟨hnone, hv⟩ := hV.dequeue_nil hu
      rw [hdeq] at hnone hv
      obtain rfl : r = none := hnone
      obtain rfl := Option.some.inj h
      exact .empty hpc v hu hv
    | cons b l =>
      obtain ⟨⟨len, hsome⟩, hv⟩ := hV.dequeue_cons hu
      rw [hdeq] at hsome hv
      obtain rfl : r = some (b, len) := hsome
      obtain rfl := Option.some.inj h
      exact .take hpc b v (hu.trans (congrArg _ hv.symm))
  · next hpc =>
    obtain rfl := Option.some.inj h
    exact .enable hpc _ (hV.used_enableIntr _) (hV.intrEnabled_enableIntr _)
  · next hpc =>
    have hcb := lkpiVirtqueueEnableCb_iff hV s.ring
    split at h
    · next hpending =>
      obtain rfl := Option.some.inj h
      exact .again hpc fun hu => by simp [hcb.2 hu] at hpending
    · next hdone =>
      obtain rfl := Option.some.inj h
      exact .leave hpc (hcb.1 (by simpa using hdone))
  · next hpc =>
    obtain rfl := Option.some.inj h
    exact .respond hpc

/-- Delivering the interrupt schedules the work, on either queue. -/
theorem drainStep_deliver {q : GpuQueue} {s s' : DrainState β}
    (h : drainStep V q .deliver s = some s') :
    s.raised = true ∧ s' = { s with raised := false, scheduled := true } := by
  simp only [drainStep] at h
  split at h
  · next hr =>
    obtain rfl := Option.some.inj h
    cases q <;> exact ⟨hr, rfl⟩
  · simp at h

/-! ## Every interleaving -/

/-- The worker has enabled the interrupt and not disabled it since. -/
def DrainPc.Armed (pc : DrainPc) : Prop :=
  pc = .pendingCheck ∨ pc = .respond ∨ pc = .idle

/-- The invariant of the queue. Once the worker is past the check, buffers on the used ring
have an interrupt or a run of the work function to come; to keep that, the interrupt is
enabled as long as neither is to come. -/
structure DrainInv (V : BsdUsedRing β) (s : DrainState β) : Prop where
  conserved : s.returned ++ V.used s.ring = s.completed
  reclaimed : s.handled ++ s.reclaimList = s.returned
  idle : s.worker = .idle → s.reclaimList = []
  armed : s.worker.Armed → V.intrEnabled s.ring = true ∨ s.raised = true ∨ s.scheduled = true
  owed : s.worker = .respond ∨ s.worker = .idle → V.used s.ring ≠ [] →
    s.raised = true ∨ s.scheduled = true

theorem DrainInv.workerMove {s s' : DrainState β} (h : DrainInv V s) (hm : WorkerMove V s s') :
    DrainInv V s' := by
  cases hm with
  | start hpc hs =>
    have hrec := h.reclaimed
    rw [h.idle hpc] at hrec
    exact ⟨h.conserved, hrec, fun _ => rfl, by simp [DrainPc.Armed], by simp⟩
  | disable hpc v hv =>
    exact ⟨by simpa [hv] using h.conserved, h.reclaimed, by simp, by simp [DrainPc.Armed], by simp⟩
  | take hpc b v hv =>
    have hcons := h.conserved
    rw [hv] at hcons
    refine ⟨by simpa using hcons, ?_, by simp [hpc], by simp [DrainPc.Armed, hpc], by simp [hpc]⟩
    rw [← List.append_assoc, h.reclaimed]
  | empty hpc v hs hv =>
    have hcons := h.conserved
    rw [hs, ← hv] at hcons
    exact ⟨hcons, h.reclaimed, by simp, by simp [DrainPc.Armed], by simp⟩
  | enable hpc v hv hi =>
    exact ⟨by simpa [hv] using h.conserved, h.reclaimed, by simp, fun _ => Or.inl hi, by simp⟩
  | again hpc hs =>
    exact ⟨h.conserved, h.reclaimed, by simp, by simp [DrainPc.Armed], by simp⟩
  | leave hpc hs =>
    exact ⟨h.conserved, h.reclaimed, by simp, fun _ => h.armed (Or.inl hpc),
      fun _ hu => absurd hs hu⟩
  | respond hpc =>
    refine ⟨h.conserved, ?_, fun _ => rfl, fun _ => h.armed (Or.inr (Or.inl hpc)),
      fun _ => h.owed (Or.inl hpc)⟩
    rw [List.append_nil, h.reclaimed]

theorem DrainInv.step (hV : V.Documented) {q : GpuQueue} {a : DrainAct} {s s' : DrainState β}
    (ha : drainStep V q a s = some s') (h : DrainInv V s) : DrainInv V s' := by
  cases a with
  | complete b =>
    obtain rfl := Option.some.inj ha
    -- with the interrupt enabled the completion raises it, otherwise one was owed before
    have howed : s.worker.Armed → (s.raised || V.intrEnabled s.ring) = true ∨
        s.scheduled = true := by
      intro hpc
      rcases h.armed hpc with h | h | h <;> simp [h]
    refine ⟨?_, h.reclaimed, h.idle, fun hpc => Or.inr (howed hpc), fun hpc _ => ?_⟩
    · rw [hV.used_complete, ← List.append_assoc, h.conserved]
    · exact howed (Or.inr hpc)
  | raise =>
    obtain rfl := Option.some.inj ha
    exact ⟨h.conserved, h.reclaimed, h.idle, fun _ => Or.inr (Or.inl rfl), fun _ _ => Or.inl rfl⟩
  | deliver =>
    obtain ⟨-, rfl⟩ := drainStep_deliver ha
    exact ⟨h.conserved, h.reclaimed, h.idle, fun _ => Or.inr (Or.inr rfl), fun _ _ => Or.inr rfl⟩
  | work => exact h.workerMove (workerMove_of_step hV ha)

/-- After `virtio_device_ready`, with no command outstanding. -/
theorem drainInv_ready (hV : V.Documented) {vqs : List β} (hfresh : ∀ v ∈ vqs, V.used v = [])
    {v : β} (hv : v ∈ lkpiVirtioDeviceReady V vqs) : DrainInv V { ring := v } := by
  obtain ⟨v₀, hv₀, rfl⟩ := List.mem_map.1 hv
  have hused : V.used (V.enableIntr v₀) = [] := (hV.used_enableIntr v₀).trans (hfresh v₀ hv₀)
  exact ⟨hused, rfl, fun _ => rfl, fun _ => Or.inl (hV.intrEnabled_enableIntr v₀),
    fun _ hu => absurd hused hu⟩

/-! ## Progress -/

/-- How far the worker is on its way to the next buffer, if there is one. -/
def DrainPc.progress : DrainPc → ℕ
  | .enableIntr => 0
  | .pendingCheck => 1
  | .respond => 0
  | .idle => 1
  | .disableCb => 2
  | .getBuf => 3

/-- The steps of the worker until `n` buffers are returned, at most. -/
def DrainState.rank (n : ℕ) (s : DrainState β) : ℕ :=
  4 * (n - s.returned.length) - s.worker.progress

theorem DrainPc.progress_lt (pc : DrainPc) : pc.progress < 4 := by
  cases pc <;> decide

/-- The device and the interrupt handler leave the worker and what it was given alone. -/
theorem drainStep_frame {q : GpuQueue} {a : DrainAct} {s s' : DrainState β}
    (ha : drainStep V q a s = some s') (hne : a ≠ .work) :
    s'.worker = s.worker ∧ s'.returned = s.returned ∧ s.completed <+: s'.completed := by
  cases a with
  | complete b =>
    obtain rfl := Option.some.inj ha
    exact ⟨rfl, rfl, List.prefix_append _ _⟩
  | raise =>
    obtain rfl := Option.some.inj ha
    exact ⟨rfl, rfl, List.prefix_rfl⟩
  | deliver =>
    obtain ⟨-, rfl⟩ := drainStep_deliver ha
    exact ⟨rfl, rfl, List.prefix_rfl⟩
  | work => exact absurd rfl hne

/-- Nothing is taken back. -/
theorem prefix_of_step (hV : V.Documented) {q : GpuQueue} {a : DrainAct} {s s' : DrainState β}
    (ha : drainStep V q a s = some s') :
    s.returned <+: s'.returned ∧ s.completed <+: s'.completed := by
  by_cases hwork : a = .work
  · subst hwork
    cases workerMove_of_step hV ha with
    | take => exact ⟨List.prefix_append _ _, List.prefix_rfl⟩
    | _ => exact ⟨List.prefix_rfl, List.prefix_rfl⟩
  · obtain ⟨-, hreturned, hcompleted⟩ := drainStep_frame ha hwork
    exact ⟨hreturned ▸ List.prefix_rfl, hcompleted⟩

/-- While one of the first `n` completed buffers is on the used ring, a step of the worker
brings it nearer. -/
theorem rank_workerMove {n : ℕ} {s s' : DrainState β} (h : DrainInv V s)
    (hn : n ≤ s.completed.length) (hlt : s.returned.length < n) (hm : WorkerMove V s s') :
    s'.rank n + 1 ≤ s.rank n := by
  have hused : V.used s.ring ≠ [] := by
    intro hu
    have hcons := h.conserved
    rw [hu, List.append_nil] at hcons
    rw [hcons] at hlt
    omega
  unfold DrainState.rank
  cases hm with
  | start hpc hs =>
    simp only [hpc, DrainPc.progress]
    omega
  | disable hpc v hv =>
    simp only [hpc, DrainPc.progress]
    omega
  | take hpc b v hv =>
    simp only [hpc, DrainPc.progress, List.length_append, List.length_singleton]
    omega
  | empty hpc v hs hv => exact absurd hs hused
  | enable hpc v hv hi =>
    simp only [hpc, DrainPc.progress]
    omega
  | again hpc hs =>
    simp only [hpc, DrainPc.progress]
    omega
  | leave hpc hs => exact absurd hs hused
  | respond hpc =>
    simp only [hpc, DrainPc.progress]
    omega

/-- A schedule with four steps of the worker for each of the first `n` completed buffers that
is still on the used ring returns them, whatever the device does in between. -/
theorem returned_of_run (hV : V.Documented) {q : GpuQueue} {n : ℕ} {acts : List DrainAct}
    {s s' : DrainState β} (h : DrainInv V s) (hn : n ≤ s.completed.length)
    (hrun : runSchedule (drainStep V q) acts s = some s')
    (hwork : 4 * (n - s.returned.length) ≤ acts.countP (· = .work)) : n ≤ s'.returned.length := by
  have hrank : s.rank n ≤ acts.countP (· = .work) := Nat.le_trans (Nat.sub_le _ _) hwork
  refine runSchedule_reaches (fun s => DrainInv V s ∧ n ≤ s.completed.length)
    (fun s => n ≤ s.returned.length) (DrainState.rank n) ?_ ?_ ?_ ?_ hrun ⟨h, hn⟩ (Or.inr hrank)
  · intro a s s' ha hs
    exact ⟨hs.1.step hV ha, Nat.le_trans hs.2 (prefix_of_step hV ha).2.length_le⟩
  · intro a s s' ha _ hgoal
    exact Nat.le_trans hgoal (prefix_of_step hV ha).1.length_le
  · intro s _ hzero
    have := s.worker.progress_lt
    unfold DrainState.rank at hzero
    omega
  · intro a s s' ha hs hgoal
    by_cases hwork : a = .work
    · subst hwork
      exact rank_workerMove hs.1 hs.2 (Nat.not_le.1 hgoal) (workerMove_of_step hV ha)
    · obtain ⟨hworker, hreturned, -⟩ := drainStep_frame ha hwork
      simp [DrainState.rank, hworker, hreturned, hwork]

/-- The worker has no next step only if it is idle with no work scheduled. -/
theorem workerStep_eq_none {s : DrainState β} (h : workerStep V s = none) :
    s.worker = .idle ∧ s.scheduled = false := by
  unfold workerStep at h
  split at h
  · next hpc =>
    split at h
    · simp at h
    · next hs => exact ⟨hpc, by simpa using hs⟩
  · simp at h
  · split at h <;> simp at h
  · simp at h
  · split at h <;> simp at h
  · simp at h

/-- With buffers on the used ring, the worker or the interrupt handler has a next step. -/
theorem drain_not_stuck {q : GpuQueue} {s : DrainState β} (h : DrainInv V s)
    (hused : V.used s.ring ≠ []) :
    (drainStep V q .work s).isSome ∨ (drainStep V q .deliver s).isSome := by
  by_cases hwork : (workerStep V s).isSome
  · exact Or.inl hwork
  · obtain ⟨hidle, hsched⟩ := workerStep_eq_none (Option.not_isSome_iff_eq_none.1 hwork)
    have hraised : s.raised = true := by simpa [hsched] using h.owed (Or.inr hidle) hused
    exact Or.inr (by simp [drainStep, hraised])

/-- Under every interleaving the buffers returned, followed by those on the used ring, are
the buffers the device completed, in order; the worker is not idle with buffers on the used
ring, no work scheduled and no interrupt raised; and every buffer completed by then is
returned once the worker has made four steps for each on the used ring. -/
theorem drain_complete (hV : V.Documented) (q : GpuQueue) {vqs : List β}
    (hfresh : ∀ v ∈ vqs, V.used v = []) {v : β} (hv : v ∈ lkpiVirtioDeviceReady V vqs)
    {acts : List DrainAct} {s : DrainState β}
    (hs : runSchedule (drainStep V q) acts { ring := v } = some s) :
    s.returned ++ V.used s.ring = s.completed ∧
      ¬ (s.worker = .idle ∧ s.scheduled = false ∧ s.raised = false ∧ V.used s.ring ≠ []) ∧
      ∀ {acts' : List DrainAct} {s' : DrainState β}, runSchedule (drainStep V q) acts' s = some s' →
        4 * (V.used s.ring).length ≤ acts'.countP (· = .work) → s.completed <+: s'.returned := by
  have hinv : DrainInv V s :=
    runSchedule_preserves (DrainInv.step hV) hs (drainInv_ready hV hfresh hv)
  refine ⟨hinv.conserved, ?_, fun {acts' s'} hrun hwork => ?_⟩
  · rintro ⟨hidle, hsched, hraised, hused⟩
    rcases hinv.owed (Or.inr hidle) hused with h | h
    · exact absurd (hraised.symm.trans h) (by decide)
    · exact absurd (hsched.symm.trans h) (by decide)
  · have hinv' : DrainInv V s' := runSchedule_preserves (DrainInv.step hV) hrun hinv
    have hprefix : s.completed <+: s'.completed :=
      runSchedule_preserves (I := fun s₁ => s.completed <+: s₁.completed)
        (fun ha h => h.trans (prefix_of_step hV ha).2) hrun List.prefix_rfl
    have hlen : s.completed.length - s.returned.length = (V.used s.ring).length := by
      rw [← hinv.conserved, List.length_append, Nat.add_sub_cancel_left]
    have hret := returned_of_run hV hinv (Nat.le_refl _) hrun (hlen ▸ hwork)
    exact List.prefix_of_prefix_length_le hprefix ⟨_, hinv'.conserved⟩ hret

/-! ## A queue with three completions -/

/-- A used ring as the list of its entries, with the interrupt enabled or not. -/
structure ListedRing where
  entries : List ℕ
  enabled : Bool

/-- Its functions. -/
def listedUsedRing : BsdUsedRing ListedRing where
  used := ListedRing.entries
  intrEnabled := ListedRing.enabled
  complete b v := { v with entries := v.entries ++ [b] }
  virtqueueDequeue v :=
    match v.entries with
    | [] => (none, v)
    | b :: l => (some (b, 24), { v with entries := l })
  virtqueueDisableIntr v := { v with enabled := false }
  enableIntr v := { v with enabled := true }
  enableIntrResult v := if v.entries = [] then 0 else 1

theorem listedUsedRing_documented : listedUsedRing.Documented where
  used_complete _ _ := rfl
  dequeue_nil := by
    rintro ⟨entries, enabled⟩ (rfl : entries = [])
    exact ⟨rfl, rfl⟩
  dequeue_cons := by
    rintro ⟨entries, enabled⟩ b l (rfl : entries = b :: l)
    exact ⟨⟨24, rfl⟩, rfl⟩
  used_disableIntr _ := rfl
  used_enableIntr _ := rfl
  intrEnabled_enableIntr _ := rfl
  enableIntrResult_iff v := by
    change (if v.entries = [] then (0 : Int) else 1) ≠ 0 ↔ v.entries ≠ []
    split <;> simp_all

/-- The second and the third buffer come while the worker drains, the third between the two
halves of `virtqueue_enable_intr`. -/
def threeBuffers : List DrainAct :=
  [.complete 5, .deliver, .work, .work, .work, .complete 6, .work, .work, .work, .complete 7, .work]

/-- After these steps the third buffer waits, with the interrupt raised. -/
def thirdPending : DrainState ListedRing where
  ring := ⟨[7], true⟩
  raised := true
  worker := .disableCb
  reclaimList := [5, 6]
  returned := [5, 6]
  completed := [5, 6, 7]

/-- The worker goes round again for the third buffer, and four steps later it is returned. -/
theorem drain_complete_threeBuffers :
    runSchedule (drainStep listedUsedRing .ctrl) threeBuffers { ring := ⟨[], true⟩ } =
        some thirdPending ∧
      thirdPending.returned ++ [7] = thirdPending.completed ∧
      ∃ s, runSchedule (drainStep listedUsedRing .ctrl) [.work, .work, .deliver, .work, .work]
          thirdPending = some s ∧ [5, 6, 7] <+: s.returned := by
  have hfresh : ∀ v ∈ [(⟨[], false⟩ : ListedRing)], listedUsedRing.used v = [] := by
    simp [listedUsedRing]
  have hready : (⟨[], true⟩ : ListedRing) ∈ lkpiVirtioDeviceReady listedUsedRing [⟨[], false⟩] :=
    List.mem_singleton.2 rfl
  have hs : runSchedule (drainStep listedUsedRing .ctrl) threeBuffers { ring := ⟨[], true⟩ } =
      some thirdPending := rfl
  have h := drain_complete listedUsedRing_documented .ctrl hfresh hready hs
  have hs' : runSchedule (drainStep listedUsedRing .ctrl) [.work, .work, .deliver, .work, .work]
      thirdPending = some _ := rfl
  exact ⟨hs, h.1, _, hs', h.2.2 hs' (by decide)⟩

/-- Between a completion and the call of the interrupt handler the worker is idle and no work
is scheduled. -/
theorem idle_before_handler :
    ∃ s, (⟨[], true⟩ : ListedRing) ∈ lkpiVirtioDeviceReady listedUsedRing [⟨[], false⟩] ∧
      runSchedule (drainStep listedUsedRing .ctrl) [.complete 5] { ring := ⟨[], true⟩ } = some s ∧
      s.worker = .idle ∧ s.scheduled = false ∧ listedUsedRing.used s.ring ≠ [] :=
  ⟨_, List.mem_singleton.2 rfl, rfl, rfl, rfl, by simp [listedUsedRing]⟩

end KernelModules
