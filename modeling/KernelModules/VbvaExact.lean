import KernelModules.Vbva
import Mathlib.Data.List.SplitLengths

/-!
# Nothing is lost in the VBVA ring

At every moment of every run of the guest and the host, what the host has fetched, followed by what
is in the ring, is what the guest has sent, in order; a call of `vbva_write` that succeeds has sent
all of its data, one that fails has sent its first bytes (`vbva_exact`). The records that the host
gives back have the lengths of the updates, in order, so the host finds in the bytes where one
update ends and the next one begins (`vbva_framing`).
-/

set_option linter.unusedSectionVars false

namespace KernelModules

open Interleaving KernelModules.Ring

/-! ## The flag of a record -/

/-- Clearing the flag leaves the length. -/
theorem clear_flag {m : ℕ} (h : m < 2 ^ 31) :
    (2 ^ 31 + m) &&& (2 ^ 32 - 1 - VBVA_F_RECORD_PARTIAL) = m := by
  rw [show 2 ^ 32 - 1 - VBVA_F_RECORD_PARTIAL = 2 ^ 31 - 1 by decide, Nat.and_two_pow_sub_one_eq_mod]
  omega

/-- A record with the flag. -/
theorem testBit_flag {m : ℕ} (h : m < 2 ^ 31) : (2 ^ 31 + m).testBit 31 = true := by
  rw [Nat.testBit_two_pow_add_eq, Nat.testBit_lt_two_pow h, Bool.not_false]

/-! ## The bytes of the ring -/

section Buffer

variable {vbva : VbvaBuffer} (hlen : vbva.dataLen < 2 ^ 31)

include hlen

/-- The bytes that are not in the ring. -/
theorem vbvaBufferAvailable_eq (hdata : vbva.dataOffset < vbva.dataLen)
    (hfree : vbva.freeOffset < vbva.dataLen) :
    vbvaBufferAvailable vbva + used vbva.dataLen vbva.dataOffset vbva.freeOffset = vbva.dataLen := by
  rw [vbvaBufferAvailable, s32_of_lt (by omega) (by omega), used_eq hdata hfree]
  split_ifs <;> rw [u32_of_lt (by omega) (by omega)] <;> omega

/-- One copy or two, the bytes are placed on the ring. -/
theorem vbvaBufferPlaceDataAt_eq {p : List UInt8} {offset : ℕ} (hp : p.length ≤ vbva.dataLen)
    (hoff : offset < vbva.dataLen) :
    vbvaBufferPlaceDataAt vbva p offset =
      { vbva with data := place vbva.dataLen p vbva.data offset } := by
  have htill : u32 (vbva.dataLen - offset) = vbva.dataLen - offset := by
    rw [u32_of_lt (by omega) (by omega)]
    omega
  unfold vbvaBufferPlaceDataAt
  dsimp only
  rw [htill, s32_of_lt (by omega) (by omega)]
  split_ifs with hdiff
  · rw [memcpy_eq_place p (n := vbva.dataLen) (by omega)]
  · have hdrop : (p.drop (vbva.dataLen - offset)).length ≤
        ((p.length : ℤ) - (vbva.dataLen - offset : ℕ)).toNat := by
      rw [List.length_drop]
      omega
    rw [List.take_of_length_le hdrop, memcpy_memcpy_eq_place hp hoff.le (by omega)]

end Buffer

/-! ## The invariant -/

namespace VbvaPc

/-- What `vbva_write` has still to send. -/
def rest : VbvaPc → List UInt8
  | idle | beginFlushed => []
  | loop p _ | flushed p | retest p _ | place p _ _ | advance p _ _ => p
  | account p chunk _ => p.drop chunk

/-- The bytes that the guest takes to be free. -/
def room : VbvaPc → ℕ
  | idle | beginFlushed | flushed _ => 0
  | loop _ available | retest _ available | place _ _ available | advance _ _ available => available
  | account _ chunk available => available - chunk

/-- The bytes that are in the ring and not in the record yet. -/
def pending : VbvaPc → ℕ
  | account _ chunk _ => chunk
  | _ => 0

/-- The guest is in `vbva_write`. -/
def writing : VbvaPc → Bool
  | idle | beginFlushed => false
  | _ => true

end VbvaPc

/-- A chunk fits. Once it is placed, it is behind the bytes of the ring. -/
def ChunkOk (buf : ℕ → UInt8) (n free : ℕ) (update : Option (List UInt8)) : VbvaPc → Prop
  | .place p chunk available => chunk < available ∧ chunk ≤ p.length
  | .advance p chunk available =>
    (chunk < available ∧ chunk ≤ p.length) ∧ window buf n free chunk = p.take chunk
  | .account p chunk _ => chunk ≤ p.length ∧ ∀ m ∈ update, chunk ≤ m.length
  | _ => True

/-- The updates so far. -/
def VbvaState.updates (s : VbvaState) : List (List UInt8) :=
  s.closed ++ s.update.toList

/-- The record of an update that is open, with the bytes that are accounted. -/
def openLen (pc : VbvaPc) (m : List UInt8) : ℕ :=
  2 ^ 31 + (m.length - pc.pending)

/-- What holds between the steps. -/
structure VbvaInv (s : VbvaState) : Prop where
  len_lt : s.vbva.dataLen < 2 ^ 31
  tresh_pos : 0 < s.vbva.partialWriteTresh
  data_lt : s.vbva.dataOffset < s.vbva.dataLen
  free_lt : s.vbva.freeOffset < s.vbva.dataLen
  first_lt : s.vbva.recordFirstIndex < VBVA_MAX_RECORDS
  freeIndex_lt : s.vbva.recordFreeIndex < VBVA_MAX_RECORDS
  bytes : s.fetched ++ window s.vbva.data s.vbva.dataLen s.vbva.dataOffset s.bytesUsed =
    s.updates.flatten
  records : window s.vbva.records VBVA_MAX_RECORDS s.vbva.recordFirstIndex s.recordsUsed =
    (s.closed.drop s.retired.length).map List.length ++ s.update.toList.map (openLen s.pc)
  retired : s.retired = (s.closed.take s.retired.length).map List.length
  record : s.record =
    s.update.map fun _ => (s.vbva.recordFreeIndex + (VBVA_MAX_RECORDS - 1)) % VBVA_MAX_RECORDS
  data : s.pc.writing = true → s.data = s.sent ++ s.pc.rest
  quiet : s.pc.writing = false → s.sent = []
  writing : s.pc.writing = true → s.update.isSome
  begins : s.pc = .beginFlushed → s.update = none
  short : ∀ m ∈ s.update, m.length + s.pc.rest.length < 2 ^ 31
  room : s.bytesUsed + s.pc.room ≤ s.vbva.dataLen
  chunk : ChunkOk s.vbva.data s.vbva.dataLen s.vbva.freeOffset s.update s.pc
  calls : s.updates.flatten = (s.calls.map VbvaCall.sent).flatten ++ s.sent
  callsOk : ∀ c ∈ s.calls, c.sent <+: c.data ∧ (c.ret = true → c.sent = c.data)

section Steps

variable {s : VbvaState}

namespace VbvaInv

/-! ## The host -/

theorem bytesUsed_lt (h : VbvaInv s) : s.bytesUsed < s.vbva.dataLen :=
  used_lt h.data_lt h.free_lt

theorem retired_le (h : VbvaInv s) : s.retired.length ≤ s.closed.length := by
  have hlen := congrArg List.length h.retired
  rw [List.length_map, List.length_take] at hlen
  omega

theorem fetch (h : VbvaInv s) {k : ℕ} (hk : k ≤ s.bytesUsed) :
    VbvaInv { s with
      vbva := { s.vbva with dataOffset := (s.vbva.dataOffset + k) % s.vbva.dataLen }
      fetched := s.fetched ++ window s.vbva.data s.vbva.dataLen s.vbva.dataOffset k } := by
  have hused : used s.vbva.dataLen ((s.vbva.dataOffset + k) % s.vbva.dataLen) s.vbva.freeOffset =
      s.bytesUsed - k := used_add_left h.data_lt h.free_lt hk
  refine { h with data_lt := Nat.mod_lt _ (by have := h.data_lt; omega), bytes := ?_, room := ?_ }
  · rw [VbvaState.bytesUsed, hused, window_mod, List.append_assoc, ← window_add,
      Nat.add_sub_cancel' hk]
    exact h.bytes
  · rw [VbvaState.bytesUsed, hused]
    exact (Nat.add_le_add_right (Nat.sub_le _ _) _).trans h.room

/-- The record that the host gives back is that of an update that has ended. -/
theorem retire (h : VbvaInv s) (hne : s.vbva.recordFirstIndex ≠ s.vbva.recordFreeIndex)
    (hbit : (s.vbva.records s.vbva.recordFirstIndex).testBit 31 = false) :
    VbvaInv { s with
      vbva := { s.vbva with
        recordFirstIndex := (s.vbva.recordFirstIndex + 1) % VBVA_MAX_RECORDS }
      retired := s.retired ++ [s.vbva.records s.vbva.recordFirstIndex] } := by
  have hpos : 0 < s.recordsUsed := used_pos h.first_lt h.freeIndex_lt hne
  have hused : used VBVA_MAX_RECORDS ((s.vbva.recordFirstIndex + 1) % VBVA_MAX_RECORDS)
      s.vbva.recordFreeIndex = s.recordsUsed - 1 := used_add_left h.first_lt h.freeIndex_lt hpos
  have hdrop := drop_window s.vbva.records VBVA_MAX_RECORDS s.vbva.recordFirstIndex hpos
  have hwindow := h.records
  obtain ⟨k, hk⟩ := Nat.exists_eq_add_of_lt hpos
  rw [zero_add] at hk
  -- the first record is not that of an update that is open
  cases hclosed : s.closed.drop s.retired.length with
  | nil =>
    rw [hclosed, List.map_nil, List.nil_append, hk] at hwindow
    cases hupd : s.update with
    | none =>
      rw [hupd] at hwindow
      simpa using congrArg List.length hwindow
    | some m =>
      rw [hupd, Option.toList_some, List.map_singleton] at hwindow
      have hfirst := window_head hwindow
      rw [Nat.mod_eq_of_lt h.first_lt] at hfirst
      have hm := h.short m hupd
      rw [hfirst, openLen, testBit_flag (by omega)] at hbit
      cases hbit
  | cons c rest =>
    have hlt : s.retired.length < s.closed.length := by
      by_contra hge
      rw [List.drop_eq_nil_of_le (by omega)] at hclosed
      cases hclosed
    have hget : s.closed[s.retired.length] = c ∧ s.closed.drop (s.retired.length + 1) = rest := by
      rw [List.drop_eq_getElem_cons hlt] at hclosed
      exact List.cons.inj hclosed
    have hfirst : s.vbva.records s.vbva.recordFirstIndex = c.length := by
      rw [hclosed, hk, List.map_cons, List.cons_append] at hwindow
      rw [← window_head hwindow, Nat.mod_eq_of_lt h.first_lt]
    refine { h with first_lt := Nat.mod_lt _ (by decide), records := ?_, retired := ?_ }
    · rw [VbvaState.recordsUsed, hused, ← hdrop]
      dsimp only
      rw [List.length_append, List.length_singleton, hget.2]
      rw [h.records, hclosed, List.map_cons, List.cons_append, List.drop_one, List.tail_cons]
    · dsimp only
      rw [List.length_append, List.length_singleton, List.take_add_one, List.getElem?_eq_getElem hlt,
        hget.1, Option.toList_some, List.map_append, ← h.retired, hfirst, List.map_singleton]

/-! ## Updates -/

/-- A record is taken. -/
theorem openRecord (h : VbvaInv s) (hpc : s.pc.writing = false) (hupd : s.update = none)
    (hfull : (s.vbva.recordFreeIndex + 1) % VBVA_MAX_RECORDS ≠ s.vbva.recordFirstIndex) :
    VbvaInv (openRecord s) := by
  have hone := used_add_one_lt h.first_lt h.freeIndex_lt hfull
  have hused := used_add_right h.first_lt h.freeIndex_lt hone
  have hrecords := h.records
  have hwindow := window_update_succ s.vbva.records s.vbva.recordFirstIndex (Nat.lt_of_succ_lt hone) (2 ^ 31)
  rw [add_used h.first_lt h.freeIndex_lt] at hwindow
  have hclosed : (KernelModules.openRecord s).closed = s.closed := by
    change s.closed ++ s.update.toList = s.closed
    rw [hupd, Option.toList_none, List.append_nil]
  have hupdates : (s.closed ++ s.update.toList ++ [[]]).flatten = s.updates.flatten := by
    rw [VbvaState.updates, List.flatten_append]
    simp
  refine { h with
    freeIndex_lt := Nat.mod_lt _ (by decide), bytes := h.bytes.trans hupdates.symm, records := ?_,
    retired := ?_, record := ?_, data := nofun, quiet := fun _ => h.quiet hpc, writing := nofun,
    begins := nofun, short := ?_, room := h.bytesUsed_lt.le, chunk := trivial,
    calls := hupdates.trans h.calls }
  · refine (congrArg _ hused).trans (hwindow.trans ?_)
    change window _ _ _ s.recordsUsed ++ _ = _
    have hlen : [2 ^ 31] =
        (KernelModules.openRecord s).update.toList.map (openLen (KernelModules.openRecord s).pc) := by
      simp [KernelModules.openRecord, openLen]
    rw [h.records, hupd, hclosed, Option.toList_none, List.map_nil, List.append_nil, hlen]
    rfl
  · rw [hclosed]
    exact h.retired
  · have hfree := h.freeIndex_lt
    have hmod : ((s.vbva.recordFreeIndex + 1) % 64 + 63) % 64 = s.vbva.recordFreeIndex := by
      change _ < 64 at hfree
      omega
    exact (congrArg some hmod).symm
  · intro m hm
    obtain rfl := Option.some.inj hm
    rw [List.length_nil, zero_add]
    exact (List.length_nil (α := UInt8)).trans_lt (Nat.two_pow_pos 31)

/-- The record of an update that is open is the last one of the ring. -/
theorem window_record (h : VbvaInv s) {m : List UInt8} (hupd : s.update = some m) :
    ∃ k < VBVA_MAX_RECORDS, s.recordsUsed = k + 1 ∧
      s.record = some ((s.vbva.recordFirstIndex + k) % VBVA_MAX_RECORDS) ∧
      window s.vbva.records VBVA_MAX_RECORDS s.vbva.recordFirstIndex (k + 1) =
        (s.closed.drop s.retired.length).map List.length ++ [openLen s.pc m] := by
  have hwindow := h.records
  rw [hupd, Option.toList_some, List.map_singleton] at hwindow
  have hlen := congrArg List.length hwindow
  rw [length_window, List.length_append, List.length_singleton] at hlen
  have hlt := used_lt h.first_lt h.freeIndex_lt
  have hadd := add_used h.first_lt h.freeIndex_lt
  change s.recordsUsed < _ at hlt
  change (s.vbva.recordFirstIndex + s.recordsUsed) % _ = _ at hadd
  rw [hlen] at hlt hadd hwindow
  refine ⟨_, Nat.lt_of_succ_lt hlt, hlen, ?_, hwindow⟩
  rw [h.record, hupd, Option.map_some, ← hadd]
  congr 1
  simp only [VBVA_MAX_RECORDS]
  omega

theorem openLen_of_pending {pc : VbvaPc} {m : List UInt8} (hpc : pc.pending = 0) :
    openLen pc m = 2 ^ 31 + m.length := by
  rw [openLen, hpc, Nat.sub_zero]

/-- The flag of the record is cleared. -/
theorem endUpdate (h : VbvaInv s) (hpc : s.pc = .idle) {s' : VbvaState}
    (hs' : vbvaBufferEndUpdate s = some s') : VbvaInv s' := by
  obtain ⟨r, hr, rfl⟩ := Option.map_eq_some_iff.1 hs'
  obtain ⟨m, hupd, -⟩ := Option.map_eq_some_iff.1 (h.record.symm.trans hr)
  obtain ⟨k, hk, hused, hrecord, hwindow⟩ := h.window_record hupd
  obtain rfl := Option.some.inj (hrecord.symm.trans hr)
  have hm := h.short m hupd
  rw [openLen_of_pending (by rw [hpc]; rfl)] at hwindow
  have hclear := window_update_last hk hwindow
    ((2 ^ 31 + m.length) &&& (2 ^ 32 - 1 - VBVA_F_RECORD_PARTIAL))
  rw [clear_flag (by omega)] at hclear
  have hupdates : s.closed ++ s.update.toList ++ [] = s.updates := List.append_nil _
  have hle := h.retired_le
  refine { h with
    bytes := h.bytes.trans (congrArg _ hupdates.symm), records := ?_, retired := ?_, record := rfl,
    writing := by rw [hpc]; nofun, begins := fun _ => rfl, short := nofun, chunk := ?_,
    calls := (congrArg _ hupdates).trans h.calls }
  · change window _ _ _ s.recordsUsed = _
    dsimp only
    rw [hused, (window_last hwindow).2, clear_flag (by omega), hclear, hupd,
      Option.toList_some, List.drop_append_of_le_length hle, List.map_append]
    exact (List.append_nil _).symm
  · dsimp only
    rw [List.take_append_of_le_length hle]
    exact h.retired
  · rw [hpc]
    trivial

/-! ## A write -/

/-- The guest goes on, and nothing else changes. -/
theorem goto (h : VbvaInv s) {pc : VbvaPc} (hpend : pc.pending = s.pc.pending)
    (hrest : pc.rest = s.pc.rest) (hwriting : pc.writing = s.pc.writing)
    (hbegins : pc = .beginFlushed → s.update = none) (hroom : s.bytesUsed + pc.room ≤ s.vbva.dataLen)
    (hchunk : ChunkOk s.vbva.data s.vbva.dataLen s.vbva.freeOffset s.update pc) :
    VbvaInv { s with pc := pc } :=
  { h with
    records := by
      have hopen : openLen pc = openLen s.pc := by
        funext m
        rw [openLen, openLen, hpend]
      dsimp only
      rw [hopen]
      exact h.records
    data := by
      dsimp only
      rw [hwriting, hrest]
      exact h.data
    quiet := by
      dsimp only
      rw [hwriting]
      exact h.quiet
    writing := by
      dsimp only
      rw [hwriting]
      exact h.writing
    begins := hbegins
    short := by
      dsimp only
      rw [hrest]
      exact h.short
    room := hroom
    chunk := hchunk }

/-- `vbva_write` returns. -/
theorem ret (h : VbvaInv s) {b : Bool} (hpend : s.pc.pending = 0) (hsent : s.sent <+: s.data)
    (hb : b = true → s.sent = s.data) : VbvaInv (s.ret b) :=
  { h with
    records := by
      have hopen : openLen .idle = openLen s.pc := by
        funext m
        rw [openLen_of_pending rfl, openLen_of_pending hpend]
      refine h.records.trans ?_
      rw [← hopen]
      rfl
    data := nofun
    quiet := fun _ => rfl
    writing := nofun
    begins := nofun
    short := fun m hm => by
      have hshort := h.short m hm
      exact (Nat.le_add_right _ _).trans_lt hshort
    room := h.bytesUsed_lt.le
    chunk := trivial
    calls := by
      refine h.calls.trans ?_
      simp [VbvaState.ret]
    callsOk := by
      intro c hc
      rcases List.mem_append.1 hc with hc | hc
      · exact h.callsOk c hc
      · obtain rfl := List.mem_singleton.1 hc
        exact ⟨hsent, hb⟩ }

/-- The room that `vbva_buffer_available` finds. -/
theorem bytesUsed_add_available (h : VbvaInv s) :
    s.bytesUsed + vbvaBufferAvailable s.vbva = s.vbva.dataLen := by
  rw [add_comm]
  exact vbvaBufferAvailable_eq h.len_lt h.data_lt h.free_lt

theorem write (h : VbvaInv s) (hpc : s.pc = .idle) {p : List UInt8}
    (hp : ∀ m ∈ s.update, m.length + p.length < 2 ^ 31) : VbvaInv (vbvaWrite p s) := by
  have hsent : s.sent = [] := h.quiet (by rw [hpc]; rfl)
  have hstart : VbvaInv { s with data := p, sent := [] } :=
    { h with
      data := by
        rw [hpc]
        intro hwriting
        cases hwriting
      quiet := fun _ => rfl
      calls := by
        rw [← hsent]
        exact h.calls }
  have hfail := hstart.ret (b := false) (by rw [hpc]; rfl) List.nil_prefix
    fun htrue => by cases htrue
  unfold vbvaWrite
  dsimp only
  split
  · exact hfail
  · next r hrec =>
    obtain ⟨m, hupd, -⟩ := Option.map_eq_some_iff.1 (h.record.symm.trans hrec)
    split_ifs
    · exact hfail
    · exact { hstart with
        records := by
          have hrecords := h.records
          rw [hpc] at hrecords
          exact hrecords
        data := fun _ => rfl
        quiet := fun hidle => by cases hidle
        writing := fun _ => by rw [hupd]; rfl
        begins := fun hbegin => by cases hbegin
        short := hp
        room := h.bytesUsed_add_available.le
        chunk := trivial }

/-- A chunk is placed behind the bytes of the ring. -/
theorem placeChunk {p : List UInt8} {chunk available : ℕ} (h : VbvaInv s)
    (hpc : s.pc = .place p chunk available) :
    VbvaInv { s with
      vbva := vbvaBufferPlaceDataAt s.vbva (p.take chunk) s.vbva.freeOffset
      pc := .advance p chunk available } := by
  have hchunk := h.chunk
  have hroom := h.room
  rw [hpc] at hchunk hroom
  obtain ⟨hlt, hle⟩ := hchunk
  change _ + available ≤ _ at hroom
  have hlen : (p.take chunk).length = chunk := List.length_take_of_le hle
  have hfit : s.bytesUsed + (p.take chunk).length ≤ s.vbva.dataLen := by omega
  have hfree : (s.vbva.dataOffset + s.bytesUsed) % s.vbva.dataLen = s.vbva.freeOffset :=
    add_used h.data_lt h.free_lt
  have hkept := window_place_of_le s.vbva.data s.vbva.dataOffset hfit
  rw [← place_mod, hfree] at hkept
  have hplaced := window_place (n := s.vbva.dataLen) s.vbva.freeOffset (p.take chunk) s.vbva.data
    (k := 0) (by omega)
  rw [add_zero, zero_add, hlen, window_zero, List.nil_append] at hplaced
  rw [vbvaBufferPlaceDataAt_eq h.len_lt (by omega) h.free_lt]
  have hstored : VbvaInv { s with
      vbva := { s.vbva with
        data := place s.vbva.dataLen (p.take chunk) s.vbva.data s.vbva.freeOffset } } :=
    { h with
      bytes := (congrArg _ hkept).trans h.bytes
      chunk := by
        rw [hpc]
        exact ⟨hlt, hle⟩ }
  exact hstored.goto (by rw [hpc]; rfl) (by rw [hpc]; rfl) (by rw [hpc]; rfl) nofun hroom
    ⟨⟨hlt, hle⟩, hplaced⟩

/-- The chunk is in the ring. -/
theorem advanceChunk {p : List UInt8} {chunk available : ℕ} (h : VbvaInv s)
    (hpc : s.pc = .advance p chunk available) :
    VbvaInv { s with
      vbva := { s.vbva with freeOffset := u32 (s.vbva.freeOffset + chunk) % s.vbva.dataLen }
      pc := .account p chunk available
      update := s.update.map (· ++ p.take chunk)
      sent := s.sent ++ p.take chunk } := by
  have hchunk := h.chunk
  have hroom := h.room
  have hsome := h.writing (by rw [hpc]; rfl)
  obtain ⟨m, hupd⟩ := Option.isSome_iff_exists.1 hsome
  have hshort := h.short m hupd
  have hdata := h.data (by rw [hpc]; rfl)
  have hrecords := h.records
  have hlen_lt := h.len_lt
  have hfree_lt := h.free_lt
  rw [hpc] at hchunk hroom hshort hdata hrecords
  obtain ⟨⟨hlt, hle⟩, hplaced⟩ := hchunk
  change _ + available ≤ _ at hroom
  change _ + p.length < _ at hshort
  have hlen : (p.take chunk).length = chunk := List.length_take_of_le hle
  have hu32 : u32 (s.vbva.freeOffset + chunk) = s.vbva.freeOffset + chunk := by
    exact_mod_cast u32_natCast (x := s.vbva.freeOffset + chunk) (by omega)
  have hused : used s.vbva.dataLen s.vbva.dataOffset
      ((s.vbva.freeOffset + chunk) % s.vbva.dataLen) = s.bytesUsed + chunk :=
    used_add_right h.data_lt h.free_lt (by
      change s.bytesUsed + chunk < _
      omega)
  have hfree : (s.vbva.dataOffset + s.bytesUsed) % s.vbva.dataLen = s.vbva.freeOffset :=
    add_used h.data_lt h.free_lt
  have hupdates : (s.closed ++ [m ++ p.take chunk]).flatten = s.updates.flatten ++ p.take chunk := by
    simp [VbvaState.updates, hupd]
  rw [hu32]
  exact { h with
    free_lt := Nat.mod_lt _ (by omega)
    bytes := by
      rw [VbvaState.bytesUsed, hused, window_add, ← window_mod _ _ (_ + s.bytesUsed), hfree]
      dsimp only
      rw [hplaced, ← List.append_assoc, h.bytes, ← hupdates, VbvaState.updates]
      dsimp only
      rw [hupd]
      rfl
    records := by
      refine hrecords.trans ?_
      have hopen : openLen (.advance p chunk available) m =
          openLen (.account p chunk available) (m ++ p.take chunk) := by
        simp [openLen, VbvaPc.pending, hlen]
      dsimp only
      rw [hupd, Option.map_some, Option.toList_some, Option.toList_some, List.map_singleton,
        List.map_singleton, hopen]
    record := by
      dsimp only
      rw [Option.map_map]
      exact h.record
    data := fun _ => by
      refine hdata.trans ?_
      change s.sent ++ p = s.sent ++ p.take chunk ++ p.drop chunk
      rw [List.append_assoc, List.take_append_drop]
    quiet := nofun
    writing := fun _ => by
      dsimp only
      rw [hupd]
      rfl
    begins := nofun
    short := by
      intro m' hm'
      dsimp only at hm'
      rw [hupd] at hm'
      obtain rfl := Option.some.inj hm'
      change _ + (p.drop chunk).length < _
      rw [List.length_append, hlen, List.length_drop]
      omega
    room := by
      rw [VbvaState.bytesUsed, hused]
      change _ + (available - chunk) ≤ _
      dsimp only
      omega
    chunk := by
      refine ⟨hle, fun m' hm' => ?_⟩
      rw [hupd] at hm'
      obtain rfl := Option.some.inj hm'
      rw [List.length_append, hlen]
      exact Nat.le_add_left _ _
    calls := by
      rw [VbvaState.updates]
      dsimp only
      rw [hupd]
      refine hupdates.trans ?_
      rw [h.calls, List.append_assoc] }

/-- The chunk is in the record. -/
theorem accountChunk {p : List UInt8} {chunk available r : ℕ} (h : VbvaInv s)
    (hpc : s.pc = .account p chunk available) (hr : s.record = some r) :
    VbvaInv { s with
      vbva := { s.vbva with
        records := Function.update s.vbva.records r (u32 (s.vbva.records r + chunk)) }
      pc := .loop (p.drop chunk) (available - chunk) } := by
  obtain ⟨m, hupd, -⟩ := Option.map_eq_some_iff.1 (h.record.symm.trans hr)
  obtain ⟨k, hk, hused, hrecord, hwindow⟩ := h.window_record hupd
  obtain rfl := Option.some.inj (hrecord.symm.trans hr)
  have hshort := h.short m hupd
  have hchunk := h.chunk
  have hdata := h.data (by rw [hpc]; rfl)
  have hroom := h.room
  rw [hpc] at hchunk hwindow hshort hdata hroom
  have hm := hchunk.2 m hupd
  have hopen : u32 ((openLen (.account p chunk available) m : ℕ) + (chunk : ℕ)) =
      openLen (.loop (p.drop chunk) (available - chunk)) m := by
    rw [@openLen_of_pending (.loop (p.drop chunk) (available - chunk)) m rfl, openLen]
    change u32 ((2 ^ 31 + (m.length - chunk) : ℕ) + (chunk : ℕ)) = _
    rw [u32_of_lt (by omega) (by omega)]
    omega
  exact { h with
    records := by
      change window _ _ _ s.recordsUsed = _
      dsimp only
      rw [hused, (window_last hwindow).2, hopen, window_update_last hk hwindow, hupd,
        Option.toList_some, List.map_singleton]
    data := fun _ => hdata
    quiet := nofun
    writing := fun _ => by
      dsimp only
      rw [hupd]
      rfl
    begins := nofun
    short := fun m' hm' => by
      obtain rfl := Option.some.inj (hupd.symm.trans hm')
      exact hshort
    room := hroom
    chunk := trivial }

theorem guest (h : VbvaInv s) {s' : VbvaState} (hs' : guestStep s = some s') : VbvaInv s' := by
  unfold guestStep at hs'
  split at hs' <;> rename_i hpc
  · cases hs'
  · -- the flush of `vbva_buffer_begin_update`
    have hupd := h.begins hpc
    split_ifs at hs' with hfull <;> obtain rfl := Option.some.inj hs'
    · exact h.goto (by rw [hpc]; rfl) (by rw [hpc]; rfl) (by rw [hpc]; rfl)
        (fun hno => by cases hno) h.bytesUsed_lt.le trivial
    · exact h.openRecord (by rw [hpc]; rfl) hupd hfull
  · next p available =>
    obtain rfl := Option.some.inj hs'
    have hdata := h.data (by rw [hpc]; rfl)
    have hroom := h.room
    rw [hpc] at hdata hroom
    split_ifs with hp havail
    · rw [List.length_eq_zero_iff.1 hp] at hdata
      exact h.ret (by rw [hpc]; rfl) ⟨_, hdata.symm⟩ fun _ => by rw [hdata]; exact (List.append_nil _).symm
    · exact h.goto (by rw [hpc]; rfl) (by rw [hpc]; rfl) (by rw [hpc]; rfl)
        (fun hno => by cases hno) h.bytesUsed_lt.le trivial
    · exact h.goto (by rw [hpc]; rfl) (by rw [hpc]; rfl) (by rw [hpc]; rfl)
        (fun hno => by cases hno) hroom ⟨by omega, le_rfl⟩
  · obtain rfl := Option.some.inj hs'
    exact h.goto (by rw [hpc]; rfl) (by rw [hpc]; rfl) (by rw [hpc]; rfl)
      (fun hno => by cases hno) h.bytesUsed_add_available.le trivial
  · next p available =>
    obtain rfl := Option.some.inj hs'
    have hdata := h.data (by rw [hpc]; rfl)
    have hroom := h.room
    have htresh := h.tresh_pos
    rw [hpc] at hdata hroom
    split_ifs with havail hov
    · -- a step that only sets `buffer_overflow`, and a return
      have hflag : VbvaInv { s with bufferOverflow := true } := { h with }
      exact hflag.ret (by rw [hpc]; rfl) ⟨_, hdata.symm⟩ (fun hno => by cases hno)
    · exact h.goto (by rw [hpc]; rfl) (by rw [hpc]; rfl) (by rw [hpc]; rfl)
        (fun hno => by cases hno) hroom ⟨by omega, by omega⟩
    · exact h.goto (by rw [hpc]; rfl) (by rw [hpc]; rfl) (by rw [hpc]; rfl)
        (fun hno => by cases hno) hroom ⟨by omega, le_rfl⟩
  · obtain rfl := Option.some.inj hs'
    exact h.placeChunk hpc
  · obtain rfl := Option.some.inj hs'
    exact h.advanceChunk hpc
  · obtain ⟨r, hr, rfl⟩ := Option.map_eq_some_iff.1 hs'
    exact h.accountChunk hpc hr

theorem beginUpdate (h : VbvaInv s) (hpc : s.pc = .idle) (hupd : s.update = none) :
    VbvaInv (vbvaBufferBeginUpdate s) := by
  unfold vbvaBufferBeginUpdate
  split_ifs with hmode hfull
  · exact h
  · exact h.goto (by rw [hpc]; rfl) (by rw [hpc]; rfl) (by rw [hpc]; rfl) (fun _ => hupd)
      h.bytesUsed_lt.le trivial
  · exact h.openRecord (by rw [hpc]; rfl) hupd hfull

/-- Every step of the guest and of the host keeps the invariant. -/
theorem step {a : VbvaAct} {s' : VbvaState} (hs' : vbvaStep a s = some s') (hclient : VbvaClient a s)
    (h : VbvaInv s) : VbvaInv s' := by
  cases a <;> simp only [vbvaStep, Option.ite_none_right_eq_some, Option.some.injEq] at hs'
  case beginUpdate =>
    obtain ⟨hpc, rfl⟩ := hs'
    exact h.beginUpdate hpc hclient
  case write p =>
    obtain ⟨hpc, rfl⟩ := hs'
    exact h.write hpc hclient
  case endUpdate => exact h.endUpdate hs'.1 hs'.2
  case guest => exact h.guest hs'
  case fetch k =>
    obtain ⟨hk, rfl⟩ := hs'
    exact h.fetch hk
  case retire =>
    obtain ⟨⟨hne, hbit⟩, rfl⟩ := hs'
    exact h.retire hne hbit
  case mode enabled =>
    obtain rfl := hs'
    exact { h with }

end VbvaInv

end Steps

/-! ## Runs -/

section Runs

variable {bufferLength : ℕ} (hlo : sizeofVbvaBuffer < bufferLength) (hhi : bufferLength < 2 ^ 31)
  {acts : List VbvaAct}

include hlo hhi

theorem vbvaInv_enable : VbvaInv { vbva := vbvaEnable bufferLength } := by
  have hlen : (vbvaEnable bufferLength).dataLen = bufferLength - sizeofVbvaBuffer := by
    change u32 (bufferLength - sizeofVbvaBuffer) = _
    rw [u32_of_lt (by omega) (by omega)]
    omega
  have hpos : 0 < (vbvaEnable bufferLength).dataLen := by omega
  have hused : used (vbvaEnable bufferLength).dataLen 0 0 = 0 := by
    rw [used_eq hpos hpos]
    rfl
  exact {
    len_lt := hlen.trans_lt ((Nat.sub_le _ _).trans_lt hhi)
    tresh_pos := Nat.succ_pos 255
    data_lt := hpos
    free_lt := hpos
    first_lt := Nat.succ_pos 63
    freeIndex_lt := Nat.succ_pos 63
    bytes := congrArg (window _ _ 0) hused
    records := congrArg (window _ _ 0) (show used VBVA_MAX_RECORDS 0 0 = 0 by decide)
    retired := rfl
    record := rfl
    data := fun _ => rfl
    quiet := fun _ => rfl
    writing := nofun
    begins := fun _ => rfl
    short := nofun
    room := hused.le.trans hpos.le
    chunk := trivial
    calls := rfl
    callsOk := nofun }

theorem vbvaInv_run (hclient : Along vbvaStep VbvaClient acts { vbva := vbvaEnable bufferLength })
    {s : VbvaState} (hrun : runSchedule vbvaStep acts { vbva := vbvaEnable bufferLength } = some s) :
    VbvaInv s :=
  runSchedule_preserves_along (fun hs' hP h => h.step hs' hP) hrun hclient (vbvaInv_enable hlo hhi)

end Runs

/-! ## The bytes -/

/-- What the host has fetched, followed by what is in the ring, is what the calls have sent, in order.
A call that succeeds has sent all of its data, one that fails has sent its first bytes. -/
structure VbvaExact (s : VbvaState) : Prop where
  bytes : s.fetched ++ window s.vbva.data s.vbva.dataLen s.vbva.dataOffset s.bytesUsed =
    (s.calls.map VbvaCall.sent).flatten ++ s.sent
  calls : ∀ c ∈ s.calls, c.sent <+: c.data ∧ (c.ret = true → c.sent = c.data)
  current : s.sent <+: s.data

theorem VbvaInv.exact {s : VbvaState} (h : VbvaInv s) : VbvaExact s where
  bytes := h.bytes.trans h.calls
  calls := h.callsOk
  current := by
    cases hpc : s.pc.writing with
    | false =>
      rw [h.quiet hpc]
      exact List.nil_prefix
    | true => exact ⟨_, (h.data hpc).symm⟩

section Runs

variable {bufferLength : ℕ} (hlo : sizeofVbvaBuffer < bufferLength) (hhi : bufferLength < 2 ^ 31)

include hlo hhi

/-- Nothing is lost, written over or sent twice, whenever the host takes its turns. -/
theorem vbva_exact (acts : List VbvaAct)
    (hclient : Along vbvaStep VbvaClient acts { vbva := vbvaEnable bufferLength }) :
    ∀ s, runSchedule vbvaStep acts { vbva := vbvaEnable bufferLength } = some s → VbvaExact s :=
  fun _ hrun => (vbvaInv_run hlo hhi hclient hrun).exact

end Runs

/-- A write, one that comes around to the start of the ring, and one that does not fit. -/
def wrapAround : List VbvaAct :=
  [.mode true, .beginUpdate, .write (.replicate 100 1), .guest, .guest, .guest, .guest, .guest,
    .endUpdate, .fetch 100, .beginUpdate, .retire, .write (.replicate 280 2), .guest, .guest, .guest,
    .fetch 230, .guest, .guest, .endUpdate, .fetch 50, .retire, .beginUpdate,
    .write (.replicate 400 3), .guest, .guest, .guest, .guest, .guest, .guest, .guest, .guest, .guest]

theorem vbva_exact_wrapAround :
    ∃ s, runSchedule vbvaStep wrapAround { vbva := vbvaEnable 588 } = some s ∧
      s.calls.map VbvaCall.ret = [true, true, false] ∧
      s.fetched = .replicate 100 1 ++ .replicate 280 2 ∧ VbvaExact s := by
  have hsome : ((runSchedule vbvaStep wrapAround { vbva := vbvaEnable 588 }).map fun s =>
      (s.calls.map VbvaCall.ret, s.fetched)) =
      some ([true, true, false], .replicate 100 1 ++ .replicate 280 2) := by decide +kernel
  obtain ⟨s, hs, heq⟩ := Option.map_eq_some_iff.1 hsome
  simp only [Prod.mk.injEq] at heq
  exact ⟨s, hs, heq.1, heq.2,
    vbva_exact (by decide) (by decide) wrapAround (by decide +kernel) s hs⟩

/-! ## The records -/

/-- A list is cut where the lists end that it is made of. -/
theorem splitLengths_map_length_flatten {α : Type*} (ll : List (List α)) (rest : List α) :
    (ll.map List.length).splitLengths (ll.flatten ++ rest) = ll := by
  induction ll with
  | nil => rfl
  | cons l ll ih =>
    rw [List.map_cons, List.splitLengths_cons, List.flatten_cons, List.append_assoc,
      List.take_left' rfl, List.drop_left' rfl, ih]

/-- The records that the host has given back have the lengths of the first updates that have ended.
What the host has fetched is cut into the updates by them. -/
structure VbvaFraming (s : VbvaState) : Prop where
  ended : s.retired.length ≤ s.closed.length
  lengths : s.retired = (s.closed.take s.retired.length).map List.length
  cut : s.retired.sum ≤ s.fetched.length →
    s.retired.splitLengths s.fetched = s.closed.take s.retired.length
  updates : s.updates.flatten = (s.calls.map VbvaCall.sent).flatten ++ s.sent

theorem VbvaInv.framing {s : VbvaState} (h : VbvaInv s) : VbvaFraming s where
  ended := h.retired_le
  lengths := h.retired
  cut hle := by
    have hbytes := h.bytes
    rw [VbvaState.updates, ← List.take_append_drop s.retired.length s.closed, List.append_assoc,
      List.flatten_append] at hbytes
    have hlen : (s.closed.take s.retired.length).flatten.length ≤ s.fetched.length := by
      rw [List.length_flatten, ← h.retired]
      exact hle
    obtain ⟨rest, hrest⟩ := List.prefix_of_prefix_length_le ⟨_, rfl⟩ ⟨_, hbytes⟩ hlen
    have hcut := splitLengths_map_length_flatten (s.closed.take s.retired.length) rest
    rw [← h.retired, hrest] at hcut
    exact hcut
  updates := h.calls

section Runs

variable {bufferLength : ℕ} (hlo : sizeofVbvaBuffer < bufferLength) (hhi : bufferLength < 2 ^ 31)

include hlo hhi

/-- The host finds the updates in the bytes, by the records. -/
theorem vbva_framing (acts : List VbvaAct)
    (hclient : Along vbvaStep VbvaClient acts { vbva := vbvaEnable bufferLength }) :
    ∀ s, runSchedule vbvaStep acts { vbva := vbvaEnable bufferLength } = some s → VbvaFraming s :=
  fun _ hrun => (vbvaInv_run hlo hhi hclient hrun).framing

end Runs

theorem vbva_framing_wrapAround :
    ∃ s, runSchedule vbvaStep wrapAround { vbva := vbvaEnable 588 } = some s ∧
      s.retired = [100, 280] ∧ VbvaFraming s := by
  have hsome : (runSchedule vbvaStep wrapAround { vbva := vbvaEnable 588 }).map VbvaState.retired =
      some [100, 280] := by decide +kernel
  obtain ⟨s, hs, heq⟩ := Option.map_eq_some_iff.1 hsome
  exact ⟨s, hs, heq, vbva_framing (by decide) (by decide) wrapAround (by decide +kernel) s hs⟩

end KernelModules
