import KernelModules.FixedWidth
import KernelModules.Interleaving
import KernelModules.Ring

/-!
# The VBVA ring

The vboxvideo driver sends updates to the host through a ring of bytes and a ring of records in
video memory (`vbva_base.c`). The guest begins an update, which takes a record, writes its bytes,
and ends it. The host follows : it fetches bytes and gives records back. Only the guest changes
`free_offset` and `record_free_index`, only the host changes `data_offset` and
`record_first_index`.

The parties of the interleaving are the guest, whose steps are its accesses to the shared memory,
and the host, which takes no more than there is. A flush asks the host to go on; what the host does
then is a step of its own, so a flush is no more than a place where the guest reads again.

What the host has fetched, followed by what is in the ring, is what the guest has sent, update by
update (`vbva_exact`).
-/

namespace KernelModules

open Interleaving KernelModules.Ring

/-! ## The code -/

/-- The size of the record ring. -/
def VBVA_MAX_RECORDS : ℕ := 64

/-- The flag of a record that is not complete. -/
def VBVA_F_RECORD_PARTIAL : ℕ := 2 ^ 31

/-- `sizeof(struct vbva_buffer)`, without the data. -/
def sizeofVbvaBuffer : ℕ := 288

/-- `struct vbva_buffer`. `modeEnabled` is the flag `VBVA_F_MODE_ENABLED` of `host_events`, a record
is its `len_and_flags`. -/
structure VbvaBuffer where
  modeEnabled : Bool := false
  dataOffset : ℕ := 0
  freeOffset : ℕ := 0
  records : ℕ → ℕ := fun _ => 0
  recordFirstIndex : ℕ := 0
  recordFreeIndex : ℕ := 0
  partialWriteTresh : ℕ := 0
  dataLen : ℕ := 0
  data : ℕ → UInt8 := fun _ => 0

/-- The buffer after `vbva_enable`. -/
def vbvaEnable (bufferLength : ℕ) : VbvaBuffer where
  partialWriteTresh := 256
  dataLen := u32 (bufferLength - sizeofVbvaBuffer)

/-- `vbva_buffer_available` -/
def vbvaBufferAvailable (vbva : VbvaBuffer) : ℕ :=
  let diff := s32 (vbva.dataOffset - vbva.freeOffset)
  if 0 < diff then u32 diff else u32 (vbva.dataLen + diff)

/-- `vbva_buffer_place_data_at` -/
def vbvaBufferPlaceDataAt (vbva : VbvaBuffer) (p : List UInt8) (offset : ℕ) : VbvaBuffer :=
  let bytesTillBoundary := u32 (vbva.dataLen - offset)
  let diff := s32 (p.length - bytesTillBoundary)
  if diff ≤ 0 then { vbva with data := memcpy vbva.data offset p }
  else
    let data := memcpy vbva.data offset (p.take bytesTillBoundary)
    { vbva with data := memcpy data 0 ((p.drop bytesTillBoundary).take diff.toNat) }

/-- Where the guest is. `p` is what remains of the data of `vbva_write`, from the step `place` to the
step `account` with the chunk of it that is written. -/
inductive VbvaPc where
  | idle
  | beginFlushed
  | loop (p : List UInt8) (available : ℕ)
  | flushed (p : List UInt8)
  | retest (p : List UInt8) (available : ℕ)
  | place (p : List UInt8) (chunk available : ℕ)
  | advance (p : List UInt8) (chunk available : ℕ)
  | account (p : List UInt8) (chunk available : ℕ)
deriving DecidableEq, Repr

/-- A call of `vbva_write` that has returned : its data, what it has sent of it, and the result. -/
structure VbvaCall where
  data : List UInt8
  sent : List UInt8
  ret : Bool
deriving DecidableEq, Repr

/-- The buffer, the guest's context, and what has happened so far : the updates that have ended, the
update that is open, the calls of `vbva_write`, and what the host has fetched and given back. -/
structure VbvaState where
  vbva : VbvaBuffer
  bufferOverflow : Bool := false
  record : Option ℕ := none
  pc : VbvaPc := .idle
  closed : List (List UInt8) := []
  update : Option (List UInt8) := none
  calls : List VbvaCall := []
  data : List UInt8 := []
  sent : List UInt8 := []
  fetched : List UInt8 := []
  retired : List ℕ := []

namespace VbvaState

/-- The bytes in the ring. -/
def bytesUsed (s : VbvaState) : ℕ :=
  used s.vbva.dataLen s.vbva.dataOffset s.vbva.freeOffset

/-- The records in the ring. -/
def recordsUsed (s : VbvaState) : ℕ :=
  used VBVA_MAX_RECORDS s.vbva.recordFirstIndex s.vbva.recordFreeIndex

/-- `vbva_write` returns. -/
def ret (s : VbvaState) (b : Bool) : VbvaState :=
  { s with pc := .idle, calls := s.calls ++ [⟨s.data, s.sent, b⟩], data := [], sent := [] }

end VbvaState

/-- The end of `vbva_buffer_begin_update`. The record is not in the ring before the index is set. -/
def openRecord (s : VbvaState) : VbvaState :=
  let free := s.vbva.recordFreeIndex
  { s with
    vbva := { s.vbva with
      records := Function.update s.vbva.records free VBVA_F_RECORD_PARTIAL
      recordFreeIndex := (free + 1) % VBVA_MAX_RECORDS }
    record := some free
    pc := .idle
    closed := s.closed ++ s.update.toList
    update := some [] }

/-- `vbva_buffer_begin_update` up to the flush. -/
def vbvaBufferBeginUpdate (s : VbvaState) : VbvaState :=
  if s.vbva.modeEnabled = false then s
  else if (s.vbva.recordFreeIndex + 1) % VBVA_MAX_RECORDS = s.vbva.recordFirstIndex then
    { s with pc := .beginFlushed }
  else openRecord s

/-- `vbva_buffer_end_update`. `none` if there is no record to complete. -/
def vbvaBufferEndUpdate (s : VbvaState) : Option VbvaState :=
  s.record.map fun r =>
    { s with
      vbva := { s.vbva with
        records := Function.update s.vbva.records r
          (s.vbva.records r &&& (2 ^ 32 - 1 - VBVA_F_RECORD_PARTIAL)) }
      bufferOverflow := false
      record := none
      closed := s.closed ++ s.update.toList
      update := none }

/-- `vbva_write` up to its loop. -/
def vbvaWrite (p : List UInt8) (s : VbvaState) : VbvaState :=
  let s := { s with data := p, sent := [] }
  match s.record with
  | none => s.ret false
  | some r =>
    if s.bufferOverflow || !(s.vbva.records r).testBit 31 then s.ret false
    else { s with pc := .loop p (vbvaBufferAvailable s.vbva) }

/-- The next step of the guest. -/
def guestStep (s : VbvaState) : Option VbvaState :=
  match s.pc with
  | .idle => none
  | .beginFlushed =>
    if (s.vbva.recordFreeIndex + 1) % VBVA_MAX_RECORDS = s.vbva.recordFirstIndex then
      some { s with pc := .idle }
    else some (openRecord s)
  | .loop p available =>
    some (
      if p.length = 0 then s.ret true
      else if available ≤ p.length then { s with pc := .flushed p }
      else { s with pc := .place p p.length available })
  | .flushed p => some { s with pc := .retest p (vbvaBufferAvailable s.vbva) }
  | .retest p available =>
    some (
      if available ≤ p.length then
        if available ≤ s.vbva.partialWriteTresh then { s with bufferOverflow := true }.ret false
        else { s with pc := .place p (available - s.vbva.partialWriteTresh) available }
      else { s with pc := .place p p.length available })
  | .place p chunk available =>
    some { s with
      vbva := vbvaBufferPlaceDataAt s.vbva (p.take chunk) s.vbva.freeOffset
      pc := .advance p chunk available }
  | .advance p chunk available =>
    some { s with
      vbva := { s.vbva with
        freeOffset := u32 (s.vbva.freeOffset + chunk) % s.vbva.dataLen }
      pc := .account p chunk available
      update := s.update.map (· ++ p.take chunk)
      sent := s.sent ++ p.take chunk }
  | .account p chunk available =>
    s.record.map fun r => { s with
      vbva := { s.vbva with
        records := Function.update s.vbva.records r (u32 (s.vbva.records r + chunk)) }
      pc := .loop (p.drop chunk) (available - chunk) }

/-- What the guest is asked to do, its next step, and what the host may do. -/
inductive VbvaAct where
  | beginUpdate
  | write (p : List UInt8)
  | endUpdate
  | guest
  | fetch (k : ℕ)
  | retire
  | mode (enabled : Bool)
deriving DecidableEq, Repr

/-- A step of the guest or of the host; none if it is not possible. -/
def vbvaStep : VbvaAct → VbvaState → Option VbvaState
  | .beginUpdate, s => if s.pc = .idle then some (vbvaBufferBeginUpdate s) else none
  | .write p, s => if s.pc = .idle then some (vbvaWrite p s) else none
  | .endUpdate, s => if s.pc = .idle then vbvaBufferEndUpdate s else none
  | .guest, s => guestStep s
  | .fetch k, s =>
    if k ≤ s.bytesUsed then
      some { s with
        vbva := { s.vbva with dataOffset := (s.vbva.dataOffset + k) % s.vbva.dataLen }
        fetched := s.fetched ++ window s.vbva.data s.vbva.dataLen s.vbva.dataOffset k }
    else none
  | .retire, s =>
    let first := s.vbva.recordFirstIndex
    if first ≠ s.vbva.recordFreeIndex ∧ (s.vbva.records first).testBit 31 = false then
      some { s with
        vbva := { s.vbva with recordFirstIndex := (first + 1) % VBVA_MAX_RECORDS }
        retired := s.retired ++ [s.vbva.records first] }
    else none
  | .mode enabled, s => some { s with vbva := { s.vbva with modeEnabled := enabled } }

/-- Updates do not overlap, and are smaller than 2 GiB. -/
def VbvaClient : VbvaAct → VbvaState → Prop
  | .beginUpdate, s => s.update = none
  | .write p, s => ∀ m ∈ s.update, m.length + p.length < 2 ^ 31
  | _, _ => True

instance (a : VbvaAct) (s : VbvaState) : Decidable (VbvaClient a s) :=
  match a with
  | .beginUpdate => inferInstanceAs (Decidable (_ = _))
  | .write p => inferInstanceAs (Decidable (∀ m ∈ s.update, m.length + p.length < 2 ^ 31))
  | .endUpdate | .guest | .fetch _ | .retire | .mode _ => isTrue trivial

end KernelModules
