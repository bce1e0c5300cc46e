import Mathlib.Algebra.Order.Ring.Nat
import Mathlib.Data.List.Basic

/-!
# Little-endian records in byte strings

A record is a concatenation of little-endian fields, and stands at an offset of a byte string
(`At`). Reading a field of it gives the value (`At.readLE`), and the fields after the first are
records at the offset behind it (`At.field`).
-/

namespace KernelModules.LittleEndian

/-- The `w` bytes of a number, lowest first. -/
def leBytes : ℕ → ℕ → List UInt8
  | 0, _ => []
  | w + 1, n => UInt8.ofNat n :: leBytes w (n / 256)

/-- The number with these bytes. -/
def leNat : List UInt8 → ℕ
  | [] => 0
  | b :: bs => b.toNat + 256 * leNat bs

@[simp] theorem length_leBytes : ∀ w n : ℕ, (leBytes w n).length = w
  | 0, _ => rfl
  | w + 1, n => by rw [leBytes, List.length_cons, length_leBytes]

theorem leNat_leBytes : ∀ {w n : ℕ}, n < 256 ^ w → leNat (leBytes w n) = n
  | 0, n, h => (Nat.lt_one_iff.1 (by simpa using h)).symm
  | w + 1, n, h => by
    have hdiv : n / 256 < 256 ^ w := Nat.div_lt_of_lt_mul (by rwa [pow_succ'] at h)
    have hbyte : (UInt8.ofNat n).toNat = n % 256 := UInt8.toNat_ofNat'
    rw [leBytes, leNat, leNat_leBytes hdiv, hbyte]
    exact Nat.mod_add_div n 256

/-- `struct.unpack_from` : `w` bytes at an offset, if the data has them. -/
def readLE (w : ℕ) (data : List UInt8) (off : ℕ) : Option ℕ :=
  if off + w ≤ data.length then some (leNat ((data.drop off).take w)) else none

/-- The bytes `bs` stand at the offset. -/
def At (data : List UInt8) (off : ℕ) (bs : List UInt8) : Prop :=
  bs <+: data.drop off

namespace At

variable {data a b : List UInt8} {off w : ℕ}

theorem length_le (h : At data off a) : a.length ≤ data.length - off := by
  have hle := List.IsPrefix.length_le h
  rwa [List.length_drop] at hle

theorem left (h : At data off (a ++ b)) : At data off a :=
  (List.prefix_append a b).trans h

/-- The fields after the first. -/
theorem field (h : At data off (a ++ b)) (hw : a.length = w) : At data (off + w) b := by
  obtain ⟨rest, hrest⟩ := h
  refine ⟨rest, ?_⟩
  rw [← List.drop_drop, ← hrest, List.append_assoc, ← hw, List.drop_left]

theorem take_eq (h : At data off a) : (data.drop off).take a.length = a :=
  (List.prefix_iff_eq_take.1 h).symm

theorem readLE {n : ℕ} (h : At data off (leBytes w n)) (hw : 0 < w) (hn : n < 256 ^ w) :
    LittleEndian.readLE w data off = some n := by
  have hlen := h.length_le
  have htake := h.take_eq
  rw [length_leBytes] at hlen htake
  rw [LittleEndian.readLE, if_pos (by omega), htake, leNat_leBytes hn]

theorem read16 {x : UInt16} (h : At data off (leBytes 2 x.toNat ++ b)) :
    LittleEndian.readLE 2 data off = some x.toNat :=
  h.left.readLE (by decide) x.toNat_lt

theorem read32 {x : UInt32} (h : At data off (leBytes 4 x.toNat ++ b)) :
    LittleEndian.readLE 4 data off = some x.toNat :=
  h.left.readLE (by decide) x.toNat_lt

theorem read64 {x : UInt64} (h : At data off (leBytes 8 x.toNat ++ b)) :
    LittleEndian.readLE 8 data off = some x.toNat :=
  h.left.readLE (by decide) x.toNat_lt

theorem getElem? {x : UInt8} (h : At data off (x :: b)) : data[off]? = some x := by
  obtain ⟨rest, hrest⟩ := h
  rw [← List.head?_drop, ← hrest]
  rfl

end At

end KernelModules.LittleEndian
