import Mathlib.Data.List.Basic

/-!
# Decoding UTF-8 with replacement

`bytes.decode("utf-8", "replace")` of Python : a well-formed sequence is its character, and each
maximal part of an ill-formed one is a replacement character. On the encoding of a string it
gives the string (`decodeReplace_utf8`).
-/

namespace KernelModules.Utf8

/-- The UTF-8 encoding of a string. -/
def utf8 (s : String) : List UInt8 :=
  s.toList.flatMap String.utf8EncodeChar

/-- A byte `10xxxxxx`. -/
def isContinuation (b : UInt8) : Bool :=
  0x80 ≤ b && b ≤ 0xBF

/-- The second byte of a sequence of three or four bytes, after the first. -/
def secondOk (b₀ b₁ : UInt8) : Bool :=
  if b₀ = 0xE0 then 0xA0 ≤ b₁ && b₁ ≤ 0xBF
  else if b₀ = 0xED then 0x80 ≤ b₁ && b₁ ≤ 0x9F
  else if b₀ = 0xF0 then 0x90 ≤ b₁ && b₁ ≤ 0xBF
  else if b₀ = 0xF4 then 0x80 ≤ b₁ && b₁ ≤ 0x8F
  else isContinuation b₁

/-- The length of the part that one replacement character stands for, where no character
starts. -/
def illFormedLength : List UInt8 → ℕ
  | b₀ :: b₁ :: rest =>
    if 0xE0 ≤ b₀ && b₀ ≤ 0xF4 && secondOk b₀ b₁ then
      match rest with
      | b₂ :: _ => if 0xF0 ≤ b₀ && isContinuation b₂ then 3 else 2
      | [] => 2
    else 1
  | _ => 1

/-- The characters of at most `fuel` sequences. -/
def decodeChars : ℕ → List UInt8 → List Char
  | 0, _ => []
  | _, [] => []
  | fuel + 1, bs =>
    match bs.toByteArray.utf8DecodeChar? 0 with
    | some c => c :: decodeChars fuel (bs.drop c.utf8Size)
    | none => '\uFFFD' :: decodeChars fuel (bs.drop (illFormedLength bs))

/-- `bs.decode("utf-8", "replace")` -/
def decodeReplace (bs : List UInt8) : String :=
  String.ofList (decodeChars bs.length bs)

theorem decodeChars_flatMap : ∀ (cs : List Char) (fuel : ℕ),
    (cs.flatMap String.utf8EncodeChar).length ≤ fuel →
      decodeChars fuel (cs.flatMap String.utf8EncodeChar) = cs
  | [], fuel, _ => by cases fuel <;> rfl
  | c :: cs, fuel, h => by
    have hpos := c.utf8Size_pos
    rw [List.flatMap_cons, List.length_append, String.length_utf8EncodeChar] at h
    obtain ⟨fuel, rfl⟩ := Nat.exists_eq_succ_of_ne_zero (Nat.ne_of_gt (by omega : 0 < fuel))
    have hchar : (String.utf8EncodeChar c ++
        cs.flatMap String.utf8EncodeChar).toByteArray.utf8DecodeChar? 0 = some c := by
      rw [List.toByteArray_append]
      exact ByteArray.utf8DecodeChar?_utf8EncodeChar_append
    have hdrop : (String.utf8EncodeChar c ++ cs.flatMap String.utf8EncodeChar).drop c.utf8Size =
        cs.flatMap String.utf8EncodeChar := by
      rw [← String.length_utf8EncodeChar c, List.drop_left]
    rw [List.flatMap_cons]
    cases hbs : String.utf8EncodeChar c ++ cs.flatMap String.utf8EncodeChar with
    | nil => exact absurd (List.append_eq_nil_iff.1 hbs).1 String.utf8EncodeChar_ne_nil
    | cons b bs =>
      rw [hbs] at hchar hdrop
      rw [decodeChars, hchar]
      · simp only [hdrop]
        rw [decodeChars_flatMap cs fuel (by omega)]
      · exact List.cons_ne_nil b bs

/-- Decoding an encoded string gives the string. -/
theorem decodeReplace_utf8 (s : String) : decodeReplace (utf8 s) = s := by
  rw [decodeReplace, utf8, decodeChars_flatMap _ _ (Nat.le_refl _), String.ofList_toList]

end KernelModules.Utf8
