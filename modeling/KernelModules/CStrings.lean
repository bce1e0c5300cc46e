import Mathlib.Data.List.Basic

/-!
# Strings in memory

`strcmp` and `strlen` on raw memory. Beside its result each has the offsets it read. Nothing but
a NUL byte stops them : on a string that ends in NUL they read the string and its NUL, and on
bytes without one they read past the end (`mem_strlen_of_notMem`).

`splitNul` cuts a value into the strings that end in NUL and the bytes after the last NUL.
-/

namespace KernelModules.CStrings

/-- A C string : the bytes before its NUL. -/
structure CString where
  bytes : List UInt8
  nul_notMem : 0 ∉ bytes

/-- `strcmp(&mem[off], name) == 0` -/
def strcmpEq (mem : ℕ → UInt8) : List UInt8 → ℕ → Bool × List ℕ
  | [], off => (mem off == 0, [off])
  | c :: name, off =>
    if mem off = c then
      let r := strcmpEq mem name (off + 1)
      (r.1, off :: r.2)
    else (false, [off])

/-- `strlen(&mem[off])` -/
def strlen (mem : ℕ → UInt8) : ℕ → ℕ → Option (ℕ × List ℕ)
  | 0, _ => none
  | fuel + 1, off =>
    if mem off = 0 then some (0, [off])
    else (strlen mem fuel (off + 1)).map fun r => (r.1 + 1, off :: r.2)

/-- The bytes stand in memory from `off` on. -/
def At (mem : ℕ → UInt8) : ℕ → List UInt8 → Prop
  | _, [] => True
  | off, c :: s => mem off = c ∧ At mem (off + 1) s

/-- Memory with a value at its start and other bytes behind it. -/
def layout (value : List UInt8) (behind : ℕ → UInt8) (off : ℕ) : UInt8 :=
  value.getD off (behind off)

/-- The strings of a value that end in NUL, and the bytes after the last NUL. -/
def splitNul : List UInt8 → List (List UInt8) × List UInt8
  | [] => ([], [])
  | c :: value =>
    if c = 0 then ([] :: (splitNul value).1, (splitNul value).2)
    else
      match (splitNul value).1 with
      | [] => ([], c :: (splitNul value).2)
      | s :: strings => ((c :: s) :: strings, (splitNul value).2)

/-- The strings with their NULs, one after the other. -/
def joinNul (strings : List (List UInt8)) : List UInt8 :=
  strings.flatMap (· ++ [0])

@[simp] theorem joinNul_nil : joinNul [] = [] :=
  rfl

@[simp] theorem joinNul_cons (s : List UInt8) (strings : List (List UInt8)) :
    joinNul (s :: strings) = s ++ 0 :: joinNul strings := by
  simp [joinNul]

/-! ## Splitting a value -/

theorem joinNul_splitNul : ∀ value : List UInt8,
    joinNul (splitNul value).1 ++ (splitNul value).2 = value
  | [] => rfl
  | c :: value => by
    have ih := joinNul_splitNul value
    rw [splitNul]
    split
    · next h => simp [h, ih]
    · cases hs : (splitNul value).1 with
      | nil =>
        rw [hs] at ih
        simpa using ih
      | cons s strings =>
        rw [hs] at ih
        simpa using ih

theorem nul_notMem_splitNul : ∀ value : List UInt8,
    (∀ s ∈ (splitNul value).1, 0 ∉ s) ∧ 0 ∉ (splitNul value).2
  | [] => by simp [splitNul]
  | c :: value => by
    obtain ⟨hs, ht⟩ := nul_notMem_splitNul value
    rw [splitNul]
    split
    · exact ⟨List.forall_mem_cons.2 ⟨List.not_mem_nil, hs⟩, ht⟩
    · next hc =>
      cases hstrings : (splitNul value).1 with
      | nil =>
        refine ⟨by simp, fun h => ?_⟩
        rcases List.mem_cons.1 h with h | h
        · exact hc h.symm
        · exact ht h
      | cons s strings =>
        rw [hstrings] at hs
        refine ⟨List.forall_mem_cons.2 ⟨fun h => ?_, fun s' hs' =>
          hs s' (List.mem_cons_of_mem _ hs')⟩, ht⟩
        rcases List.mem_cons.1 h with h | h
        · exact hc h.symm
        · exact hs s List.mem_cons_self h

/-- Nothing is after the last NUL exactly if the value ends in NUL. -/
theorem splitNul_snd_eq_nil {value : List UInt8} (hne : value ≠ []) :
    (splitNul value).2 = [] ↔ value.getLast? = some 0 := by
  have hjoin := joinNul_splitNul value
  obtain ⟨-, ht⟩ := nul_notMem_splitNul value
  constructor
  · intro h
    rw [h, List.append_nil] at hjoin
    rcases List.eq_nil_or_concat (splitNul value).1 with hs | ⟨strings, s, hs⟩
    · rw [hs] at hjoin
      exact absurd hjoin.symm hne
    · rw [← hjoin, hs, List.concat_eq_append, joinNul, List.flatMap_append]
      simp
  · intro h
    by_contra hnil
    rw [← hjoin, List.getLast?_append_of_ne_nil _ hnil] at h
    exact ht (List.mem_of_getLast? h)

/-! ## Memory -/

section Memory

variable {mem : ℕ → UInt8}

theorem at_append : ∀ {s t : List UInt8} {off : ℕ}, At mem off (s ++ t) ↔
    At mem off s ∧ At mem (off + s.length) t
  | [], t, off => by simp [At]
  | c :: s, t, off => by
    rw [List.cons_append, At, At, at_append, and_assoc, List.length_cons,
      show off + 1 + s.length = off + (s.length + 1) by omega]

theorem at_layout (value : List UInt8) (behind : ℕ → UInt8) : At (layout value behind) 0 value := by
  suffices h : ∀ s t : List UInt8, value = s ++ t → At (layout value behind) s.length t from
    h [] value rfl
  intro s t
  induction t generalizing s with
  | nil => exact fun _ => trivial
  | cons c t ih =>
    intro hvalue
    refine ⟨?_, ?_⟩
    · simp [layout, hvalue]
    · have h := ih (s ++ [c]) (by simp [hvalue])
      rwa [List.length_append] at h

/-- On a string that ends in NUL, `strcmp` decides equality, and reads the string and its NUL at
most. -/
theorem strcmpEq_spec : ∀ {name s : List UInt8} {off : ℕ}, At mem off (s ++ [0]) → 0 ∉ s →
    0 ∉ name → (strcmpEq mem name off).1 = decide (s = name) ∧
      ∀ o ∈ (strcmpEq mem name off).2, o ≤ off + s.length
  | [], [], off, h, _, _ => by simp [strcmpEq, h.1]
  | [], c :: s, off, h, hs, _ => by
    have hc : c ≠ 0 := fun h0 => hs (h0 ▸ List.mem_cons_self)
    simp [strcmpEq, h.1, hc]
  | c :: name, [], off, h, _, hname => by
    have hc : (0 : UInt8) ≠ c := fun h0 => hname (h0 ▸ List.mem_cons_self)
    simp [strcmpEq, h.1, hc]
  | c :: name, d :: s, off, h, hs, hname => by
    by_cases hd : d = c
    · obtain ⟨heq, hreads⟩ := strcmpEq_spec h.2 (fun h0 => hs (List.mem_cons_of_mem _ h0))
        fun h0 => hname (List.mem_cons_of_mem _ h0)
      rw [strcmpEq, if_pos (h.1.trans hd)]
      refine ⟨by simp [heq, hd], fun o ho => ?_⟩
      rw [List.length_cons]
      rcases List.mem_cons.1 ho with rfl | ho
      · omega
      · have := hreads o ho
        omega
    · rw [strcmpEq, if_neg (h.1 ▸ hd)]
      simp [hd]

/-- On a string that ends in NUL, `strlen` counts its bytes, and reads them and the NUL. -/
theorem strlen_spec : ∀ {s : List UInt8} {off fuel : ℕ}, At mem off (s ++ [0]) → 0 ∉ s →
    s.length < fuel → ∃ reads, strlen mem fuel off = some (s.length, reads) ∧
      ∀ o ∈ reads, o ≤ off + s.length
  | _, _, 0, _, _, hlt => absurd hlt (Nat.not_lt_zero _)
  | [], off, fuel + 1, h, _, _ => ⟨[off], if_pos h.1, by simp⟩
  | c :: s, off, fuel + 1, h, hs, hlt => by
    obtain ⟨reads, hlen, hreads⟩ := strlen_spec h.2 (fun h0 => hs (List.mem_cons_of_mem _ h0))
      (Nat.lt_of_succ_lt_succ hlt)
    have hc : mem off ≠ 0 := fun h0 => hs (h.1.symm.trans h0 ▸ List.mem_cons_self)
    refine ⟨off :: reads, ?_, fun o ho => ?_⟩
    · rw [strlen, if_neg hc, hlen]
      rfl
    · rw [List.length_cons]
      rcases List.mem_cons.1 ho with rfl | ho
      · omega
      · have := hreads o ho
        omega

/-- On bytes without a NUL, `strlen` reads past them. -/
theorem mem_strlen_of_notMem : ∀ {t : List UInt8} {off fuel n : ℕ} {reads : List ℕ},
    At mem off t → 0 ∉ t → strlen mem fuel off = some (n, reads) → off + t.length ∈ reads
  | _, _, 0, _, _, _, _, h => by simp [strlen] at h
  | [], off, fuel + 1, n, reads, _, _, h => by
    rw [strlen] at h
    split at h
    · obtain ⟨-, rfl⟩ := Prod.mk.inj (Option.some.inj h)
      exact List.mem_singleton_self _
    · obtain ⟨r, -, hr⟩ := Option.map_eq_some_iff.1 h
      obtain ⟨-, rfl⟩ := Prod.mk.inj hr
      exact List.mem_cons_self
  | c :: t, off, fuel + 1, n, reads, hat, ht, h => by
    have hc : mem off ≠ 0 := fun h0 => ht (hat.1.symm.trans h0 ▸ List.mem_cons_self)
    rw [strlen, if_neg hc] at h
    obtain ⟨r, hr, he⟩ := Option.map_eq_some_iff.1 h
    obtain ⟨-, rfl⟩ := Prod.mk.inj he
    have := mem_strlen_of_notMem hat.2 (fun h0 => ht (List.mem_cons_of_mem _ h0)) hr
    refine List.mem_cons_of_mem _ ?_
    rwa [List.length_cons, show off + (t.length + 1) = off + 1 + t.length by omega]

/-- Nor does `strcmp` find bytes without a NUL equal to a string before it reads past them. -/
theorem mem_strcmpEq_of_notMem : ∀ {name t : List UInt8} {off : ℕ}, At mem off t → 0 ∉ t →
    (strcmpEq mem name off).1 = true → off + t.length ∈ (strcmpEq mem name off).2
  | [], [], off, _, _, _ => List.mem_singleton_self _
  | [], c :: t, off, hat, ht, h => by
    have hc : mem off ≠ 0 := fun h0 => ht (hat.1.symm.trans h0 ▸ List.mem_cons_self)
    simp [strcmpEq, hc] at h
  | c :: name, [], off, _, _, h => by
    rw [strcmpEq]
    split
    · exact List.mem_cons_self
    · exact List.mem_singleton_self _
  | c :: name, d :: t, off, hat, ht, h => by
    rw [strcmpEq] at h ⊢
    split
    · next hc =>
      rw [if_pos hc] at h
      have := mem_strcmpEq_of_notMem hat.2 (fun h0 => ht (List.mem_cons_of_mem _ h0)) h
      refine List.mem_cons_of_mem _ ?_
      rwa [List.length_cons, show off + (t.length + 1) = off + 1 + t.length by omega]
    · next hc => simp [hc] at h

end Memory

end KernelModules.CStrings
