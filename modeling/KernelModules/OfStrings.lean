import KernelModules.CStrings
import KernelModules.OfNode
import Mathlib.Algebra.Order.Ring.Nat

/-!
# Names in a property

A string-list property is a sequence of strings, each with its NUL. `of_property_match_string`
and `lkpi_platform_get_irq_byname` look a name up with the same loop, `matchStrings` : compare
the string at an offset, else go on behind it.

The loop stops at the length of the property, but `strcmp` and `strlen` stop only at a NUL. The
property is what the firmware has, and `OF_getprop_alloc` adds nothing to it. If it does not end
in NUL, the loop reads behind it unless it finds the name before (`searchExact_iff`).
-/

namespace KernelModules

open CStrings

/-- The properties of nodes. -/
structure OfProperties where
  /-- `OF_getprop_alloc` : the bytes of a property; none if there is no such property. -/
  ofGetprop : ℕ → String → List UInt8
  /-- Lengths are `int`s. -/
  length_lt : ∀ node name, (ofGetprop node name).length < 2 ^ 31
  /-- What stands in memory behind the allocated bytes. -/
  behind : ℕ → String → ℕ → UInt8

/-- The search loop, from string `i` at `off` on, with the offsets it reads. -/
def matchStrings (mem : ℕ → UInt8) (len : ℕ) (name : List UInt8) :
    ℕ → ℕ → ℕ → Option (Option ℕ × List ℕ)
  | 0, _, _ => none
  | fuel + 1, i, off =>
    if off < len then
      let c := strcmpEq mem name off
      if c.1 then some (some i, c.2)
      else
        (strlen mem fuel off).bind fun l =>
          (matchStrings mem len name fuel (i + 1) (off + (l.1 + 1))).map fun r =>
            (r.1, c.2 ++ (l.2 ++ r.2))
    else some (none, [])

/-- The search in a property of a node. -/
def matchProperty (P : OfProperties) (fuel node : ℕ) (propname : String) (name : CString) :
    Option (Option ℕ × List ℕ) :=
  matchStrings (layout (P.ofGetprop node propname) (P.behind node propname))
    (P.ofGetprop node propname).length name.bytes fuel 0 0

/-- `of_property_match_string` -/
def ofPropertyMatchString (F : OpenFirmware) (P : OfProperties) (fuel : ℕ) (np : Ptr)
    (propname : Option String) (string : Option CString) (h : OfHeap) : Option Int :=
  match propname, string with
  | some propname, some string =>
    if np = NULL ∨ h.node F np = 0 then some (-EINVAL)
    else if P.ofGetprop (h.node F np) propname = [] then some (-ENODATA)
    else (matchProperty P fuel (h.node F np) propname string).map fun r =>
      (r.1.map Int.ofNat).getD (-ENODATA)
  | _, _ => some (-EINVAL)

/-! ## The search -/

section Search

variable {mem : ℕ → UInt8} {len : ℕ} {name : List UInt8} {tail : List UInt8}

/-- One step : at a string that ends in NUL the search reads that string and its NUL at most, and
stops with its index or goes on behind it. -/
theorem matchStrings_string (hname : 0 ∉ name) {s rest : List UInt8} {fuel off : ℕ} (i : ℕ)
    (hat : At mem off (s ++ 0 :: rest)) (hs : 0 ∉ s) (hlen : off + (s ++ 0 :: rest).length = len)
    (hlt : (s ++ 0 :: rest).length < fuel + 1) :
    ∃ reads, (∀ o ∈ reads, o < len) ∧ matchStrings mem len name (fuel + 1) i off =
      if s = name then some (some i, reads)
      else (matchStrings mem len name fuel (i + 1) (off + (s.length + 1))).map fun r =>
        (r.1, reads ++ r.2) := by
  rw [List.length_append, List.length_cons] at hlen hlt
  have hstr : At mem off (s ++ [0]) := by
    rw [← List.singleton_append, ← List.append_assoc] at hat
    exact (at_append.1 hat).1
  obtain ⟨hcmp, hreads⟩ := strcmpEq_spec hstr hs hname
  obtain ⟨lreads, hstrlen, hlreads⟩ := strlen_spec hstr hs (show s.length < fuel by omega)
  rw [matchStrings, if_pos (show off < len by omega)]
  dsimp only
  by_cases heq : s = name
  · refine ⟨(strcmpEq mem name off).2, fun o ho => ?_, ?_⟩
    · have := hreads o ho
      omega
    · rw [hcmp, if_pos (decide_eq_true heq), if_pos heq]
  · refine ⟨(strcmpEq mem name off).2 ++ lreads, fun o ho => ?_, ?_⟩
    · rcases List.mem_append.1 ho with ho | ho
      · have := hreads o ho
        omega
      · have := hlreads o ho
        omega
    · rw [hcmp, if_neg (by simp [heq]), if_neg heq, hstrlen, Option.bind_some]
      simp only [List.append_assoc]

/-- If nothing is after the last NUL, or the name is one of the strings before it, the search
stays inside the property, and finds the first string that is the name. -/
theorem matchStrings_spec (hname : 0 ∉ name) : ∀ {strings : List (List UInt8)} {fuel i off : ℕ},
    At mem off (joinNul strings ++ tail) → (∀ s ∈ strings, 0 ∉ s) → (tail = [] ∨ name ∈ strings) →
      off + (joinNul strings ++ tail).length = len → (joinNul strings ++ tail).length < fuel →
      ∃ reads, matchStrings mem len name fuel i off =
          some ((strings.idxOf? name).map (i + ·), reads) ∧ ∀ o ∈ reads, o < len
  | _, 0, _, _, _, _, _, _, hlt => absurd hlt (Nat.not_lt_zero _)
  | [], fuel + 1, i, off, _, _, htail, hlen, _ => by
    obtain rfl := htail.resolve_right List.not_mem_nil
    have hoff : ¬off < len := by
      rw [← hlen]
      exact Nat.lt_irrefl _
    exact ⟨[], by rw [matchStrings, if_neg hoff]; rfl, fun o ho => absurd ho List.not_mem_nil⟩
  | s :: strings, fuel + 1, i, off, hat, hs, htail, hlen, hlt => by
    obtain ⟨hs₀, hs⟩ := List.forall_mem_cons.1 hs
    rw [joinNul_cons, List.append_assoc, List.cons_append] at hat hlen hlt
    obtain ⟨reads, hreads, hstep⟩ := matchStrings_string hname i hat hs₀ hlen hlt
    rw [hstep]
    by_cases heq : s = name
    · exact ⟨reads, by simp [heq, List.idxOf?_cons], hreads⟩
    · rw [List.length_append, List.length_cons] at hlen hlt
      obtain ⟨reads', hrest, hreads'⟩ := matchStrings_spec hname (at_append.1 hat).2.2 hs
        (htail.imp_right fun h => (List.mem_cons.1 h).resolve_left (Ne.symm heq)) (i := i + 1)
        (by omega) (show (joinNul strings ++ tail).length < fuel by omega)
      rw [if_neg heq, ← Nat.add_assoc, hrest, Option.map_some]
      refine ⟨reads ++ reads', congrArg some (Prod.ext ?_ rfl), fun o ho => ?_⟩
      · simp [List.idxOf?_cons, heq, Function.comp_def, Nat.add_assoc, Nat.add_comm 1]
      · exact (List.mem_append.1 ho).elim (hreads o) (hreads' o)

/-- If bytes are after the last NUL and the name is none of the strings before it, the search
reads behind the property before it returns. -/
theorem mem_reads_of_matchStrings (hname : 0 ∉ name) (htail : tail ≠ []) (hnul : 0 ∉ tail) :
    ∀ {strings : List (List UInt8)} {fuel i off : ℕ} {r : Option ℕ × List ℕ},
      At mem off (joinNul strings ++ tail) → (∀ s ∈ strings, 0 ∉ s) → name ∉ strings →
      off + (joinNul strings ++ tail).length = len → (joinNul strings ++ tail).length < fuel →
      matchStrings mem len name fuel i off = some r → len ∈ r.2
  | _, 0, _, _, _, _, _, _, _, _, h => by simp [matchStrings] at h
  | [], fuel + 1, i, off, r, hat, _, _, hlen, _, h => by
    have hpos := List.length_pos_of_ne_nil htail
    rw [joinNul_nil, List.nil_append] at hat hlen
    rw [matchStrings, if_pos (by omega)] at h
    dsimp only at h
    split at h
    · next hc =>
      obtain rfl := Option.some.inj h
      exact hlen ▸ mem_strcmpEq_of_notMem hat hnul hc
    · obtain ⟨l, hl, h⟩ := Option.bind_eq_some_iff.1 h
      obtain ⟨r', -, rfl⟩ := Option.map_eq_some_iff.1 h
      have := mem_strlen_of_notMem hat hnul hl
      simp [← hlen, this]
  | s :: strings, fuel + 1, i, off, r, hat, hs, hmem, hlen, hlt, h => by
    obtain ⟨hs₀, hs⟩ := List.forall_mem_cons.1 hs
    obtain ⟨heq, hmem⟩ := not_or.1 (mt List.mem_cons.2 hmem)
    rw [joinNul_cons, List.append_assoc, List.cons_append] at hat hlen hlt
    obtain ⟨reads, -, hstep⟩ := matchStrings_string hname i hat hs₀ hlen hlt
    rw [hstep, if_neg (Ne.symm heq), ← Nat.add_assoc] at h
    obtain ⟨r', hr', rfl⟩ := Option.map_eq_some_iff.1 h
    rw [List.length_append, List.length_cons] at hlen hlt
    exact List.mem_append_right _ (mem_reads_of_matchStrings hname htail hnul
      (at_append.1 hat).2.2 hs hmem (by omega) (by omega) hr')

end Search

/-! ## Exactness -/

/-- The search for a name in a property returns, reads only the bytes of the property, and finds
the first of its strings that is the name. -/
def SearchExact (P : OfProperties) (node : ℕ) (propname : String) (name : CString) : Prop :=
  ∀ fuel > (P.ofGetprop node propname).length, ∃ found reads,
    matchProperty P fuel node propname name = some (found, reads) ∧
    (∀ o ∈ reads, o < (P.ofGetprop node propname).length) ∧
    ∀ i, found = some i ↔ (splitNul (P.ofGetprop node propname)).1[i]? = some name.bytes ∧
      ∀ j < i, (splitNul (P.ofGetprop node propname)).1[j]? ≠ some name.bytes

theorem idxOf?_eq_some_iff_getElem? {x : List UInt8} {l : List (List UInt8)} {i : ℕ} :
    l.idxOf? x = some i ↔ l[i]? = some x ∧ ∀ j < i, l[j]? ≠ some x := by
  rw [List.idxOf?_eq_some_iff]
  constructor
  · rintro ⟨hi, rfl, hj⟩
    refine ⟨List.getElem?_eq_getElem hi, fun j hlt h => hj j hlt ?_⟩
    rw [List.getElem?_eq_getElem (Nat.lt_trans hlt hi)] at h
    exact Option.some.inj h
  · rintro ⟨hx, hj⟩
    obtain ⟨hi, rfl⟩ := List.getElem?_eq_some_iff.1 hx
    refine ⟨hi, rfl, fun j hlt h => hj j hlt ?_⟩
    rw [List.getElem?_eq_getElem (Nat.lt_trans hlt hi), h]

/-- The search is exact if and only if the property ends in NUL, or the name is one of its
strings that do. -/
theorem searchExact_iff (P : OfProperties) (node : ℕ) (propname : String) (name : CString)
    (hne : P.ofGetprop node propname ≠ []) :
    SearchExact P node propname name ↔ (P.ofGetprop node propname).getLast? = some 0 ∨
      name.bytes ∈ (splitNul (P.ofGetprop node propname)).1 := by
  obtain ⟨hs, ht⟩ := nul_notMem_splitNul (P.ofGetprop node propname)
  have hjoin := joinNul_splitNul (P.ofGetprop node propname)
  have hlen : 0 + (joinNul (splitNul (P.ofGetprop node propname)).1 ++
      (splitNul (P.ofGetprop node propname)).2).length = (P.ofGetprop node propname).length := by
    rw [hjoin, Nat.zero_add]
  have hat : At (layout (P.ofGetprop node propname) (P.behind node propname)) 0
      (joinNul (splitNul (P.ofGetprop node propname)).1 ++
        (splitNul (P.ofGetprop node propname)).2) := by
    rw [hjoin]
    exact at_layout _ _
  rw [← splitNul_snd_eq_nil hne]
  constructor
  · intro h
    by_contra hnot
    obtain ⟨htail, hmem⟩ := not_or.1 hnot
    obtain ⟨found, reads, hsearch, hreads, -⟩ := h _ (Nat.lt_succ_self _)
    have hread := mem_reads_of_matchStrings name.nul_notMem htail ht hat hs hmem hlen
      (by rw [hjoin]; exact Nat.lt_succ_self _) hsearch
    exact Nat.lt_irrefl _ (hreads _ hread)
  · intro h fuel hfuel
    obtain ⟨reads, hsearch, hreads⟩ := matchStrings_spec name.nul_notMem hat hs h (i := 0) hlen
      (by rwa [hjoin])
    refine ⟨_, reads, hsearch, hreads, fun i => ?_⟩
    rw [← idxOf?_eq_some_iff_getElem?]
    simp

/-- Where the search is exact, `of_property_match_string` returns the index of the first string that
is the name, and `-ENODATA` if there is none. -/
theorem ofPropertyMatchString_eq_iff (F : OpenFirmware) {P : OfProperties} {h : OfHeap} {np : Ptr}
    {propname : String} {name : CString} (hnp : np ≠ NULL) (hnode : h.node F np ≠ 0)
    (hne : P.ofGetprop (h.node F np) propname ≠ [])
    (hexact : SearchExact P (h.node F np) propname name) {fuel : ℕ}
    (hfuel : (P.ofGetprop (h.node F np) propname).length < fuel) (i : ℕ) :
    ofPropertyMatchString F P fuel np (some propname) (some name) h = some (i : Int) ↔
      (splitNul (P.ofGetprop (h.node F np) propname)).1[i]? = some name.bytes ∧
        ∀ j < i, (splitNul (P.ofGetprop (h.node F np) propname)).1[j]? ≠ some name.bytes := by
  obtain ⟨found, reads, hsearch, -, hfound⟩ := hexact fuel hfuel
  rw [← hfound i, ofPropertyMatchString, if_neg (not_or.2 ⟨hnp, hnode⟩), if_neg hne, hsearch]
  cases found with
  | none => simp [ENODATA]
  | some k =>
    rw [Option.map_some, Option.map_some, Option.getD_some, Option.some.injEq, Option.some.injEq]
    exact Int.ofNat_inj

/-- Firmware with one property on every node. -/
def OfProperties.single (value : List UInt8) (h : value.length < 2 ^ 31) : OfProperties where
  ofGetprop _ _ := value
  length_lt _ _ := h
  behind _ _ _ := 0

/-- `"hd"` -/
def hdName : CString :=
  ⟨[104, 100], by decide⟩

/-- In `"host\0hd\0"` the search for `"hd"` is exact. -/
theorem searchExact_hostHd :
    SearchExact (.single [104, 111, 115, 116, 0, 104, 100, 0] (by decide)) 1 "reg-names" hdName :=
  (searchExact_iff _ 1 "reg-names" hdName (by decide)).2 (.inl (by decide))

/-- In `"host\0hd"` it reads the byte behind the property, and if this is 0 it finds a string
that does not end in the property. -/
theorem not_searchExact_unterminated :
    ¬SearchExact (.single [104, 111, 115, 116, 0, 104, 100] (by decide)) 1 "reg-names" hdName := by
  intro h
  obtain ⟨found, reads, hsearch, hreads, -⟩ := h 8 (by decide)
  have hrun : matchProperty (.single [104, 111, 115, 116, 0, 104, 100] (by decide)) 8 1 "reg-names"
      hdName = some (some 1, [0, 1, 0, 1, 2, 3, 4, 5, 6, 7]) := by
    decide
  obtain ⟨-, rfl⟩ := Prod.mk.inj (Option.some.inj (hrun.symm.trans hsearch))
  exact absurd (hreads 7 (by decide)) (by decide)

end KernelModules
