import KernelModules.Elf64
import Mathlib.Data.Finset.Sort
import Mathlib.Data.String.Basic

/-!
# The kext symbol check

`check-kext-symbols.py` : reads the symbol tables of the kernel and of every kext, and fails if a
kext needs a symbol that neither the kernel nor a kext of the set defines. A read outside the
file is an exception, `none` here.

`elfSymbols_represents` : of a well-formed file the parser returns the names it defines and those
it needs. `main_iff` : the check passes exactly if every name a kext needs is there.
-/

namespace KernelModules

open LittleEndian Utf8 Elf64

namespace KextSymbols

/-- `LINKER_SET_PREFIXES` -/
def LINKER_SET_PREFIXES : List String :=
  ["__start_set_", "__stop_set_"]

/-- `SYNTHESIZED` -/
def SYNTHESIZED : Finset String :=
  {"__this_linker_file"}

/-! ## The parser -/

/-- The tuple of a section. -/
structure Section where
  shType : ℕ
  shOffset : ℕ
  shSize : ℕ
  shLink : ℕ
  shEntsize : ℕ
deriving DecidableEq, Repr

/-- The body of the loop over the section headers. -/
def readSection (data : List UInt8) (off : ℕ) : Option Section := do
  let shType ← readLE 4 data (off + 4)
  let shOffset ← readLE 8 data (off + 0x18)
  let shSize ← readLE 8 data (off + 0x20)
  let shLink ← readLE 4 data (off + 0x28)
  let shEntsize ← readLE 8 data (off + 0x38)
  return ⟨shType, shOffset, shSize, shLink, shEntsize⟩

/-- `strtab[st_name:strtab.find(b"\0", st_name)]`. Without a NUL byte the end is -1, so the last
byte is left out. -/
def nameBytes (strtab : List UInt8) (stName : ℕ) : List UInt8 :=
  match (strtab.drop stName).findIdx? (· == 0) with
  | some n => (strtab.drop stName).take n
  | none => (strtab.take (strtab.length - 1)).drop stName

/-- The sets `defined` and `undefined`. -/
abbrev SymbolSets := Finset String × Finset String

/-- The body of the loop over the symbols of a table. -/
def addSymbol (data strtab : List UInt8) (sets : SymbolSets) (off : ℕ) : Option SymbolSets := do
  let stName ← readLE 4 data off
  let stInfo ← data[off + 4]?
  let stShndx ← readLE 2 data (off + 6)
  if stName = 0 then return sets
  let name := decodeReplace (nameBytes strtab stName)
  if name = "" then return sets
  let bind := stInfo >>> 4
  if stShndx = SHN_UNDEF.toNat then
    if bind ≠ STB_WEAK then return (sets.1, insert name sets.2) else return sets
  else if bind ≠ 0 then return (insert name sets.1, sets.2)
  else return sets

/-- The body of the loop over the sections. -/
def addSection (data : List UInt8) (sections : List Section) (sets : SymbolSets) (s : Section) :
    Option SymbolSets :=
  if s.shType ≠ SHT_SYMTAB.toNat ∨ s.shEntsize = 0 then some sets
  else
    match sections[s.shLink]? with
    | none => some sets
    | some str =>
      let strtab := (data.drop str.shOffset).take str.shSize
      (List.range (s.shSize / s.shEntsize)).foldlM
        (fun sets j => addSymbol data strtab sets (s.shOffset + j * s.shEntsize)) sets

/-- `elf_symbols` -/
def elfSymbols (data : List UInt8) : Option SymbolSets :=
  if data.length < 64 ∨ data.take 4 ≠ [0x7f, 0x45, 0x4c, 0x46] then some (∅, ∅)
  else if data[4]? ≠ some 2 then some (∅, ∅)
  else do
    let eShoff ← readLE 8 data 0x28
    let eShentsize ← readLE 2 data 0x3A
    let eShnum ← readLE 2 data 0x3C
    if eShoff = 0 ∨ eShnum = 0 then return (∅, ∅)
    let sections ← (List.range eShnum).mapM fun i => readSection data (eShoff + i * eShentsize)
    sections.foldlM (addSection data sections) (∅, ∅)

/-! ## The check -/

/-- What the check prints. -/
inductive Report where
  | usage
  | kernelNotFound
  | kernelSymbols (count : ℕ)
  | noKexts
  | fail (kext : String) (missing : List String)
  | ok (kext : String) (undefined : ℕ)
  | unresolved
  | allResolvable (count : ℕ)
deriving DecidableEq, Repr

/-- `s.startswith(LINKER_SET_PREFIXES)` -/
def startsWithLinkerSet (s : String) : Bool :=
  LINKER_SET_PREFIXES.any fun p => p.toList.isPrefixOf s.toList

/-- `name.endswith(".kext")` -/
def isKext (name : String) : Bool :=
  ".kext".toList.isSuffixOf name.toList

/-- `name[:-len(".kext")]` -/
def kextBase (name : String) : String :=
  String.ofList (name.toList.take (name.length - ".kext".length))

/-- An entry of the kext directory, with the bytes of `Contents/MacOS/<base>` if that file
exists. -/
structure DirEntry where
  name : String
  binary : Option (List UInt8)
deriving DecidableEq, Repr

/-- The binary of a kext, by the base of its name. -/
def kextBinary (e : DirEntry) : Option (String × List UInt8) :=
  if isKext e.name then e.binary.map fun data => (kextBase e.name, data) else none

/-- The symbols of the kexts, in the order of their names. -/
def kextSymbols (dir : List DirEntry) : Option (List (String × SymbolSets)) :=
  ((dir.mergeSort fun a b => a.name ≤ b.name).filterMap kextBinary).mapM fun kext =>
    (elfSymbols kext.2).map fun sets => (kext.1, sets)

/-- `provided |= defined`, for each kext. -/
def provideAll (provided : Finset String) (kexts : List (String × SymbolSets)) : Finset String :=
  kexts.foldl (fun provided kext => provided ∪ kext.2.1) provided

/-- The symbols of a kext that nothing provides. -/
def missing (provided undefined : Finset String) : Finset String :=
  undefined.filter fun s => s ∉ provided ∧ s ∉ SYNTHESIZED ∧ !startsWithLinkerSet s

/-- The line about one kext. -/
def kextReport (provided : Finset String) (kext : String × SymbolSets) : Report :=
  if missing provided kext.2.2 ≠ ∅ then .fail kext.1 ((missing provided kext.2.2).sort (· ≤ ·))
  else .ok kext.1 kext.2.2.card

/-- `main`, with the number of arguments, the kernel image if that file exists, and the entries
of the kext directory : the exit status and what is printed. -/
def main (argc : ℕ) (kernel : Option (List UInt8)) (dir : List DirEntry) :
    Option (ℕ × List Report) :=
  if argc ≠ 3 then some (2, [.usage])
  else
    match kernel with
    | none => some (1, [.kernelNotFound])
    | some kernel => do
      let (provided, _) ← elfSymbols kernel
      let kexts ← kextSymbols dir
      if kexts.isEmpty then return (1, [.kernelSymbols provided.card, .noKexts])
      let all := provideAll provided kexts
      let sorted := kexts.mergeSort fun a b => a.1 ≤ b.1
      let reports := .kernelSymbols provided.card :: sorted.map (kextReport all)
      if sorted.any fun kext => missing all kext.2.2 ≠ ∅ then return (1, reports ++ [.unresolved])
      else return (0, reports ++ [.allResolvable kexts.length])

/-! ## Loops -/

section Loops

variable {α β : Type}

/-- A loop that raises no exception. -/
theorem foldlM_eq_foldl {f : β → α → Option β} {g : β → α → β} :
    ∀ {l : List α} (b : β), (∀ a ∈ l, ∀ b, f b a = some (g b a)) →
      l.foldlM f b = some (l.foldl g b)
  | [], _, _ => rfl
  | a :: l, b, h => by
    obtain ⟨ha, hl⟩ := List.forall_mem_cons.1 h
    rw [List.foldlM_cons, ha]
    exact foldlM_eq_foldl (g b a) hl

theorem mapM_eq_map {f : α → Option β} {g : α → β} :
    ∀ {l : List α}, (∀ a ∈ l, f a = some (g a)) → l.mapM f = some (l.map g)
  | [], _ => rfl
  | a :: l, h => by
    obtain ⟨ha, hl⟩ := List.forall_mem_cons.1 h
    rw [List.mapM_cons, ha, mapM_eq_map hl]
    rfl

/-- A loop over the indices of a list. -/
theorem foldlM_range {f : β → ℕ → Option β} {g : β → α → β} (b : β) (xs : List α)
    (h : ∀ j x, xs[j]? = some x → ∀ b, f b j = some (g b x)) :
    (List.range xs.length).foldlM f b = some (xs.foldl g b) := by
  induction xs using List.reverseRecOn with
  | nil => rfl
  | append_singleton xs x ih =>
    have hlast : ∀ b, f b xs.length = some (g b x) := h xs.length x (by simp)
    have hinit : ∀ j y, xs[j]? = some y → ∀ b, f b j = some (g b y) := by
      intro j y hj
      refine h j y ?_
      rw [List.getElem?_append_left (List.getElem?_eq_some_iff.1 hj).1, hj]
    rw [List.length_append, List.length_singleton, List.range_succ, List.foldlM_append, ih hinit,
      List.foldl_append]
    simp [hlast]

theorem mapM_range {f : ℕ → Option β} {g : α → β} (xs : List α)
    (h : ∀ j x, xs[j]? = some x → f j = some (g x)) :
    (List.range xs.length).mapM f = some (xs.map g) := by
  induction xs using List.reverseRecOn with
  | nil => rfl
  | append_singleton xs x ih =>
    have hlast : f xs.length = some (g x) := h xs.length x (by simp)
    have hinit : ∀ j y, xs[j]? = some y → f j = some (g y) := by
      intro j y hj
      refine h j y ?_
      rw [List.getElem?_append_left (List.getElem?_eq_some_iff.1 hj).1, hj]
    rw [List.length_append, List.length_singleton, List.range_succ, List.mapM_append, ih hinit,
      List.map_append]
    simp [hlast]

/-- What a loop collects from its elements. -/
theorem foldl_collects {f : β → α → β} {P : β → Prop} {Q : α → Prop}
    (h : ∀ b a, P (f b a) ↔ P b ∨ Q a) :
    ∀ (l : List α) (b : β), P (l.foldl f b) ↔ P b ∨ ∃ a ∈ l, Q a
  | [], b => by simp
  | a :: l, b => by
    rw [List.foldl_cons, foldl_collects h l, h, or_assoc, List.exists_mem_cons_iff]

end Loops

/-! ## Symbols -/

section Symbols

variable {data strtab : List UInt8} {off : ℕ}

theorem findIdx?_nul (rest : List UInt8) : ∀ l : List UInt8, 0 ∉ l →
    (l ++ 0 :: rest).findIdx? (· == 0) = some l.length
  | [], _ => by simp [List.findIdx?_cons]
  | b :: l, h => by
    rw [List.mem_cons, not_or] at h
    have hb : (b == 0) = false := beq_false_of_ne (Ne.symm h.1)
    rw [List.cons_append, List.findIdx?_cons, hb, findIdx?_nul rest l h.2]
    rfl

/-- The bytes up to the NUL byte are the encoded name. -/
theorem nameBytes_eq {s : String} (h : StringAt strtab off s) : nameBytes strtab off = utf8 s := by
  obtain ⟨rest, hrest⟩ := h.at_off
  have hdrop : strtab.drop off = utf8 s ++ 0 :: rest := by
    rw [← hrest, List.append_assoc]
    rfl
  rw [nameBytes, hdrop, findIdx?_nul rest _ h.no_nul]
  exact List.take_left

/-- The name at offset 0 of a string table is empty. -/
theorem name_eq_empty {s : String} (hhead : strtab.head? = some 0) (h : StringAt strtab 0 s) :
    s = "" := by
  obtain ⟨rest, hrest⟩ := h.at_off
  have hnil : utf8 s = [] := by
    cases hs : utf8 s with
    | nil => rfl
    | cons b bs =>
      rw [hs, List.drop_zero] at hrest
      rw [← hrest] at hhead
      have hb : b = 0 := Option.some.inj hhead
      exact absurd (by rw [hs, hb]; exact List.mem_cons_self) h.no_nul
  have hdec := decodeReplace_utf8 s
  rw [hnil] at hdec
  exact hdec.symm

/-- What the loop does with a symbol. -/
def recordSymbol (sets : SymbolSets) (sym : Sym) : SymbolSets :=
  if sym.name = "" then sets
  else if sym.shndx = SHN_UNDEF then
    if sym.bind ≠ STB_WEAK then (sets.1, insert sym.name sets.2) else sets
  else if sym.bind ≠ STB_LOCAL then (insert sym.name sets.1, sets.2)
  else sets

theorem addSymbol_eq {sym : Sym} (hsym : At data off sym.bytes) (hhead : strtab.head? = some 0)
    (hname : StringAt strtab sym.nameOff.toNat sym.name) (sets : SymbolSets) :
    addSymbol data strtab sets off = some (recordSymbol sets sym) := by
  obtain ⟨hstName, hstInfo, hstShndx⟩ := Sym.read hsym
  simp only [addSymbol, hstName, hstInfo, hstShndx, Option.bind_eq_bind, Option.bind_some,
    nameBytes_eq hname, decodeReplace_utf8, UInt16.toNat_inj, recordSymbol, Sym.bind, STB_LOCAL]
  by_cases hzero : sym.nameOff.toNat = 0
  · rw [hzero] at hname
    rw [if_pos hzero, if_pos (name_eq_empty hhead hname)]
    rfl
  · rw [if_neg hzero]
    by_cases hempty : sym.name = ""
    · simp [hempty]
    · by_cases hundef : sym.shndx = SHN_UNDEF
      · by_cases hweak : sym.info >>> 4 = STB_WEAK <;> simp [hempty, hundef, hweak]
      · by_cases hlocal : sym.info >>> 4 = 0 <;> simp [hempty, hundef, hlocal]

/-- A symbol defines a name. -/
def DefinesName (name : String) (sym : Sym) : Prop :=
  name ≠ "" ∧ sym.name = name ∧ sym.shndx ≠ SHN_UNDEF ∧ sym.bind ≠ STB_LOCAL

/-- A symbol needs a name. -/
def NeedsName (name : String) (sym : Sym) : Prop :=
  name ≠ "" ∧ sym.name = name ∧ sym.shndx = SHN_UNDEF ∧ sym.bind ≠ STB_WEAK

theorem mem_recordSymbol_fst (name : String) (sets : SymbolSets) (sym : Sym) :
    name ∈ (recordSymbol sets sym).1 ↔ name ∈ sets.1 ∨ DefinesName name sym := by
  unfold recordSymbol DefinesName
  split
  · grind
  split
  · split <;> grind
  · split <;> grind

theorem mem_recordSymbol_snd (name : String) (sets : SymbolSets) (sym : Sym) :
    name ∈ (recordSymbol sets sym).2 ↔ name ∈ sets.2 ∨ NeedsName name sym := by
  unfold recordSymbol NeedsName
  split
  · grind
  split
  · split <;> grind
  · split <;> grind

end Symbols

/-! ## Sections -/

section Sections

variable {f : ElfFile} {data : List UInt8}

/-- The tuple the parser keeps of a section header. -/
def sectionOf (s : Shdr) : Section :=
  ⟨s.type.toNat, s.offset.toNat, s.size.toNat, s.link.toNat, s.entsize.toNat⟩

theorem readSection_eq {s : Shdr} {off : ℕ} (h : At data off s.bytes) :
    readSection data off = some (sectionOf s) := by
  obtain ⟨htype, hoffset, hsize, hlink, hentsize⟩ := Shdr.read h
  simp [readSection, htype, hoffset, hsize, hlink, hentsize, sectionOf]

/-- What the loop does with the section `i`. -/
def recordSection (f : ElfFile) (sets : SymbolSets) (x : Shdr × ℕ) : SymbolSets :=
  if x.1.type = SHT_SYMTAB then (f.symbols x.2).foldl recordSymbol sets else sets

/-- One round of the loop over the sections. -/
theorem addSection_eq (hf : f.Represents data) (sets : SymbolSets) {x : Shdr × ℕ}
    (hx : f.sections[x.2]? = some x.1) :
    addSection data (f.sections.map sectionOf) sets (sectionOf x.1) =
      some (recordSection f sets x) := by
  obtain ⟨s, i⟩ := x
  by_cases htype : s.type = SHT_SYMTAB
  · have htab := hf.symtabs i s hx htype
    obtain ⟨str, strtab, hstr, -, hat, hlen, hhead, hnames⟩ := htab.strtab
    have hentsize : s.entsize.toNat = 24 := congrArg UInt64.toNat htab.entsize
    have hlink : (f.sections.map sectionOf)[s.link.toNat]? = some (sectionOf str) := by
      rw [List.getElem?_map, hstr]
      rfl
    have hbytes : (data.drop str.offset.toNat).take str.size.toNat = strtab := by
      rw [← hlen, hat.take_eq]
    have hcount : s.size.toNat / 24 = (f.symbols i).length := by
      rw [htab.size]
      exact Nat.mul_div_cancel_left _ (by decide)
    simp only [addSection, sectionOf, htype, hentsize, hlink, hbytes, hcount, recordSection,
      if_true, ne_eq, not_true_eq_false, false_or]
    refine foldlM_range sets (f.symbols i) fun j sym hj sets => ?_
    exact addSymbol_eq (htab.symbols j sym hj) hhead (hnames sym (List.mem_of_getElem? hj)) sets
  · have htype' : s.type.toNat ≠ SHT_SYMTAB.toNat := fun h => htype (UInt32.toNat_inj.1 h)
    simp [addSection, sectionOf, htype', recordSection, htype]

/-- The parser returns what the loops collect from the sections. -/
theorem elfSymbols_eq (hf : f.Represents data) :
    elfSymbols data = some (f.sections.zipIdx.foldl (recordSection f) (∅, ∅)) := by
  obtain ⟨hlen, hmagic, hclass, hshoff, hshentsize, hshnum⟩ := Ehdr.read hf.header
  simp only [elfSymbols, not_lt.2 hlen, hmagic, hclass, hshoff, hshentsize, hshnum, hf.shnum,
    Option.bind_eq_bind, Option.bind_some, ne_eq, not_true_eq_false, or_self, if_false]
  by_cases hnil : f.sections = []
  · simp [hnil]
  obtain ⟨hoff, hentsize⟩ := hf.shoff hnil
  have hoff' : f.header.shoff.toNat ≠ 0 := fun h => hoff (UInt64.toNat_inj.1 h)
  have hentsize' : f.header.shentsize.toNat = 64 := congrArg UInt16.toNat hentsize
  have hsections : (List.range f.sections.length).mapM
      (fun i => readSection data (f.header.shoff.toNat + i * f.header.shentsize.toNat)) =
        some (f.sections.map sectionOf) := by
    refine mapM_range f.sections fun i s hi => ?_
    rw [hentsize']
    exact readSection_eq (hf.sections i s hi)
  rw [if_neg (by simp [hoff', hnil]), hsections, Option.bind_some]
  have hzip : f.sections.map sectionOf = f.sections.zipIdx.map (sectionOf ∘ Prod.fst) := by
    rw [← List.map_map, List.zipIdx_map_fst]
  rw [hzip, List.foldlM_map, ← hzip]
  refine foldlM_eq_foldl _ fun x hx sets => ?_
  exact addSection_eq hf sets (List.mem_zipIdx_iff_getElem?.1 hx)

/-- The sets have the names that the symbols of the file define and need. -/
def SymbolsOf (f : ElfFile) (sets : SymbolSets) : Prop :=
  (∀ name, name ∈ sets.1 ↔ f.Defines name) ∧ ∀ name, name ∈ sets.2 ↔ f.Needs name

theorem exists_mem_zipIdx {Q : Sym → Prop} :
    (∃ x ∈ f.sections.zipIdx, x.1.type = SHT_SYMTAB ∧ ∃ sym ∈ f.symbols x.2, Q sym) ↔
      ∃ sym, f.HasSymbol sym ∧ Q sym := by
  constructor
  · rintro ⟨⟨s, i⟩, hx, htype, sym, hsym, hQ⟩
    exact ⟨sym, ⟨i, s, List.mem_zipIdx_iff_getElem?.1 hx, htype, hsym⟩, hQ⟩
  · rintro ⟨sym, ⟨i, s, hs, htype, hsym⟩, hQ⟩
    exact ⟨(s, i), List.mem_zipIdx_iff_getElem?.2 hs, htype, sym, hsym, hQ⟩

/-- A loop over the symbols of all tables collects what one symbol gives. -/
theorem recordSections_collects {P : SymbolSets → Prop} {Q : Sym → Prop}
    (h : ∀ sets sym, P (recordSymbol sets sym) ↔ P sets ∨ Q sym) (sets : SymbolSets) :
    P (f.sections.zipIdx.foldl (recordSection f) sets) ↔
      P sets ∨ ∃ sym, f.HasSymbol sym ∧ Q sym := by
  rw [← exists_mem_zipIdx]
  refine foldl_collects (fun sets x => ?_) _ _
  by_cases htype : x.1.type = SHT_SYMTAB
  · rw [recordSection, if_pos htype, foldl_collects h]
    simp [htype]
  · rw [recordSection, if_neg htype]
    simp [htype]

/-- Of a well-formed file the parser returns the names it defines and the names it needs. -/
theorem elfSymbols_represents (hf : f.Represents data) :
    ∃ sets, elfSymbols data = some sets ∧ SymbolsOf f sets := by
  refine ⟨_, elfSymbols_eq hf, fun name => ?_, fun name => ?_⟩
  · have hmem := recordSections_collects (f := f) (P := (name ∈ ·.1))
      (mem_recordSymbol_fst name) (∅, ∅)
    simp only [Finset.notMem_empty, false_or] at hmem
    rw [hmem]
    constructor
    · rintro ⟨sym, hsym, hne, hrest⟩
      exact ⟨hne, sym, hsym, hrest⟩
    · rintro ⟨hne, sym, hsym, hrest⟩
      exact ⟨sym, hsym, hne, hrest⟩
  · have hmem := recordSections_collects (f := f) (P := (name ∈ ·.2))
      (mem_recordSymbol_snd name) (∅, ∅)
    simp only [Finset.notMem_empty, false_or] at hmem
    rw [hmem]
    constructor
    · rintro ⟨sym, hsym, hne, hrest⟩
      exact ⟨hne, sym, hsym, hrest⟩
    · rintro ⟨hne, sym, hsym, hrest⟩
      exact ⟨sym, hsym, hne, hrest⟩

end Sections

/-! ## The exit status -/

/-- The kexts of a directory : the entries the check reads a binary of. -/
def kexts (dir : List DirEntry) : List (String × List UInt8) :=
  dir.filterMap kextBinary

/-- The name is there : the kernel or a kext defines it, or the kernel linker makes it up. -/
def Resolvable (kernelElf : ElfFile) (elf : String → ElfFile) (dir : List DirEntry)
    (name : String) : Prop :=
  kernelElf.Defines name ∨ (∃ kext ∈ kexts dir, (elf kext.1).Defines name) ∨ name ∈ SYNTHESIZED ∨
    startsWithLinkerSet name = true

section Main

variable {kernelElf : ElfFile} {elf : String → ElfFile} {kernel : List UInt8} {dir : List DirEntry}

/-- The kexts read are those of the directory, with the symbols of their files. -/
theorem kextSymbols_represents (hkexts : ∀ kext ∈ kexts dir, (elf kext.1).Represents kext.2) :
    ∃ syms, kextSymbols dir = some syms ∧ (∀ x ∈ syms, SymbolsOf (elf x.1) x.2) ∧
      ∀ base, (∃ x ∈ syms, x.1 = base) ↔ ∃ kext ∈ kexts dir, kext.1 = base := by
  have hperm : ((dir.mergeSort fun a b => a.name ≤ b.name).filterMap kextBinary).Perm (kexts dir) :=
    (List.mergeSort_perm dir _).filterMap kextBinary
  have hone : ∀ kext ∈ (dir.mergeSort fun a b => a.name ≤ b.name).filterMap kextBinary,
      ((elfSymbols kext.2).map fun sets => (kext.1, sets)) =
        some (kext.1, (elfSymbols kext.2).getD (∅, ∅)) := by
    intro kext hkext
    obtain ⟨sets, hsets, -⟩ := elfSymbols_represents (hkexts kext (hperm.mem_iff.1 hkext))
    rw [hsets]
    rfl
  refine ⟨_, mapM_eq_map hone, ?_, ?_⟩
  · intro x hx
    obtain ⟨kext, hkext, rfl⟩ := List.mem_map.1 hx
    obtain ⟨sets, hsets, hof⟩ := elfSymbols_represents (hkexts kext (hperm.mem_iff.1 hkext))
    rw [hsets]
    exact hof
  · intro base
    constructor
    · rintro ⟨x, hx, rfl⟩
      obtain ⟨kext, hkext, rfl⟩ := List.mem_map.1 hx
      exact ⟨kext, hperm.mem_iff.1 hkext, rfl⟩
    · rintro ⟨kext, hkext, rfl⟩
      exact ⟨_, List.mem_map_of_mem (hperm.mem_iff.2 hkext), rfl⟩

theorem missing_eq_empty_iff (provided undefined : Finset String) :
    missing provided undefined = ∅ ↔ ∀ name ∈ undefined,
      name ∈ provided ∨ name ∈ SYNTHESIZED ∨ startsWithLinkerSet name = true := by
  rw [missing, Finset.filter_eq_empty_iff]
  refine forall₂_congr fun name _ => ?_
  by_cases hp : name ∈ provided <;> by_cases hs : name ∈ SYNTHESIZED <;> simp [hp, hs]

theorem mem_provideAll (name : String) (provided : Finset String)
    (kexts : List (String × SymbolSets)) :
    name ∈ provideAll provided kexts ↔ name ∈ provided ∨ ∃ kext ∈ kexts, name ∈ kext.2.1 := by
  refine foldl_collects (P := (name ∈ ·)) (fun provided kext => ?_) kexts provided
  exact Finset.mem_union

/-- With all symbols of the set provided, no kext has a missing one exactly if every name a kext
needs is there. -/
theorem all_missing_eq_empty_iff {provided : SymbolSets} (hprovided : SymbolsOf kernelElf provided)
    {syms : List (String × SymbolSets)} (hsyms : ∀ x ∈ syms, SymbolsOf (elf x.1) x.2)
    (hbases : ∀ base, (∃ x ∈ syms, x.1 = base) ↔ ∃ kext ∈ kexts dir, kext.1 = base) :
    (∀ x ∈ syms, missing (provideAll provided.1 syms) x.2.2 = ∅) ↔
    ∀ kext ∈ kexts dir, ∀ name, (elf kext.1).Needs name → Resolvable kernelElf elf dir name := by
  have hall : ∀ name, name ∈ provideAll provided.1 syms ↔
      kernelElf.Defines name ∨ ∃ kext ∈ kexts dir, (elf kext.1).Defines name := by
    intro name
    rw [mem_provideAll, hprovided.1]
    refine or_congr_right ⟨?_, ?_⟩
    · rintro ⟨x, hx, hname⟩
      obtain ⟨kext, hkext, hbase⟩ := (hbases x.1).1 ⟨x, hx, rfl⟩
      exact ⟨kext, hkext, hbase ▸ ((hsyms x hx).1 name).1 hname⟩
    · rintro ⟨kext, hkext, hname⟩
      obtain ⟨x, hx, hbase⟩ := (hbases kext.1).2 ⟨kext, hkext, rfl⟩
      exact ⟨x, hx, ((hsyms x hx).1 name).2 (hbase ▸ hname)⟩
  have hres : ∀ x ∈ syms, missing (provideAll provided.1 syms) x.2.2 = ∅ ↔
      ∀ name, (elf x.1).Needs name → Resolvable kernelElf elf dir name := by
    intro x hx
    rw [missing_eq_empty_iff]
    refine forall_congr' fun name => ?_
    rw [(hsyms x hx).2, hall, or_assoc]
    rfl
  constructor
  · intro h kext hkext
    obtain ⟨x, hx, hbase⟩ := (hbases kext.1).2 ⟨kext, hkext, rfl⟩
    exact hbase ▸ (hres x hx).1 (h x hx)
  · intro h x hx
    obtain ⟨kext, hkext, hbase⟩ := (hbases x.1).1 ⟨x, hx, rfl⟩
    exact (hres x hx).2 (hbase ▸ h kext hkext)

/-- The check exits with 0 exactly if every name a kext needs is there. -/
theorem main_iff (hkernel : kernelElf.Represents kernel)
    (hkexts : ∀ kext ∈ kexts dir, (elf kext.1).Represents kext.2) (hne : kexts dir ≠ []) :
    ∃ status reports, main 3 (some kernel) dir = some (status, reports) ∧
      (status = 0 ↔ ∀ kext ∈ kexts dir, ∀ name, (elf kext.1).Needs name →
        Resolvable kernelElf elf dir name) := by
  obtain ⟨provided, hk, hprovided⟩ := elfSymbols_represents hkernel
  obtain ⟨syms, hs, hsyms, hbases⟩ := kextSymbols_represents hkexts
  have hnonempty : syms.isEmpty = false := by
    obtain ⟨kext, hkext⟩ := List.exists_mem_of_ne_nil _ hne
    obtain ⟨x, hx, -⟩ := (hbases kext.1).2 ⟨kext, hkext, rfl⟩
    exact List.isEmpty_eq_false_iff_exists_mem.2 ⟨x, hx⟩
  rw [← all_missing_eq_empty_iff hprovided hsyms hbases]
  simp only [main, hk, hs, hnonempty, Option.bind_eq_bind, Option.bind_some, ne_eq,
    not_true_eq_false, if_false, Bool.false_eq_true]
  split
  · next hany =>
    refine ⟨_, _, rfl, ?_⟩
    simp only [List.any_eq_true, List.mem_mergeSort, decide_eq_true_eq] at hany
    obtain ⟨x, hx, hmissing⟩ := hany
    exact ⟨fun h => absurd h one_ne_zero, fun h => absurd (h x hx) hmissing⟩
  · next hany =>
    refine ⟨_, _, rfl, ?_⟩
    simp only [List.any_eq_true, List.mem_mergeSort, decide_eq_true_eq, not_exists, not_and,
      not_not] at hany
    exact ⟨fun _ => hany, fun _ => rfl⟩

/-- For every well-formed kernel and every non-empty set of well-formed kexts, the parser returns
the names each file defines and needs, and the check exits with 0 exactly if every name a kext
needs is there. -/
theorem checkKextSymbols_decides (elf : String → ElfFile) (hkernel : kernelElf.Represents kernel)
    (hkexts : ∀ kext ∈ kexts dir, (elf kext.1).Represents kext.2) (hne : kexts dir ≠ []) :
    (∃ sets, elfSymbols kernel = some sets ∧ SymbolsOf kernelElf sets) ∧
    (∀ kext ∈ kexts dir, ∃ sets, elfSymbols kext.2 = some sets ∧ SymbolsOf (elf kext.1) sets) ∧
    ∃ status reports, main 3 (some kernel) dir = some (status, reports) ∧
      (status = 0 ↔ ∀ kext ∈ kexts dir, ∀ name, (elf kext.1).Needs name →
        Resolvable kernelElf elf dir name) :=
  ⟨elfSymbols_represents hkernel, fun kext hkext => elfSymbols_represents (hkexts kext hkext),
    main_iff hkernel hkexts hne⟩

end Main

/-! ## Two small files -/

/-- A global symbol `x`, defined in a section or not. -/
def symX (defined : Bool) : Sym :=
  ⟨"x", 1, 0x10, 0, if defined then 1 else 0, 0, 0⟩

/-- A file with one symbol : a null section, the symbol table and its string table. -/
def fileX (defined : Bool) : ElfFile where
  header := ⟨List.replicate 10 0, rfl, 1, 183, 1, 0, 0, 64, 0, 64, 0, 0, 64, 3, 0⟩
  sections := [⟨0, 0, 0, 0, 0, 0, 0, 0, 0, 0⟩, ⟨0, 2, 0, 0, 256, 24, 2, 0, 8, 24⟩,
    ⟨0, 3, 0, 0, 280, 3, 0, 0, 1, 0⟩]
  symbols _ := [symX defined]

/-- Its bytes. -/
def bytesX (defined : Bool) : List UInt8 :=
  (fileX defined).header.bytes ++ (fileX defined).sections.flatMap Shdr.bytes ++
    (symX defined).bytes ++ [0, 0x78, 0]

instance (data : List UInt8) (off : ℕ) (bs : List UInt8) : Decidable (At data off bs) :=
  inferInstanceAs (Decidable (bs <+: data.drop off))

theorem fileX_represents (defined : Bool) : (fileX defined).Represents (bytesX defined) := by
  have hstring : StringAt [0, 0x78, 0] 1 "x" := ⟨by decide, by decide⟩
  refine ⟨by cases defined <;> decide, rfl, fun _ => ⟨by cases defined <;> decide, rfl⟩, ?_, ?_⟩
  · intro i s hi
    rcases i with _ | _ | _ | i
    · obtain rfl := Option.some.inj hi
      cases defined <;> decide
    · obtain rfl := Option.some.inj hi
      cases defined <;> decide
    · obtain rfl := Option.some.inj hi
      cases defined <;> decide
    · simp [fileX] at hi
  · intro i s hi htype
    rcases i with _ | _ | _ | i
    · obtain rfl := Option.some.inj hi
      exact absurd htype (by decide)
    · obtain rfl := Option.some.inj hi
      refine ⟨rfl, rfl, ?_, ⟨_, [0, 0x78, 0], rfl, rfl, by cases defined <;> decide, rfl, rfl, ?_⟩⟩
      · intro j sym hj
        obtain rfl : j = 0 := Nat.lt_one_iff.1 (List.getElem?_eq_some_iff.1 hj).1
        obtain rfl := Option.some.inj hj
        cases defined <;> decide
      · intro sym hsym
        obtain rfl := List.mem_singleton.1 hsym
        exact hstring
    · obtain rfl := Option.some.inj hi
      exact absurd htype (by decide)
    · simp [fileX] at hi

/-- The kext needs `x`, which the kernel defines. -/
theorem checkKextSymbols_decides_x :
    (∃ sets, elfSymbols (bytesX true) = some sets ∧ SymbolsOf (fileX true) sets) ∧
    (∀ kext ∈ kexts [⟨"a.kext", some (bytesX false)⟩],
      ∃ sets, elfSymbols kext.2 = some sets ∧ SymbolsOf (fileX false) sets) ∧
    ∃ status reports,
      main 3 (some (bytesX true)) [⟨"a.kext", some (bytesX false)⟩] = some (status, reports) ∧
      (status = 0 ↔ ∀ kext ∈ kexts [⟨"a.kext", some (bytesX false)⟩], ∀ name,
        (fileX false).Needs name → Resolvable (fileX true) (fun _ => fileX false)
          [⟨"a.kext", some (bytesX false)⟩] name) := by
  have hkexts : kexts [⟨"a.kext", some (bytesX false)⟩] = [("a", bytesX false)] := rfl
  refine checkKextSymbols_decides (fun _ => fileX false) (fileX_represents true) ?_ ?_
  · intro kext hkext
    rw [hkexts, List.mem_singleton] at hkext
    rw [hkext]
    exact fileX_represents false
  · rw [hkexts]
    exact List.cons_ne_nil _ _

end KextSymbols

end KernelModules
