import KernelModules.LittleEndian
import KernelModules.Utf8

/-!
# ELF64 files

The parts of a little-endian ELF64 file that symbols are read from : the header, the section
header table, symbol tables and the string tables they are linked to. `ElfFile` is what such a
file says, `ElfFile.Represents` that a byte string is a well-formed file that says it. The
records stand where the header and the section headers place them, in any order, and the rest
of the bytes is arbitrary.
-/

namespace KernelModules.Elf64

open LittleEndian Utf8

def SHT_SYMTAB : UInt32 := 2

def SHT_STRTAB : UInt32 := 3

def SHN_UNDEF : UInt16 := 0

def STB_LOCAL : UInt8 := 0

def STB_WEAK : UInt8 := 2

/-! ## Records -/

/-- `Elf64_Ehdr`. The first six bytes of `e_ident` are those of a little-endian ELF64 file. -/
structure Ehdr where
  identTail : List UInt8
  identTail_length : identTail.length = 10
  type : UInt16
  machine : UInt16
  version : UInt32
  entry : UInt64
  phoff : UInt64
  shoff : UInt64
  flags : UInt32
  ehsize : UInt16
  phentsize : UInt16
  phnum : UInt16
  shentsize : UInt16
  shnum : UInt16
  shstrndx : UInt16

/-- `\x7fELF`, the class and the byte order. -/
def identHead : List UInt8 :=
  [0x7f, 0x45, 0x4c, 0x46, 2, 1]

/-- The bytes of a file header. -/
def Ehdr.bytes (h : Ehdr) : List UInt8 :=
  identHead ++ (h.identTail ++ (leBytes 2 h.type.toNat ++ (leBytes 2 h.machine.toNat ++
    (leBytes 4 h.version.toNat ++ (leBytes 8 h.entry.toNat ++ (leBytes 8 h.phoff.toNat ++
    (leBytes 8 h.shoff.toNat ++ (leBytes 4 h.flags.toNat ++ (leBytes 2 h.ehsize.toNat ++
    (leBytes 2 h.phentsize.toNat ++ (leBytes 2 h.phnum.toNat ++ (leBytes 2 h.shentsize.toNat ++
    (leBytes 2 h.shnum.toNat ++ leBytes 2 h.shstrndx.toNat)))))))))))))

/-- `Elf64_Shdr` -/
structure Shdr where
  name : UInt32
  type : UInt32
  flags : UInt64
  addr : UInt64
  offset : UInt64
  size : UInt64
  link : UInt32
  info : UInt32
  addralign : UInt64
  entsize : UInt64
deriving DecidableEq, Repr

/-- The bytes of a section header. -/
def Shdr.bytes (s : Shdr) : List UInt8 :=
  leBytes 4 s.name.toNat ++ (leBytes 4 s.type.toNat ++ (leBytes 8 s.flags.toNat ++
    (leBytes 8 s.addr.toNat ++ (leBytes 8 s.offset.toNat ++ (leBytes 8 s.size.toNat ++
    (leBytes 4 s.link.toNat ++ (leBytes 4 s.info.toNat ++ (leBytes 8 s.addralign.toNat ++
    leBytes 8 s.entsize.toNat))))))))

/-- `Elf64_Sym`, with the name that stands at `nameOff` of the string table. -/
structure Sym where
  name : String
  nameOff : UInt32
  info : UInt8
  other : UInt8
  shndx : UInt16
  value : UInt64
  size : UInt64
deriving DecidableEq, Repr

/-- The bytes of a symbol. -/
def Sym.bytes (s : Sym) : List UInt8 :=
  leBytes 4 s.nameOff.toNat ++ ([s.info] ++ ([s.other] ++ (leBytes 2 s.shndx.toNat ++
    (leBytes 8 s.value.toNat ++ leBytes 8 s.size.toNat))))

/-- `ELF64_ST_BIND` -/
def Sym.bind (s : Sym) : UInt8 :=
  s.info >>> 4

/-! ## Reading records -/

section Reading

variable {data : List UInt8} {off : ℕ}

theorem length_bytes_ehdr (h : Ehdr) : h.bytes.length = 64 := by
  simp [Ehdr.bytes, identHead, h.identTail_length]

/-- The fields of a header that lead to the section headers. -/
theorem Ehdr.read {h : Ehdr} (hat : At data 0 h.bytes) :
    64 ≤ data.length ∧ data.take 4 = [0x7f, 0x45, 0x4c, 0x46] ∧ data[4]? = some 2 ∧
    readLE 8 data 0x28 = some h.shoff.toNat ∧ readLE 2 data 0x3A = some h.shentsize.toNat ∧
    readLE 2 data 0x3C = some h.shnum.toNat := by
  have hlen := hat.length_le
  rw [length_bytes_ehdr] at hlen
  have hident : At data 0 identHead := hat.left
  have hclass : At data 4 [2, 1] := hident.field (a := [0x7f, 0x45, 0x4c, 0x46]) rfl
  have htail := hat.field rfl
  have htype := htail.field h.identTail_length
  have hmachine := htype.field (length_leBytes _ _)
  have hversion := hmachine.field (length_leBytes _ _)
  have hentry := hversion.field (length_leBytes _ _)
  have hphoff := hentry.field (length_leBytes _ _)
  have hshoff := hphoff.field (length_leBytes _ _)
  have hflags := hshoff.field (length_leBytes _ _)
  have hehsize := hflags.field (length_leBytes _ _)
  have hphentsize := hehsize.field (length_leBytes _ _)
  have hphnum := hphentsize.field (length_leBytes _ _)
  have hshentsize := hphnum.field (length_leBytes _ _)
  have hshnum := hshentsize.field (length_leBytes _ _)
  refine ⟨hlen, ?_, hclass.getElem?, hshoff.read64, hshentsize.read16, hshnum.read16⟩
  exact (hident.left (a := [0x7f, 0x45, 0x4c, 0x46])).take_eq

/-- The fields of a section header that lead to the symbols. -/
theorem Shdr.read {s : Shdr} (h : At data off s.bytes) :
    readLE 4 data (off + 4) = some s.type.toNat ∧
    readLE 8 data (off + 0x18) = some s.offset.toNat ∧
    readLE 8 data (off + 0x20) = some s.size.toNat ∧
    readLE 4 data (off + 0x28) = some s.link.toNat ∧
    readLE 8 data (off + 0x38) = some s.entsize.toNat := by
  have htype := h.field (length_leBytes _ _)
  have hflags := htype.field (length_leBytes _ _)
  have haddr := hflags.field (length_leBytes _ _)
  have hoffset := haddr.field (length_leBytes _ _)
  have hsize := hoffset.field (length_leBytes _ _)
  have hlink := hsize.field (length_leBytes _ _)
  have hinfo := hlink.field (length_leBytes _ _)
  have haddralign := hinfo.field (length_leBytes _ _)
  have hentsize := haddralign.field (length_leBytes _ _)
  exact ⟨htype.read32, hoffset.read64, hsize.read64, hlink.read32,
    hentsize.readLE (by decide) s.entsize.toNat_lt⟩

/-- The fields of a symbol. -/
theorem Sym.read {s : Sym} (h : At data off s.bytes) :
    readLE 4 data off = some s.nameOff.toNat ∧ data[off + 4]? = some s.info ∧
    readLE 2 data (off + 6) = some s.shndx.toNat := by
  have hinfo := h.field (length_leBytes _ _)
  have hother := hinfo.field rfl
  have hshndx := hother.field rfl
  exact ⟨h.read32, hinfo.getElem?, hshndx.read16⟩

end Reading

/-! ## Files -/

/-- What a file says : its header, its section headers, and the symbols of those sections that
are symbol tables. -/
structure ElfFile where
  header : Ehdr
  sections : List Shdr
  symbols : ℕ → List Sym

/-- The string at an offset of a string table : up to the next NUL byte. -/
structure StringAt (strtab : List UInt8) (off : ℕ) (s : String) : Prop where
  at_off : At strtab off (utf8 s ++ [0])
  no_nul : 0 ∉ utf8 s

/-- The section `i` is a symbol table with these symbols, linked to a string table. -/
structure SymtabAt (f : ElfFile) (data : List UInt8) (i : ℕ) (s : Shdr) : Prop where
  entsize : s.entsize = 24
  size : s.size.toNat = 24 * (f.symbols i).length
  symbols : ∀ j sym, (f.symbols i)[j]? = some sym →
    At data (s.offset.toNat + j * 24) sym.bytes
  strtab : ∃ str strtab, f.sections[s.link.toNat]? = some str ∧ str.type = SHT_STRTAB ∧
    At data str.offset.toNat strtab ∧ strtab.length = str.size.toNat ∧ strtab.head? = some 0 ∧
    ∀ sym ∈ f.symbols i, StringAt strtab sym.nameOff.toNat sym.name

/-- The bytes are a well-formed file that says `f`. The number of sections is in the header. -/
structure ElfFile.Represents (f : ElfFile) (data : List UInt8) : Prop where
  header : At data 0 f.header.bytes
  shnum : f.header.shnum.toNat = f.sections.length
  shoff : f.sections ≠ [] → f.header.shoff ≠ 0 ∧ f.header.shentsize = 64
  sections : ∀ i s, f.sections[i]? = some s → At data (f.header.shoff.toNat + i * 64) s.bytes
  symtabs : ∀ i s, f.sections[i]? = some s → s.type = SHT_SYMTAB → SymtabAt f data i s

/-- The symbol is in a symbol table of the file. -/
def ElfFile.HasSymbol (f : ElfFile) (sym : Sym) : Prop :=
  ∃ i s, f.sections[i]? = some s ∧ s.type = SHT_SYMTAB ∧ sym ∈ f.symbols i

/-- The file defines the name, for other files to see. -/
def ElfFile.Defines (f : ElfFile) (name : String) : Prop :=
  name ≠ "" ∧ ∃ sym, f.HasSymbol sym ∧ sym.name = name ∧ sym.shndx ≠ SHN_UNDEF ∧
    sym.bind ≠ STB_LOCAL

/-- The file needs the name from elsewhere. -/
def ElfFile.Needs (f : ElfFile) (name : String) : Prop :=
  name ≠ "" ∧ ∃ sym, f.HasSymbol sym ∧ sym.name = name ∧ sym.shndx = SHN_UNDEF ∧
    sym.bind ≠ STB_WEAK

end KernelModules.Elf64
