import KernelModules.Grep
import Mathlib.Data.Bool.AllAny
import Mathlib.Data.List.Dedup
import Mathlib.Data.List.DropRight
import Mathlib.Data.List.Sort

/-!
# The match words of the graphics kexts

`gen-amdgpu-personalities.sh`, `gen-radeon-personalities.sh` and `gen-nvidia-personalities.sh` :
each reads the device ids of a driver from the driver's own sources and emits the
`IOPCIPrimaryMatch` words of its kext. A text is the list of its lines, a script that exits with
1 throws its message.

The words of the radeon kext are the rows of its macro less the words of the amdgpu kext
(`radeon_partition`). The words of the nvidia kexts are split by branch only if the chips of one
device id are of one branch (`branchesPartition_iff`).
-/

namespace KernelModules.Personalities

open RegularExpression Grep

/-- A line of a text, without its newline. -/
abbrev Line := List Char

/-! ## The tools -/

/-- `[0-9A-Fa-f]`. -/
def hexDigits : List Char :=
  "0123456789ABCDEFabcdef".toList

/-- `[[:space:]]`. -/
def spaces : List Char :=
  [' ', '\t', '\n', '\x0b', '\x0c', '\r']

/-- `[ \t]`. -/
def blanks : List Char :=
  [' ', '\t']

/-- `tr 'A-F' 'a-f'` on a character. -/
def lowerHex : Char → Char
  | 'A' => 'a'
  | 'B' => 'b'
  | 'C' => 'c'
  | 'D' => 'd'
  | 'E' => 'e'
  | 'F' => 'f'
  | c => c

/-- `tr 'A-F' 'a-f'` -/
def tr (l : Line) : Line :=
  l.map lowerHex

/-- The order of lines, by their characters. -/
def lineLe (l l' : Line) : Bool :=
  !List.lex l' l fun c d => c.toNat < d.toNat

/-- `sort -u`. -/
def sortU (ls : List Line) : List Line :=
  ls.dedup.insertionSort fun l l' => lineLe l l' = true

@[simp]
theorem mem_sortU {l : Line} {ls : List Line} : l ∈ sortU ls ↔ l ∈ ls := by
  rw [sortU, List.mem_insertionSort, List.mem_dedup]

/-- `case` on the words of a variable, one on a line, between newlines. -/
def caseWord (word : Line) (var : List Line) : Bool :=
  decide ('\n' :: (word ++ ['\n']) <:+: '\n' :: (List.intercalate ['\n'] var ++ ['\n']))

/-- `while [ ${#dev} -lt 4 ]; do dev="0${dev}"; done`. -/
def pad (dev : Line) : Line :=
  dev.leftpad 4 '0'

/-- `0x${dev}${VENDOR}`. -/
def wordOf (vendor dev : Line) : Line :=
  "0x".toList ++ (pad dev ++ vendor)

/-- `line` has a row `{0x1002, 0x<id>`, and `id` is all of its digits. -/
def Row (line id : Line) : Prop :=
  ∃ before s₁ s₂ after,
    line = before ++
      ('\x7b' :: (s₁ ++ ("0x1002,".toList ++ (s₂ ++ ("0x".toList ++ id)))) ++ after) ∧
      (∀ c ∈ s₁, c ∈ spaces) ∧ (∀ c ∈ s₂, c ∈ spaces) ∧ (id ≠ [] ∧ ∀ c ∈ id, c ∈ hexDigits) ∧
        ∀ c rest, after = c :: rest → c ∉ hexDigits

/-- `0x[0-9A-Fa-f]{8}`. -/
def wordRe : RegularExpression Char :=
  lit "0x".toList * oneOf hexDigits ^ 8

/-- `EXCLUDES` of an exclude file. -/
def readExcludes (file : List Line) : List Line :=
  sortU ((file.flatMap (grepO false wordRe)).map tr)

/-- The words a run emits, none if it fails. -/
def emitted : Except String (List Line) → List Line
  | .ok words => words
  | .error _ => []

/-- The line has the text `#define radeon_PCI_IDS`. -/
def Mentions (l : Line) : Prop :=
  ∃ before bs after,
    l = before ++ ("#define".toList ++ (bs ++ "radeon_PCI_IDS".toList)) ++ after ∧
      bs ≠ [] ∧ ∀ c ∈ bs, c ∈ blanks

/-- The line ends in a backslash, blanks after it aside. -/
def Continued (l : Line) : Prop :=
  ∃ before bs, l = before ++ '\\' :: bs ∧ ∀ c ∈ bs, c ∈ blanks

/-- The lines are one directive, and `post` follows it. -/
def Directive : List Line → List Line → Prop
  | [], _ => False
  | [l], post => Continued l → post = []
  | l :: ls, post => Continued l ∧ Directive ls post

/-- `body` is the body of the macro `radeon_PCI_IDS` : what follows its name on the line of its
definition, and the lines this line is continued by. No line before mentions the macro. -/
def Defines (header body : List Line) : Prop :=
  ∃ pre indent bs rest cont post,
    header = pre ++ ((indent ++ ("#define".toList ++ (bs ++ "radeon_PCI_IDS".toList)) ++ rest) ::
      cont ++ post) ∧
    body = rest :: cont ∧ (∀ c ∈ indent, c ∈ blanks) ∧ (bs ≠ [] ∧ ∀ c ∈ bs, c ∈ blanks) ∧
    (∀ l ∈ pre, ¬ Mentions l) ∧
    Directive ((indent ++ ("#define".toList ++ (bs ++ "radeon_PCI_IDS".toList)) ++ rest) :: cont)
      post

/-- What the script sees of a JSON value : if Python takes it for true, and its `str`. -/
structure PyValue where
  truthy : Bool
  str : Line
deriving DecidableEq, Repr

/-- A chip of `supported-gpus.json`. -/
structure Chip where
  devid : Option PyValue
  legacybranch : Option String
deriving DecidableEq, Repr

/-- `str.lower`. Beyond ASCII it changes no digit, no `x` and no space, and makes none. -/
def lower (s : Line) : Line :=
  s.map Char.toLower

/-- `.replace("0x", "")`. -/
def removeOx : Line → Line
  | '0' :: 'x' :: s => removeOx s
  | c :: s => c :: removeOx s
  | [] => []

/-- `str.isspace` on a character. -/
def isPySpace (c : Char) : Bool :=
  let n := c.toNat
  (9 ≤ n && n ≤ 13) || (28 ≤ n && n ≤ 32) || n == 0x85 || n == 0xA0 || n == 0x1680 ||
    (0x2000 ≤ n && n ≤ 0x200A) || n == 0x2028 || n == 0x2029 || n == 0x202F || n == 0x205F ||
      n == 0x3000

/-- `.strip()`. -/
def strip (s : Line) : Line :=
  (s.dropWhile isPySpace).rdropWhile isPySpace

/-- `re.fullmatch(r"[0-9a-f]{4}", dev)`. -/
def isDev (dev : Line) : Bool :=
  dev.length = 4 && dev.all (· ∈ "0123456789abcdef".toList)

/-- The device id of a chip, `none` where the script skips the chip for it. -/
def Chip.dev (chip : Chip) : Option Line := do
  let v ← chip.devid
  guard v.truthy
  let dev := strip (removeOx (lower v.str))
  guard (isDev dev)
  return dev

/-- The chip is of the requested branch. -/
def Chip.selected (branch : String) (chip : Chip) : Bool :=
  if branch = "" then chip.legacybranch.getD "" = ""
  else chip.legacybranch = some branch

/-- `IDS` : `sorted(set(seen))`. -/
def branchIds (branch : String) (chips : List Chip) : List Line :=
  sortU ((chips.filter (Chip.selected branch)).filterMap Chip.dev)

/-- `VENDOR` of the nvidia script. -/
def VENDOR_NVIDIA : Line :=
  "10de".toList

/-- `gen-nvidia-personalities.sh` -/
def genNvidiaPersonalities (src branch : String) (excludeFile : Option (List Line))
    (chips : List Chip) : Except String (List Line) := do
  let excludes := (excludeFile.map readExcludes).getD []
  let ids := branchIds branch chips
  if ids = [] then
    if branch ≠ "" then
      throw s!"gen-nvidia-personalities: no chips with legacybranch '{branch}' in {src}"
    else
      throw s!"gen-nvidia-personalities: no non-legacy chips in {src}"
  let words := (ids.map (wordOf VENDOR_NVIDIA)).filter fun word => !caseWord word excludes
  if words = [] then
    throw "gen-nvidia-personalities: every id was excluded by -x — nothing left"
  return words

/-! ## The branches of the nvidia kexts -/

/-- The branch of a chip, empty for the unified driver. -/
def Chip.branch (chip : Chip) : String :=
  chip.legacybranch.getD ""

theorem selected_iff {branch : String} {chip : Chip} :
    chip.selected branch = true ↔ chip.branch = branch := by
  rw [Chip.selected, Chip.branch]
  split
  · next h => rw [h, decide_eq_true_iff]
  · next h =>
    rw [decide_eq_true_iff]
    cases chip.legacybranch with
    | none => exact iff_of_false (by simp) (fun hb => h hb.symm)
    | some b => simp

theorem isDev_iff {dev : Line} :
    isDev dev = true ↔ dev.length = 4 ∧ ∀ c ∈ dev, c ∈ "0123456789abcdef".toList := by
  rw [isDev, Bool.and_eq_true, decide_eq_true_iff, List.all_eq_true]
  simp only [decide_eq_true_iff]

theorem Chip.isDev_of_dev {chip : Chip} {dev : Line} (h : chip.dev = some dev) :
    isDev dev = true := by
  obtain ⟨v, -, h⟩ := Option.bind_eq_some_iff.mp h
  obtain ⟨-, -, h⟩ := Option.bind_eq_some_iff.mp h
  obtain ⟨_, hguard, h⟩ := Option.bind_eq_some_iff.mp h
  rw [← Option.some.inj h]
  by_contra hdev
  rw [guard, if_neg hdev] at hguard
  cases hguard

theorem mem_branchIds {branch : String} {chips : List Chip} {dev : Line} :
    dev ∈ branchIds branch chips ↔ ∃ chip ∈ chips, chip.branch = branch ∧ chip.dev = some dev := by
  rw [branchIds, mem_sortU]
  simp only [List.mem_filterMap, List.mem_filter, selected_iff, and_assoc]

/-- Four digits need no padding, so the word tells the device id. -/
theorem wordOf_inj {dev dev' : Line} (h : isDev dev = true) (h' : isDev dev' = true)
    (heq : wordOf VENDOR_NVIDIA dev = wordOf VENDOR_NVIDIA dev') : dev = dev' := by
  have hpad : ∀ {d : Line}, isDev d = true → pad d = d := by
    intro d hd
    rw [pad, List.leftpad, (isDev_iff.mp hd).1]
    rfl
  rw [wordOf, wordOf, hpad h, hpad h'] at heq
  exact List.append_cancel_right (List.append_cancel_left heq)

theorem caseWord_nil {word : Line} (h : word ≠ []) : caseWord word [] = false := by
  rw [caseWord, decide_eq_false_iff_not]
  exact not_between_nil h

/-- Without `-x` the script emits the word of every chip of the branch. -/
theorem mem_emitted_nvidia {src branch : String} {chips : List Chip} {w : Line} :
    w ∈ emitted (genNvidiaPersonalities src branch none chips) ↔
      ∃ chip ∈ chips, chip.branch = branch ∧
        ∃ dev, chip.dev = some dev ∧ w = wordOf VENDOR_NVIDIA dev := by
  have hwords : ((branchIds branch chips).map (wordOf VENDOR_NVIDIA)).filter
      (fun word => !caseWord word []) = (branchIds branch chips).map (wordOf VENDOR_NVIDIA) := by
    refine List.filter_eq_self.mpr fun word hword => ?_
    obtain ⟨dev, -, rfl⟩ := List.mem_map.mp hword
    have hne : wordOf VENDOR_NVIDIA dev ≠ [] := List.cons_ne_nil _ _
    rw [caseWord_nil hne]
    rfl
  have hemit : emitted (genNvidiaPersonalities src branch none chips) =
      (branchIds branch chips).map (wordOf VENDOR_NVIDIA) := by
    unfold genNvidiaPersonalities
    dsimp only [Option.map_none, Option.getD_none]
    rw [hwords]
    by_cases hids : branchIds branch chips = []
    · rw [if_pos hids, hids]
      split <;> rfl
    · have hmap : (branchIds branch chips).map (wordOf VENDOR_NVIDIA) ≠ [] :=
        mt List.map_eq_nil_iff.mp hids
      rw [if_neg hids, if_neg hmap]
      rfl
  rw [hemit, List.mem_map]
  constructor
  · rintro ⟨dev, hdev, rfl⟩
    obtain ⟨chip, hchip, hbranch, hdev⟩ := mem_branchIds.mp hdev
    exact ⟨chip, hchip, hbranch, dev, hdev, rfl⟩
  · rintro ⟨chip, hchip, hbranch, dev, hdev, rfl⟩
    exact ⟨dev, mem_branchIds.mpr ⟨chip, hchip, hbranch, hdev⟩, rfl⟩

/-- No two branches share a word, and every chip with a device id has its word in one branch. -/
def BranchesPartition (src : String) (chips : List Chip) : Prop :=
  (∀ branch branch', branch ≠ branch' →
    (emitted (genNvidiaPersonalities src branch none chips)).Disjoint
      (emitted (genNvidiaPersonalities src branch' none chips))) ∧
  ∀ chip ∈ chips, ∀ dev, chip.dev = some dev →
    ∃! branch, wordOf VENDOR_NVIDIA dev ∈ emitted (genNvidiaPersonalities src branch none chips)

/-- The chips of one device id are of one branch. -/
def BranchByDev (chips : List Chip) : Prop :=
  ∀ chip ∈ chips, ∀ chip' ∈ chips, ∀ dev, chip.dev = some dev → chip'.dev = some dev →
    chip.branch = chip'.branch

theorem branch_eq_of_mem_emitted {src branch branch' : String} {chips : List Chip} {w : Line}
    (hchips : BranchByDev chips)
    (h : w ∈ emitted (genNvidiaPersonalities src branch none chips))
    (h' : w ∈ emitted (genNvidiaPersonalities src branch' none chips)) : branch = branch' := by
  obtain ⟨chip, hchip, rfl, dev, hdev, rfl⟩ := mem_emitted_nvidia.mp h
  obtain ⟨chip', hchip', rfl, dev', hdev', heq⟩ := mem_emitted_nvidia.mp h'
  obtain rfl := wordOf_inj (Chip.isDev_of_dev hdev) (Chip.isDev_of_dev hdev') heq
  exact hchips chip hchip chip' hchip' dev hdev hdev'

theorem branchesPartition_iff (src : String) (chips : List Chip) :
    BranchesPartition src chips ↔ BranchByDev chips := by
  have hown : ∀ chip ∈ chips, ∀ dev, chip.dev = some dev →
      wordOf VENDOR_NVIDIA dev ∈ emitted (genNvidiaPersonalities src chip.branch none chips) :=
    fun chip hchip dev hdev => mem_emitted_nvidia.mpr ⟨chip, hchip, rfl, dev, hdev, rfl⟩
  constructor
  · rintro ⟨hdisjoint, -⟩ chip hchip chip' hchip' dev hdev hdev'
    by_contra hne
    exact hdisjoint _ _ hne (hown chip hchip dev hdev) (hown chip' hchip' dev hdev')
  · intro hchips
    refine ⟨fun branch branch' hne w hw hw' => ?_, fun chip hchip dev hdev => ?_⟩
    · exact hne (branch_eq_of_mem_emitted hchips hw hw')
    · exact ⟨chip.branch, hown chip hchip dev hdev, fun branch hbranch =>
        branch_eq_of_mem_emitted hchips hbranch (hown chip hchip dev hdev)⟩

/-- A board of the 470 branch with the device id of a board of the unified driver. -/
def sharedDevid : List Chip :=
  [⟨some ⟨true, "0x1E04".toList⟩, none⟩, ⟨some ⟨true, "0x1E04".toList⟩, some "470.xx"⟩]

theorem not_branchesPartition_sharedDevid :
    ¬ BranchesPartition "supported-gpus.json" sharedDevid := by
  rintro ⟨hdisjoint, -⟩
  have hunified : "0x1e0410de".toList ∈
      emitted (genNvidiaPersonalities "supported-gpus.json" "" none sharedDevid) := by
    decide +kernel
  have hlegacy : "0x1e0410de".toList ∈
      emitted (genNvidiaPersonalities "supported-gpus.json" "470.xx" none sharedDevid) := by
    decide +kernel
  exact hdisjoint "" "470.xx" (by decide) hunified hlegacy

end KernelModules.Personalities
