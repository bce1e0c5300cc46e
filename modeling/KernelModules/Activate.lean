import KernelModules.FileSystem
import Mathlib.Data.List.DropRight
import Mathlib.Data.List.Sort

/-!
# Making one NVIDIA branch live

`nvidia-activate.sh` : links the userland of an installed bundle into `/usr/local`, from eight
directories of its resources. Run for one bundle after another it is to leave exactly the last
one live, but it takes no link away, and `ln -sf` at a link to a directory makes the link inside
that directory.

`oneLive_of_swappable` : where the last bundle has all the names the bundles before it had, no
linked name leads to a directory and none ends in a newline, exactly the last bundle is live.
-/

namespace KernelModules.Activate

open FileSystem

/-- The names on the way from the root. -/
abbrev Path := List String

/-- The files of the system. -/
abbrev Fs := FileTree String

/-- The links the kernel follows in one path. -/
def MAXSYMLINKS : ℕ := 32

/-- The directory that a path leads to, as `[ -d path ]` finds it. -/
def dirAt (fs : Fs) (p : Path) : Option Path :=
  dirOf fs (MAXSYMLINKS + 1) p

/-- `/usr/local` -/
def USR_LOCAL : Path :=
  ["usr", "local"]

/-- The calls of `link_dir`. -/
def LINK_DIRS : List (Path × Path) :=
  [(["xorg", "drivers"], ["lib", "xorg", "modules", "drivers"]),
    (["xorg", "extensions"], ["lib", "xorg", "modules", "extensions"]),
    (["lib"], ["lib"]),
    (["lib", "gbm"], ["lib", "gbm"]),
    (["share", "glvnd", "egl_vendor.d"], ["share", "glvnd", "egl_vendor.d"]),
    (["share", "egl", "egl_external_platform.d"], ["share", "egl", "egl_external_platform.d"]),
    (["share", "vulkan", "icd.d"], ["share", "vulkan", "icd.d"]),
    (["etc", "libmap.d"], ["etc", "libmap.d"])]

/-- `libgbm.so|libgbm.so.*`. -/
def isLibgbm (name : String) : Bool :=
  name = "libgbm.so" || "libgbm.so.".toList.isPrefixOf name.toList

/-- `*` leaves out the names that start with a dot. -/
def visible (name : String) : Bool :=
  name.toList.head? ≠ some '.'

/-- `"$path"/*`, the pattern itself if nothing matches. -/
def glob (fs : Fs) (path : Path) : List String :=
  let matched := (((dirAt fs path).elim [] (names fs)).filter visible).insertionSort (· ≤ ·)
  if matched = [] then ["*"] else matched

/-- The resources of a bundle. -/
def resources (bundle : Path) : Path :=
  bundle ++ ["Contents", "Resources"]

/-- `$(basename "$dir/$name")` : the substitution drops the newlines at the end. -/
def basename (name : String) : String :=
  String.ofList (name.toList.rdropWhile (· = '\n'))

/-- The body of the loop over the names. -/
def linkEntry (src target dst : Path) (fs : Fs) (name : String) : Except Fs Fs :=
  match (dirAt fs src).bind fun q => node fs (q ++ [name]) with
  | none => .ok fs
  | some .dir => .ok fs
  | some _ =>
    if isLibgbm (basename name) then .ok fs
    else if basename name = "" then
      -- `ln -sf "$target/" "$dst/"`
      lnSfInto (MAXSYMLINKS + 1) fs target.dropLast dst (target.getLastD "")
    else lnSf (MAXSYMLINKS + 1) fs target dst (basename name)

/-- `link_dir`. -/
def linkDir (self bundle root : Path) (fs : Fs) (call : Path × Path) : Except Fs Fs :=
  let src := self ++ call.1
  let dst := root ++ USR_LOCAL ++ call.2
  if (dirAt fs src).isSome then do
    let fs ← mkdirP (MAXSYMLINKS + 1) fs [] dst
    (glob fs src).foldlM (linkEntry src (resources bundle ++ call.1) dst) fs
  else .ok fs

/-- The script in the directory `self`, for the bundle that is to be installed at `bundle`. -/
def activate (self bundle root : Path) (fs : Fs) : Except Fs Fs :=
  LINK_DIRS.foldlM (linkDir self bundle root) fs

/-- The tree that a run leaves, also one that fails on the way (`set -e`). -/
def leaves : Except Fs Fs → Fs
  | .ok fs => fs
  | .error fs => fs

/-- A run of the script of an installed bundle. -/
def runActivate (fs : Fs) (bundle : Path) : Fs :=
  leaves (activate (resources bundle) bundle [] fs)

/-! ## Exactly one live bundle -/

/-- The bundle has the name in the directory, and the script links it. -/
def Linkable (fs : Fs) (bundle dir : Path) (name : String) : Prop :=
  ∃ q, dirAt fs (resources bundle ++ dir) = some q ∧ visible name = true ∧
    isLibgbm name = false ∧ node fs (q ++ [name]) ≠ none ∧ node fs (q ++ [name]) ≠ some .dir

/-- The names of the directory that the script links. -/
def linkables (fs : Fs) (bundle dir : Path) : List String :=
  (dirAt fs (resources bundle ++ dir)).elim [] fun q => (names fs q).filter fun name =>
    visible name && !isLibgbm name && node fs (q ++ [name]) ≠ some .dir

theorem mem_linkables {fs : Fs} {bundle dir : Path} {name : String} :
    name ∈ linkables fs bundle dir ↔ Linkable fs bundle dir name := by
  rw [linkables, Linkable]
  cases dirAt fs (resources bundle ++ dir) with
  | none => simp
  | some q => simp [mem_names, and_assoc, and_left_comm]

instance (fs : Fs) (bundle dir : Path) (name : String) :
    Decidable (Linkable fs bundle dir name) :=
  decidable_of_iff _ mem_linkables

/-- Of the bundles `bs` exactly `last` is live. -/
structure OneLive (bs : List Path) (last : Path) (fs : Fs) : Prop where
  /-- Every link into a bundle is into the last one, and to a name it has. -/
  into : ∀ p t, USR_LOCAL <+: p → node fs p = some (.link t) → (∃ b ∈ bs, resources b <+: t) →
    ∃ call ∈ LINK_DIRS, ∃ name, Linkable fs last call.1 name ∧
      t = resources last ++ call.1 ++ [name]
  /-- All that the bundle has to link is linked. -/
  linked : ∀ call ∈ LINK_DIRS, ∀ name, Linkable fs last call.1 name →
    node fs (USR_LOCAL ++ call.2 ++ [name]) = some (.link (resources last ++ call.1 ++ [name]))
  libgbm : ∀ name, isLibgbm name = true → ∀ t,
    node fs (USR_LOCAL ++ ["lib"] ++ [name]) ≠ some (.link t)
  again : ∀ p, node (runActivate fs last) p = node fs p

/-- The start : no link of `/usr/local` is into a bundle, none is called libgbm. -/
structure Fresh (fs : Fs) (bs : List Path) : Prop where
  into : ∀ p t, USR_LOCAL <+: p → node fs p = some (.link t) → ∀ b ∈ bs, ¬ resources b <+: t
  libgbm : ∀ name, isLibgbm name = true → ∀ t,
    node fs (USR_LOCAL ++ ["lib"] ++ [name]) ≠ some (.link t)

/-- The directories of `/usr/local` that the runs need. -/
def made (fs : Fs) (bs : List Path) : List Path :=
  (LINK_DIRS.filter fun call => bs.any fun b => (dirAt fs (resources b ++ call.1)).isSome).flatMap
    fun call => (USR_LOCAL ++ call.2).inits

/-- The condition on the bundles and the start. -/
structure Swappable (fs : Fs) (bs : List Path) (last : Path) : Prop where
  /-- Where a directory is needed there is one, or nothing. -/
  free : ∀ c ∈ made fs bs, node fs c = none ∨ node fs c = some .dir
  /-- The directories of the bundles are others. -/
  apart : ∀ b ∈ bs, ∀ call ∈ LINK_DIRS, ∀ q,
    dirAt (withDirs (made fs bs) fs) (resources b ++ call.1) = some q →
      dirAt fs (resources b ++ call.1) = some q ∧ q ∉ made fs bs
  /-- Nothing that is linked is a link to a directory, and where it is linked no directory is. -/
  plain : ∀ b ∈ bs, ∀ call ∈ LINK_DIRS, ∀ name, Linkable fs b call.1 name →
    dirAt (withDirs (made fs bs) fs) (resources b ++ call.1 ++ [name]) = none ∧
      dirAt (withDirs (made fs bs) fs) (USR_LOCAL ++ call.2 ++ [name]) = none
  /-- Every name that is linked ends in a character other than a newline. -/
  printed : ∀ b ∈ bs, ∀ call ∈ LINK_DIRS, ∀ name, Linkable fs b call.1 name →
    ∃ c ∈ name.toList.getLast?, c ≠ '\n'
  /-- The last bundle has every name that one of the bundles has. -/
  covered : ∀ b ∈ bs, ∀ call ∈ LINK_DIRS, ∀ name, Linkable fs b call.1 name →
    Linkable fs last call.1 name

/-! ## Names -/

theorem basename_eq_self {name : String} (h : ∃ c ∈ name.toList.getLast?, c ≠ '\n') :
    basename name = name := by
  obtain ⟨c, hc, hne⟩ := h
  rw [basename, List.rdropWhile_eq_self_iff.mpr, String.ofList_toList]
  intro hnil hlast
  rw [Option.mem_def, List.getLast?_eq_some_getLast hnil] at hc
  exact hne (Option.some.inj hc ▸ of_decide_eq_true hlast)

theorem ne_empty_of_getLast {name : String} (h : ∃ c ∈ name.toList.getLast?, c ≠ '\n') :
    name ≠ "" := by
  rintro rfl
  obtain ⟨c, hc, -⟩ := h
  cases hc

/-- A prefix whose last element stays is a prefix of what is left. -/
theorem prefix_rdropWhile {α : Type*} {p : α → Bool} {l l' : List α} {c : α} (hl : l ++ [c] <+: l')
    (hc : p c = false) : l ++ [c] <+: l'.rdropWhile p := by
  obtain ⟨r, rfl⟩ := hl
  induction r using List.reverseRecOn with
  | nil =>
    rw [List.append_nil, List.rdropWhile_concat_neg _ _ _ (by simp [hc])]
  | append_singleton r x ih =>
    rw [← List.append_assoc, List.rdropWhile_concat]
    split
    · exact ih
    · exact (List.prefix_append _ r).trans (List.prefix_append _ [x])

/-- What is called libgbm is called so without the newlines at the end. -/
theorem isLibgbm_basename {name : String} (h : isLibgbm name = true) :
    isLibgbm (basename name) = true := by
  have hlist : (basename name).toList = name.toList.rdropWhile (· = '\n') := String.toList_ofList
  rw [isLibgbm, Bool.or_eq_true, decide_eq_true_iff, List.isPrefixOf_iff_prefix] at h ⊢
  rcases h with rfl | hprefix
  · exact Or.inl (by decide)
  · rw [hlist]
    exact Or.inr (prefix_rdropWhile (l := "libgbm.so".toList) (c := '.') hprefix (by decide))

/-! ## The effect of a run -/

theorem mem_made {fs : Fs} {bs : List Path} {c : Path} : c ∈ made fs bs ↔
    ∃ call ∈ LINK_DIRS, (∃ b ∈ bs, (dirAt fs (resources b ++ call.1)).isSome = true) ∧
      c <+: USR_LOCAL ++ call.2 := by
  simp only [made, List.mem_flatMap, List.mem_filter, List.any_eq_true, List.mem_inits, and_assoc]

theorem ancestor_mem_made {fs : Fs} {bs : List Path} {c c' : Path} (hc : c <+: c')
    (h : c' ∈ made fs bs) : c ∈ made fs bs := by
  obtain ⟨call, hcall, hb, hc'⟩ := mem_made.mp h
  exact mem_made.mpr ⟨call, hcall, hb, hc.trans hc'⟩

theorem Linkable.made {fs : Fs} {bs : List Path} {b : Path} {call : Path × Path} {name : String}
    (h : Linkable fs b call.1 name) (hb : b ∈ bs) (hcall : call ∈ LINK_DIRS) :
    USR_LOCAL ++ call.2 ∈ made fs bs := by
  obtain ⟨q, hq, -⟩ := h
  exact mem_made.mpr ⟨call, hcall, ⟨b, hb, by rw [hq]; rfl⟩, List.prefix_rfl⟩

/-- The links of the bundle from one of its directories. -/
def LinksOf (fs : Fs) (b : Path) (call : Path × Path) (name : String) (p t : Path) : Prop :=
  Linkable fs b call.1 name ∧ p = USR_LOCAL ++ call.2 ++ [name] ∧
    t = resources b ++ call.1 ++ [name]

/-- The links of the bundles. -/
def AnyLink (fs : Fs) (bs : List Path) (p t : Path) : Prop :=
  ∃ b ∈ bs, ∃ call ∈ LINK_DIRS, ∃ name, LinksOf fs b call name p t

theorem AnyLink.mono {fs : Fs} {bs bs' : List Path} {p t : Path} (h : AnyLink fs bs p t)
    (hbs : ∀ b ∈ bs, b ∈ bs') : AnyLink fs bs' p t := by
  obtain ⟨b, hb, h⟩ := h
  exact ⟨b, hbs b hb, h⟩

theorem anyLink_target_unique {fs : Fs} {b p t t' : Path} (h : AnyLink fs [b] p t)
    (h' : AnyLink fs [b] p t') : t = t' := by
  have hinj : ∀ call ∈ LINK_DIRS, ∀ call' ∈ LINK_DIRS, call.2 = call'.2 → call.1 = call'.1 := by
    decide
  obtain ⟨_, hb, call, hcall, name, -, rfl, rfl⟩ := h
  obtain ⟨_, hb', call', hcall', name', -, hp, rfl⟩ := h'
  obtain ⟨hdst, hname⟩ := List.append_inj' hp rfl
  rw [List.mem_singleton.mp hb, List.mem_singleton.mp hb',
    hinj call hcall call' hcall' (List.append_cancel_left hdst), (List.cons.inj hname).1]

/-- The directories of a bundle in `/usr/local`. -/
def DirsOf (fs : Fs) (b c : Path) : Prop :=
  ∃ call ∈ LINK_DIRS, (dirAt fs (resources b ++ call.1)).isSome = true ∧ c <+: USR_LOCAL ++ call.2

theorem dirsOf_mem_made {fs : Fs} {bs : List Path} {b c : Path} (hb : b ∈ bs)
    (h : DirsOf fs b c) : c ∈ made fs bs := by
  obtain ⟨call, hcall, hdir, hc⟩ := h
  exact mem_made.mpr ⟨call, hcall, ⟨b, hb, hdir⟩, hc⟩

section Effect

variable {fs₀ fs : Fs} {bs : List Path} {last b : Path} {call : Path × Path}
  (hs : Swappable fs₀ bs last)

include hs

theorem anyLink_plain (p t : Path) (h : AnyLink fs₀ bs p t) :
    dirAt (withDirs (made fs₀ bs) fs₀) p = none ∧ dirAt (withDirs (made fs₀ bs) fs₀) t = none := by
  obtain ⟨b, hb, call, hcall, name, hlink, rfl, rfl⟩ := h
  exact (hs.plain b hb call hcall name hlink).symm

theorem anyLink_notMem_made {p t : Path} (h : AnyLink fs₀ bs p t) : p ∉ made fs₀ bs := by
  intro hmem
  have hreal : Real (withDirs (made fs₀ bs) fs₀) p := by
    intro c hc
    exact node_withDirs_of_mem (ancestor_mem_made hc hmem)
  have hnone := (anyLink_plain hs p t h).1
  rw [dirAt, dirOf_real hreal] at hnone
  cases hnone

theorem notMem_made_of_dirAt {q : Path} (hb : b ∈ bs) (hcall : call ∈ LINK_DIRS)
    (hq : dirAt fs₀ (resources b ++ call.1) = some q) : q ∉ made fs₀ bs :=
  (hs.apart b hb call hcall q
    (dirOf_le hs.free (anyLink_plain hs) Grows.refl le_rfl hq)).2

variable (hg : Grows (made fs₀ bs) (AnyLink fs₀ bs) fs₀ fs)

include hg

theorem dirAt_resources (hb : b ∈ bs) (hcall : call ∈ LINK_DIRS) :
    dirAt fs (resources b ++ call.1) = dirAt fs₀ (resources b ++ call.1) := by
  have hle : ∀ q, dirAt fs (resources b ++ call.1) = some q →
      dirAt fs₀ (resources b ++ call.1) = some q := fun q hq =>
    (hs.apart b hb call hcall q (dirOf_le hs.free (anyLink_plain hs) hg le_rfl hq)).1
  have hge : ∀ q, dirAt fs₀ (resources b ++ call.1) = some q →
      dirAt fs (resources b ++ call.1) = some q := fun q hq =>
    dirOf_ge hs.free (anyLink_plain hs) hg le_rfl hq
  exact Option.ext fun q => ⟨hle q, hge q⟩

theorem node_resources {q : Path} {name : String} (hb : b ∈ bs) (hcall : call ∈ LINK_DIRS)
    (hq : dirAt fs₀ (resources b ++ call.1) = some q) :
    node fs (q ++ [name]) = node fs₀ (q ++ [name]) := by
  have hnot := notMem_made_of_dirAt hs hb hcall hq
  rcases hg (q ++ [name]) with heq | ⟨hmem, -⟩ | ⟨t, hlink, -⟩
  · exact heq
  · exact absurd (ancestor_mem_made (List.prefix_append _ _) hmem) hnot
  · obtain ⟨b', hb', call', hcall', name', hlink', hp, -⟩ := hlink
    rw [(List.append_inj' hp rfl).1] at hnot
    exact absurd (hlink'.made hb' hcall') hnot

theorem linkable_iff {name : String} (hb : b ∈ bs) (hcall : call ∈ LINK_DIRS) :
    Linkable fs b call.1 name ↔ Linkable fs₀ b call.1 name := by
  rw [Linkable, Linkable, dirAt_resources hs hg hb hcall]
  refine exists_congr fun q => and_congr_right fun hq => ?_
  rw [node_resources hs hg hb hcall hq]

/-- The link of an entry is put in its place. -/
theorem lnSf_linkable {name : String} (hb : b ∈ bs) (hcall : call ∈ LINK_DIRS)
    (hl : Linkable fs₀ b call.1 name) (hdst : Real fs (USR_LOCAL ++ call.2)) :
    lnSf (MAXSYMLINKS + 1) fs (resources b ++ call.1) (USR_LOCAL ++ call.2) name =
      .ok (set fs (USR_LOCAL ++ call.2 ++ [name]) (.link (resources b ++ call.1 ++ [name]))) := by
  refine lnSf_real hdst (Option.eq_none_iff_forall_ne_some.mpr fun d hd => ?_) fun heq => ?_
  · have hsome := dirOf_le hs.free (anyLink_plain hs) hg le_rfl hd
    have hnone := (hs.plain b hb call hcall name hl).2
    rw [dirAt, hsome] at hnone
    cases hnone
  · rw [← dirAt, dirAt_resources hs hg hb hcall] at heq
    exact notMem_made_of_dirAt hs hb hcall heq (hl.made hb hcall)

/-- One name of the bundle : the link, if the script makes one. -/
theorem linkEntry_wrote {q : Path} {name : String} (hb : b ∈ bs) (hcall : call ∈ LINK_DIRS)
    (hq : dirAt fs₀ (resources b ++ call.1) = some q) (hname : visible name = true)
    (hdst : Real fs (USR_LOCAL ++ call.2)) :
    ∃ fs', linkEntry (resources b ++ call.1) (resources b ++ call.1) (USR_LOCAL ++ call.2) fs name
        = .ok fs' ∧ Wrote (fun _ => False) (LinksOf fs₀ b call name) fs fs' := by
  have hlookup : ((dirAt fs (resources b ++ call.1)).bind fun q => node fs (q ++ [name])) =
      node fs₀ (q ++ [name]) := by
    rw [dirAt_resources hs hg hb hcall, hq, Option.bind_some, node_resources hs hg hb hcall hq]
  have hlinkable : Linkable fs₀ b call.1 name ↔ isLibgbm name = false ∧
      node fs₀ (q ++ [name]) ≠ none ∧ node fs₀ (q ++ [name]) ≠ some .dir := by
    rw [Linkable]
    simp only [hq, Option.some.injEq, exists_eq_left', hname, true_and]
  have hskip : ¬ Linkable fs₀ b call.1 name →
      Wrote (fun _ => False) (LinksOf fs₀ b call name) fs fs := fun hnot =>
    Wrote.refl.congr (fun _ => Iff.rfl) fun _ _ => ⟨False.elim, fun h => hnot h.1⟩
  rw [linkEntry, hlookup]
  split
  · next h => exact ⟨fs, rfl, hskip fun hl => (hlinkable.mp hl).2.1 h⟩
  · next h => exact ⟨fs, rfl, hskip fun hl => (hlinkable.mp hl).2.2 h⟩
  · next x hx hnode =>
    by_cases hgbm : isLibgbm name = true
    · rw [if_pos (isLibgbm_basename hgbm)]
      refine ⟨fs, rfl, hskip fun hl => ?_⟩
      rw [hgbm] at hlinkable
      cases (hlinkable.mp hl).1
    · have hl : Linkable fs₀ b call.1 name := by
        rw [hlinkable, hnode]
        exact ⟨Bool.eq_false_iff.mpr hgbm, by simp, by simpa using hx⟩
      have hlast := hs.printed b hb call hcall name hl
      rw [basename_eq_self hlast, if_neg hgbm, if_neg (ne_empty_of_getLast hlast),
        lnSf_linkable hs hg hb hcall hl hdst]
      exact ⟨_, rfl, (wrote_set_link (by simp)).congr (fun _ => Iff.rfl) fun p t =>
        ⟨fun h => ⟨hl, h⟩, fun h => h.2⟩⟩

theorem mem_glob {q : Path} (hb : b ∈ bs) (hcall : call ∈ LINK_DIRS)
    (hq : dirAt fs₀ (resources b ++ call.1) = some q) :
    (∀ name ∈ glob fs (resources b ++ call.1), visible name = true) ∧
      ∀ name, Linkable fs₀ b call.1 name → name ∈ glob fs (resources b ++ call.1) := by
  have hdir : dirAt fs (resources b ++ call.1) = some q := by
    rw [dirAt_resources hs hg hb hcall, hq]
  rw [glob, hdir, Option.elim_some]
  constructor
  · intro name hname
    split at hname
    · rw [List.mem_singleton.mp hname]
      decide
    · rw [List.mem_insertionSort, List.mem_filter] at hname
      exact hname.2
  · rintro name ⟨q', hq', hvisible, -, hnode, -⟩
    rw [hq, Option.some.injEq] at hq'
    rw [← hq', ← node_resources hs hg hb hcall hq] at hnode
    have hmem : name ∈ ((names fs q).filter visible).insertionSort (· ≤ ·) := by
      rw [List.mem_insertionSort, List.mem_filter]
      exact ⟨mem_names.mpr hnode, hvisible⟩
    rw [if_neg (List.ne_nil_of_mem hmem)]
    exact hmem

/-- `mkdir -p` of a directory that the bundle has links for. -/
theorem mkdirP_wrote (hmade : USR_LOCAL ++ call.2 ∈ made fs₀ bs) :
    ∃ fs', mkdirP (MAXSYMLINKS + 1) fs [] (USR_LOCAL ++ call.2) = .ok fs' ∧
      Wrote (fun c => c <+: USR_LOCAL ++ call.2) (fun _ _ => False) fs fs' ∧
      Real fs' (USR_LOCAL ++ call.2) := by
  have hroot : Real fs [] := fun c hc => by rw [List.prefix_nil.mp hc, node_nil]
  have hfree : ∀ c, c <+: [] ++ (USR_LOCAL ++ call.2) →
      node fs c = none ∨ node fs c = some .dir := by
    intro c hc
    rcases hg c with heq | ⟨-, hdir⟩ | ⟨t, hlink, -⟩
    · rw [heq]
      exact hs.free c (ancestor_mem_made hc hmade)
    · exact Or.inr hdir
    · exact absurd (ancestor_mem_made hc hmade) (anyLink_notMem_made hs hlink)
  obtain ⟨fs', hok, hreal, hframe⟩ := mkdirP_real (k := MAXSYMLINKS) hroot hfree
  refine ⟨fs', hok, fun c => ?_, hreal⟩
  by_cases hc : c <+: USR_LOCAL ++ call.2
  · exact Or.inl ⟨hc, hreal c hc⟩
  · exact Or.inr (Or.inr ⟨hc, fun _ => id, hframe c hc⟩)

/-- The loop over names of the bundle. -/
theorem linkEntries_wrote {q : Path} {ns : List String} (hb : b ∈ bs) (hcall : call ∈ LINK_DIRS)
    (hq : dirAt fs₀ (resources b ++ call.1) = some q) (hns : ∀ name ∈ ns, visible name = true)
    (hdst : Real fs (USR_LOCAL ++ call.2)) :
    ∃ fs', ns.foldlM (linkEntry (resources b ++ call.1) (resources b ++ call.1)
        (USR_LOCAL ++ call.2)) fs = .ok fs' ∧
      Wrote (fun _ => False) (fun p t => ∃ name ∈ ns, LinksOf fs₀ b call name p t) fs fs' := by
  have hbody : ∀ name ∈ ns, ∀ fs,
      Grows (made fs₀ bs) (AnyLink fs₀ bs) fs₀ fs ∧ Real fs (USR_LOCAL ++ call.2) →
      ∃ fs', linkEntry (resources b ++ call.1) (resources b ++ call.1) (USR_LOCAL ++ call.2) fs name
          = .ok fs' ∧ Wrote (fun _ => False) (LinksOf fs₀ b call name) fs fs' ∧
        Grows (made fs₀ bs) (AnyLink fs₀ bs) fs₀ fs' ∧ Real fs' (USR_LOCAL ++ call.2) := by
    rintro name hname fs ⟨hg, hdst⟩
    obtain ⟨fs', hok, hwrote⟩ := linkEntry_wrote hs hg hb hcall hq (hns name hname) hdst
    have hany : ∀ p t, LinksOf fs₀ b call name p t → AnyLink fs₀ bs p t :=
      fun p t hl => ⟨b, hb, call, hcall, name, hl⟩
    refine ⟨fs', hok, hwrote, hwrote.grows (fun _ => False.elim) hany hg, fun c hc => ?_⟩
    rcases hwrote c with ⟨hfalse, -⟩ | ⟨t, hl, -⟩ | ⟨-, -, heq⟩
    · exact hfalse.elim
    · -- no link takes the place of a directory that was made
      exact absurd (ancestor_mem_made hc (hl.1.made hb hcall)) (anyLink_notMem_made hs (hany c t hl))
    · rw [heq, hdst c hc]
  obtain ⟨fs', hok, hwrote, -⟩ := foldlM_wrote hbody ⟨hg, hdst⟩
  exact ⟨fs', hok, hwrote.congr (fun _ => by simp) fun _ _ => Iff.rfl⟩

/-- A call of `link_dir` makes the directory, and the links of the bundle in it. -/
theorem linkDir_wrote (hb : b ∈ bs) (hcall : call ∈ LINK_DIRS) :
    ∃ fs', linkDir (resources b) b [] fs call = .ok fs' ∧
      Wrote (fun c => (dirAt fs₀ (resources b ++ call.1)).isSome = true ∧ c <+: USR_LOCAL ++ call.2)
        (fun p t => ∃ name, LinksOf fs₀ b call name p t) fs fs' := by
  cases hq : dirAt fs₀ (resources b ++ call.1) with
  | none =>
    refine ⟨fs, ?_, Wrote.refl.congr (fun _ => by simp) fun _ _ => ⟨False.elim, ?_⟩⟩
    · rw [linkDir, dirAt_resources hs hg hb hcall, hq]
      rfl
    · rintro ⟨name, ⟨q, hq', -⟩, -⟩
      rw [hq] at hq'
      cases hq'
  | some q =>
    have hmade : USR_LOCAL ++ call.2 ∈ made fs₀ bs :=
      mem_made.mpr ⟨call, hcall, ⟨b, hb, by rw [hq]; rfl⟩, List.prefix_rfl⟩
    obtain ⟨fs₁, hmkdir, hwrote₁, hreal⟩ := mkdirP_wrote hs hg hmade
    have hg₁ : Grows (made fs₀ bs) (AnyLink fs₀ bs) fs₀ fs₁ :=
      hwrote₁.grows (fun _ hc => ancestor_mem_made hc hmade) (fun _ _ => False.elim) hg
    obtain ⟨hvisible, hglob⟩ := mem_glob hs hg₁ hb hcall hq
    obtain ⟨fs₂, hloop, hwrote₂⟩ := linkEntries_wrote hs hg₁ hb hcall hq hvisible hreal
    refine ⟨fs₂, ?_, (hwrote₁.trans hwrote₂).congr (fun c => by simp) fun p t => ?_⟩
    · rw [linkDir, dirAt_resources hs hg hb hcall, hq, Option.isSome_some, if_pos rfl,
        List.nil_append, hmkdir]
      exact hloop
    · constructor
      · rintro (hfalse | ⟨name, -, hl⟩)
        · exact hfalse.elim
        · exact ⟨name, hl⟩
      · rintro ⟨name, hl⟩
        exact Or.inr ⟨name, hglob name hl.1, hl⟩

/-- A run makes the directories and the links of the bundle. -/
theorem runActivate_wrote (hb : b ∈ bs) :
    Wrote (DirsOf fs₀ b) (AnyLink fs₀ [b]) fs (runActivate fs b) ∧
      Grows (made fs₀ bs) (AnyLink fs₀ bs) fs₀ (runActivate fs b) := by
  have hbody : ∀ call ∈ LINK_DIRS, ∀ fs, Grows (made fs₀ bs) (AnyLink fs₀ bs) fs₀ fs →
      ∃ fs', linkDir (resources b) b [] fs call = .ok fs' ∧
        Wrote (fun c => (dirAt fs₀ (resources b ++ call.1)).isSome = true ∧
            c <+: USR_LOCAL ++ call.2)
          (fun p t => ∃ name, LinksOf fs₀ b call name p t) fs fs' ∧
        Grows (made fs₀ bs) (AnyLink fs₀ bs) fs₀ fs' := by
    intro call hcall fs hg
    obtain ⟨fs', hok, hwrote⟩ := linkDir_wrote hs hg hb hcall
    refine ⟨fs', hok, hwrote, hwrote.grows ?_ ?_ hg⟩
    · exact fun c hc => dirsOf_mem_made hb ⟨call, hcall, hc⟩
    · rintro p t ⟨name, hl⟩
      exact ⟨b, hb, call, hcall, name, hl⟩
  obtain ⟨fs', hok, hwrote, hg'⟩ := foldlM_wrote hbody hg
  have hrun : runActivate fs b = fs' := by
    rw [runActivate, activate, hok]
    rfl
  rw [hrun]
  refine ⟨hwrote.congr (fun _ => Iff.rfl) fun p t => ?_, hg'⟩
  simp [AnyLink]

/-- What is there after a run. -/
theorem node_runActivate (hb : b ∈ bs) :
    (∀ c, DirsOf fs₀ b c → node (runActivate fs b) c = some .dir) ∧
      ∀ p t, AnyLink fs₀ [b] p t → node (runActivate fs b) p = some (.link t) := by
  refine (runActivate_wrote hs hg hb).1.node_eq (fun p t hl hd => ?_)
    fun p t t' => anyLink_target_unique
  exact anyLink_notMem_made hs (hl.mono (by simpa using hb)) (dirsOf_mem_made hb hd)

/-- A second run changes nothing. -/
theorem runActivate_again (hb : b ∈ bs) (p : Path) :
    node (runActivate (runActivate fs b) b) p = node (runActivate fs b) p := by
  obtain ⟨hdir, hlink⟩ := node_runActivate hs hg hb
  rcases (runActivate_wrote hs (runActivate_wrote hs hg hb).2 hb).1 p with
    ⟨hd, hp⟩ | ⟨t, hl, hp⟩ | ⟨-, -, hp⟩
  · rw [hp, hdir p hd]
  · rw [hp, hlink p t hl]
  · exact hp

omit hg

/-- The runs make no other directories and links than those of the bundles. -/
theorem grows_runs : ∀ {bs' : List Path} {fs : Fs}, (∀ b ∈ bs', b ∈ bs) →
    Grows (made fs₀ bs) (AnyLink fs₀ bs) fs₀ fs →
      Grows (made fs₀ bs) (AnyLink fs₀ bs) fs₀ (bs'.foldl runActivate fs)
  | [], _, _, hg => hg
  | b :: bs', fs, hbs, hg => by
    rw [List.forall_mem_cons] at hbs
    rw [List.foldl_cons]
    exact grows_runs hbs.2 (runActivate_wrote hs hg hbs.1).2

end Effect

/-- After runs for bundles of which the last has all the names, exactly the last is live. -/
theorem oneLive_of_swappable {fs₀ : Fs} {bs : List Path} {last : Path}
    (hfresh : Fresh fs₀ (bs ++ [last])) (hs : Swappable fs₀ (bs ++ [last]) last) :
    OneLive (bs ++ [last]) last ((bs ++ [last]).foldl runActivate fs₀) := by
  have hlast : last ∈ bs ++ [last] := by simp
  have hbefore : Grows (made fs₀ (bs ++ [last])) (AnyLink fs₀ (bs ++ [last])) fs₀
      (bs.foldl runActivate fs₀) :=
    grows_runs hs (fun b hb => List.mem_append_left _ hb) Grows.refl
  rw [List.foldl_append, List.foldl_cons, List.foldl_nil]
  generalize bs.foldl runActivate fs₀ = fs at hbefore
  have hg := (runActivate_wrote hs hbefore hlast).2
  have hlinked : ∀ call ∈ LINK_DIRS, ∀ name, Linkable fs₀ last call.1 name →
      node (runActivate fs last) (USR_LOCAL ++ call.2 ++ [name]) =
        some (.link (resources last ++ call.1 ++ [name])) := fun call hcall name hl =>
    (node_runActivate hs hbefore hlast).2 _ _
      ⟨last, List.mem_singleton_self last, call, hcall, name, hl, rfl, rfl⟩
  refine ⟨?_, ?_, ?_, runActivate_again hs hbefore hlast⟩
  · rintro p t hp ht ⟨b, hb, hbt⟩
    rcases hg p with heq | ⟨-, hd⟩ | ⟨u, ⟨b', hb', call, hcall, name, hl, rfl, rfl⟩, hu⟩
    · rw [heq] at ht
      exact absurd hbt (hfresh.into p t hp ht b hb)
    · rw [hd] at ht
      cases ht
    · -- a link of an earlier bundle, so the last bundle has the name and put its own there
      have hl' := hs.covered b' hb' call hcall name hl
      rw [hlinked call hcall name hl', Option.some.injEq, Node.link.injEq] at ht
      exact ⟨call, hcall, name, (linkable_iff hs hg hlast hcall).mpr hl', ht.symm⟩
  · exact fun call hcall name hl => hlinked call hcall name ((linkable_iff hs hg hlast hcall).mp hl)
  · intro name hname t ht
    rcases hg (USR_LOCAL ++ ["lib"] ++ [name]) with heq | ⟨-, hd⟩ | ⟨u, hl, -⟩
    · rw [heq] at ht
      exact hfresh.libgbm name hname t ht
    · rw [hd] at ht
      cases ht
    · obtain ⟨b, -, call, -, name', ⟨q, -, -, hgbm, -⟩, hp, -⟩ := hl
      rw [← (List.cons.inj (List.append_inj' hp rfl).2).1, hname] at hgbm
      cases hgbm

/-! ## Two bundles -/

/-- The bundle of an older branch. -/
def NVIDIA470 : Path :=
  ["System", "Library", "Extensions", "NVIDIA470.bundle"]

/-- The bundle of a newer branch. -/
def NVIDIA595 : Path :=
  ["System", "Library", "Extensions", "NVIDIA595.bundle"]

/-- An installed bundle with these libraries. -/
def bundleTree (bundle : Path) (libs : List String) : Fs :=
  (resources bundle ++ ["lib"]).inits.map (fun p => (p, .dir)) ++
    libs.map fun name => (resources bundle ++ ["lib"] ++ [name], .file)

/-- The newer bundle has all libraries of the older one. -/
def coveringBundles : Fs :=
  bundleTree NVIDIA470 ["libGLX_nvidia.so.0", "libgbm.so.1"] ++
    bundleTree NVIDIA595 ["libGLX_nvidia.so.0", "libgbm.so.1", "libnvidia-gpucomp.so"]

/-- The newer bundle lacks a library of the older one. -/
def droppedLibrary : Fs :=
  bundleTree NVIDIA470 ["libGLX_nvidia.so.0", "libnvidia-ifr.so.1"] ++
    bundleTree NVIDIA595 ["libGLX_nvidia.so.0"]

theorem fresh_of_no_links {fs : Fs} (h : ∀ e ∈ fs, e.2 = .dir ∨ e.2 = .file) (bs : List Path) :
    Fresh fs bs := by
  have hnode : ∀ p t, node fs p ≠ some (.link t) := by
    intro p t hp
    by_cases hnil : p = []
    · rw [hnil, node_nil] at hp
      cases hp
    · rcases h _ (mem_of_node hnil hp) with he | he <;> cases he
  exact ⟨fun p t _ hp => absurd hp (hnode p t), fun name _ t => hnode _ t⟩

theorem swappable_covering :
    Swappable coveringBundles ([NVIDIA470] ++ [NVIDIA595]) NVIDIA595 := by
  have hapart : ∀ b ∈ [NVIDIA470] ++ [NVIDIA595], ∀ call ∈ LINK_DIRS,
      ∀ q ∈ dirAt (withDirs (made coveringBundles ([NVIDIA470] ++ [NVIDIA595])) coveringBundles)
          (resources b ++ call.1),
        dirAt coveringBundles (resources b ++ call.1) = some q ∧
          q ∉ made coveringBundles ([NVIDIA470] ++ [NVIDIA595]) := by decide +kernel
  have hplain : ∀ b ∈ [NVIDIA470] ++ [NVIDIA595], ∀ call ∈ LINK_DIRS,
      ∀ name ∈ linkables coveringBundles b call.1,
        dirAt (withDirs (made coveringBundles ([NVIDIA470] ++ [NVIDIA595])) coveringBundles)
            (resources b ++ call.1 ++ [name]) = none ∧
          dirAt (withDirs (made coveringBundles ([NVIDIA470] ++ [NVIDIA595])) coveringBundles)
            (USR_LOCAL ++ call.2 ++ [name]) = none := by decide +kernel
  have hcovered : ∀ b ∈ [NVIDIA470] ++ [NVIDIA595], ∀ call ∈ LINK_DIRS,
      ∀ name ∈ linkables coveringBundles b call.1,
        Linkable coveringBundles NVIDIA595 call.1 name := by decide +kernel
  have hprinted : ∀ b ∈ [NVIDIA470] ++ [NVIDIA595], ∀ call ∈ LINK_DIRS,
      ∀ name ∈ linkables coveringBundles b call.1,
        name.toList.getLast?.any (· ≠ '\n') = true := by decide +kernel
  refine ⟨by decide +kernel, hapart,
    fun b hb call hcall name h => hplain b hb call hcall name (mem_linkables.mpr h),
    fun b hb call hcall name h => ?_,
    fun b hb call hcall name h => hcovered b hb call hcall name (mem_linkables.mpr h)⟩
  have hany := hprinted b hb call hcall name (mem_linkables.mpr h)
  obtain ⟨c, hc, hne⟩ := (Option.any_eq_true _ _).mp hany
  exact ⟨c, hc, of_decide_eq_true hne⟩

theorem oneLive_of_swappable_covering :
    OneLive [NVIDIA470, NVIDIA595] NVIDIA595
      ([NVIDIA470, NVIDIA595].foldl runActivate coveringBundles) :=
  oneLive_of_swappable (fresh_of_no_links (by decide +kernel) ([NVIDIA470] ++ [NVIDIA595]))
    swappable_covering

/-- The link to the library stays, and points into the older bundle. -/
theorem not_oneLive_droppedLibrary :
    Fresh droppedLibrary [NVIDIA470, NVIDIA595] ∧
    ¬ OneLive [NVIDIA470, NVIDIA595] NVIDIA595
      ([NVIDIA470, NVIDIA595].foldl runActivate droppedLibrary) := by
  refine ⟨fresh_of_no_links (by decide +kernel) _, fun h => ?_⟩
  have hlink : node ([NVIDIA470, NVIDIA595].foldl runActivate droppedLibrary)
      (USR_LOCAL ++ ["lib", "libnvidia-ifr.so.1"]) =
        some (.link (resources NVIDIA470 ++ ["lib", "libnvidia-ifr.so.1"])) := by decide +kernel
  obtain ⟨call, -, name, -, heq⟩ := h.into _ _ (by decide) hlink ⟨NVIDIA470, by decide, by decide⟩
  rw [List.append_assoc, resources, resources, List.append_assoc, List.append_assoc] at heq
  exact absurd (List.append_inj heq rfl).1 (by decide)

end KernelModules.Activate
