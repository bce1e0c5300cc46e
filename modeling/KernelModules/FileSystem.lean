import Mathlib.Data.List.Basic
import Mathlib.Data.List.Dedup
import Mathlib.Data.List.Infix

/-!
# Trees of files with symbolic links

A tree maps a path without symbolic links to a file, a directory or a link. `dirOf` finds the
directory that a path leads to, links followed, and `mkdirP` and `lnSf` are `mkdir -p` and
`ln -sf` : an `ln -sf` at a name that leads to a directory makes the link in that directory.

Directories made where nothing stood, and links that lead to no directory put where none stood,
change no path that led to a directory (`dirOf_ge`), and a path that comes to lead to one does so
once all these directories are there (`dirOf_le`).
-/

namespace KernelModules.FileSystem

variable {α : Type*}

/-- A file, a directory or a symbolic link to a path from the root. -/
inductive Node (α : Type*) where
  | file
  | dir
  | link (target : List α)
deriving DecidableEq, Repr

/-- The entries of a tree, the newest of a path first. -/
abbrev FileTree (α : Type*) := List (List α × Node α)

variable [DecidableEq α]

/-- What is at a path without symbolic links. -/
def node (fs : FileTree α) (p : List α) : Option (Node α) :=
  if p = [] then some .dir else fs.lookup p

/-- Put a node in the place of what is there. -/
def set (fs : FileTree α) (p : List α) (x : Node α) : FileTree α :=
  (p, x) :: fs

@[simp]
theorem node_nil {fs : FileTree α} : node fs [] = some .dir :=
  if_pos rfl

theorem node_set_self {fs : FileTree α} {p : List α} {x : Node α} (hp : p ≠ []) :
    node (set fs p x) p = some x := by
  rw [node, if_neg hp, set, List.lookup_cons_self]

theorem node_set_of_ne {fs : FileTree α} {p q : List α} {x : Node α} (h : q ≠ p) :
    node (set fs p x) q = node fs q := by
  rw [node, node, set, List.lookup_cons, beq_false_of_ne h]

theorem mem_of_node {fs : FileTree α} {p : List α} {x : Node α} (hp : p ≠ [])
    (h : node fs p = some x) : (p, x) ∈ fs := by
  rw [node, if_neg hp] at h
  obtain ⟨l₁, l₂, rfl, -⟩ := List.lookup_eq_some_iff.mp h
  simp

/-- The names in a directory. -/
def names (fs : FileTree α) (q : List α) : List α :=
  (fs.filterMap fun e => if e.1.dropLast = q then e.1.getLast? else none).dedup

theorem mem_names {fs : FileTree α} {q : List α} {n : α} :
    n ∈ names fs q ↔ node fs (q ++ [n]) ≠ none := by
  have hne : q ++ [n] ≠ [] := by simp
  rw [names, List.mem_dedup, List.mem_filterMap, node, if_neg hne, Ne, List.lookup_eq_none_iff]
  constructor
  · rintro ⟨e, he, hn⟩ hnone
    obtain ⟨hq, hn⟩ := Option.ite_none_right_eq_some.mp hn
    have hpath : e.1 = q ++ [n] := by
      rw [← hq]
      exact (List.dropLast_append_getLast? _ hn).symm
    exact bne_iff_ne.mp (hnone e he) hpath.symm
  · intro hsome
    simp only [not_forall, bne_iff_ne, ne_eq, not_not] at hsome
    obtain ⟨e, he, hpath⟩ := hsome
    refine ⟨e, he, ?_⟩
    rw [← hpath, List.dropLast_concat, if_pos rfl, List.getLast?_concat]

/-! ## Following links -/

/-- The directory that `rest` leads to from the directory `q`. -/
def walk (fs : FileTree α) (follow : List α → Option (List α)) : List α → List α → Option (List α)
  | q, [] => some q
  | q, n :: rest =>
    match node fs (q ++ [n]) with
    | some .dir => walk fs follow (q ++ [n]) rest
    | some (.link t) => follow (t ++ rest)
    | _ => none

/-- The directory that a path leads to, over fewer than `k` links. -/
def dirOf (fs : FileTree α) : ℕ → List α → Option (List α)
  | 0, _ => none
  | k + 1, p => walk fs (dirOf fs k) [] p

section Walk

variable {fs : FileTree α} {follow : List α → Option (List α)} {q rest t : List α} {n : α}

theorem walk_of_dir (h : node fs (q ++ [n]) = some .dir) :
    walk fs follow q (n :: rest) = walk fs follow (q ++ [n]) rest := by
  rw [walk, h]

theorem walk_of_link (h : node fs (q ++ [n]) = some (.link t)) :
    walk fs follow q (n :: rest) = follow (t ++ rest) := by
  rw [walk, h]

/-- A step of a walk that gets through is to a directory or over a link. -/
theorem walk_cons_cases {r : List α} (h : walk fs follow q (n :: rest) = some r) :
    (node fs (q ++ [n]) = some .dir ∧ walk fs follow (q ++ [n]) rest = some r) ∨
      ∃ t, node fs (q ++ [n]) = some (.link t) ∧ follow (t ++ rest) = some r := by
  rw [walk] at h
  split at h
  · next hdir => exact Or.inl ⟨hdir, h⟩
  · next t hlink => exact Or.inr ⟨t, hlink, h⟩
  · cases h

end Walk

theorem walk_mono {fs : FileTree α} {f g : List α → Option (List α)}
    (hfg : ∀ p r, f p = some r → g p = some r) : ∀ {p q r : List α},
      walk fs f q p = some r → walk fs g q p = some r
  | [], q, r, h => h
  | n :: p, q, r, h => by
    rcases walk_cons_cases h with ⟨hdir, h⟩ | ⟨t, hlink, h⟩
    · rw [walk_of_dir hdir]
      exact walk_mono hfg h
    · rw [walk_of_link hlink]
      exact hfg _ _ h

theorem dirOf_succ {fs : FileTree α} : ∀ {k : ℕ} {p r : List α},
    dirOf fs k p = some r → dirOf fs (k + 1) p = some r
  | 0, p, r, h => by cases h
  | k + 1, p, r, h => walk_mono (fun _ _ => dirOf_succ) h

theorem dirOf_mono {fs : FileTree α} {k k' : ℕ} (hk : k ≤ k') {p r : List α}
    (h : dirOf fs k p = some r) : dirOf fs k' p = some r := by
  induction hk with
  | refl => exact h
  | step _ ih => exact dirOf_succ ih

theorem walk_append {fs : FileTree α} {f : List α → Option (List α)}
    (hf : ∀ p r q, f (p ++ r) = some q → ∃ q', f p = some q') : ∀ {p r a q : List α},
      walk fs f a (p ++ r) = some q → ∃ q', walk fs f a p = some q'
  | [], _, a, _, _ => ⟨a, rfl⟩
  | n :: p, r, a, q, h => by
    rw [List.cons_append] at h
    rcases walk_cons_cases h with ⟨hdir, h⟩ | ⟨t, hlink, h⟩
    · rw [walk_of_dir hdir]
      exact walk_append hf h
    · rw [walk_of_link hlink]
      exact hf _ r q (by rwa [List.append_assoc])

/-- What is on the way to a directory leads to one. -/
theorem dirOf_append {fs : FileTree α} : ∀ {k : ℕ} {p r q : List α},
    dirOf fs k (p ++ r) = some q → ∃ q', dirOf fs k p = some q'
  | 0, _, _, _, h => by cases h
  | _ + 1, _, _, _, h => walk_append (fun _ _ _ => dirOf_append) h

/-! ## Paths without links -/

/-- Everything on the path is a directory. -/
def Real (fs : FileTree α) (p : List α) : Prop :=
  ∀ c, c <+: p → node fs c = some .dir

theorem Real.snoc {fs : FileTree α} {p : List α} {n : α} (h : Real fs p)
    (hn : node fs (p ++ [n]) = some .dir) : Real fs (p ++ [n]) := by
  intro c hc
  rcases List.prefix_concat_iff.mp hc with rfl | hc
  · exact hn
  · exact h c hc

theorem walk_real {fs : FileTree α} {f : List α → Option (List α)} {r : List α} :
    ∀ {p q : List α}, Real fs (q ++ p) → walk fs f q (p ++ r) = walk fs f (q ++ p) r
  | [], q, _ => by rw [List.append_nil, List.nil_append]
  | n :: p, q, h => by
    have hassoc : q ++ n :: p = q ++ [n] ++ p := by simp
    rw [hassoc] at h ⊢
    rw [List.cons_append, walk_of_dir (h (q ++ [n]) (List.prefix_append _ _)), walk_real h]

theorem dirOf_real {fs : FileTree α} {k : ℕ} {p : List α} (h : Real fs p) :
    dirOf fs (k + 1) p = some p := by
  have hwalk := walk_real (f := dirOf fs k) (r := []) (q := []) h
  rwa [List.append_nil] at hwalk

/-! ## Trees that grow -/

/-- The tree with the directories `C`. -/
def withDirs (C : List (List α)) (fs : FileTree α) : FileTree α :=
  C.map (fun c => (c, .dir)) ++ fs

theorem node_withDirs_of_mem {C : List (List α)} {fs : FileTree α} {p : List α} (hp : p ∈ C) :
    node (withDirs C fs) p = some .dir := by
  rw [node]
  split
  · rfl
  · rw [withDirs, List.lookup_append]
    have hlookup : (C.map fun c => (c, (Node.dir : Node α))).lookup p = some .dir := by
      induction C with
      | nil => cases hp
      | cons c C ih =>
        rw [List.map_cons, List.lookup_cons]
        by_cases hc : p = c
        · rw [beq_iff_eq.mpr hc]
        · rw [beq_false_of_ne hc]
          exact ih ((List.mem_cons.mp hp).resolve_left hc)
    rw [hlookup]
    rfl

theorem node_withDirs_of_notMem {C : List (List α)} {fs : FileTree α} {p : List α} (hp : p ∉ C) :
    node (withDirs C fs) p = node fs p := by
  have hlookup : (C.map fun c => (c, (Node.dir : Node α))).lookup p = none := by
    rw [List.lookup_eq_none_iff]
    intro e he
    obtain ⟨c, hc, rfl⟩ := List.mem_map.mp he
    exact bne_iff_ne.mpr fun h => hp (h ▸ hc)
  rw [node, node, withDirs, List.lookup_append, hlookup, Option.none_or]

/-- Of `fs` only directories of `C` were added, and links that `A` allows put in place. -/
def Grows (C : List (List α)) (A : List α → List α → Prop) (fs fs' : FileTree α) : Prop :=
  ∀ p, node fs' p = node fs p ∨ (p ∈ C ∧ node fs' p = some .dir) ∨
    ∃ t, A p t ∧ node fs' p = some (.link t)

section Grows

variable {C : List (List α)} {A : List α → List α → Prop} {fs fs' : FileTree α} {K : ℕ}
  (hC : ∀ c ∈ C, node fs c = none ∨ node fs c = some .dir)
  (hA : ∀ p t, A p t → dirOf (withDirs C fs) K p = none ∧ dirOf (withDirs C fs) K t = none)

theorem Grows.refl : Grows C A fs fs :=
  fun _ => Or.inl rfl

include hC in
theorem node_withDirs_of_link {p t : List α} (h : node fs p = some (.link t)) :
    p ∉ C ∧ node (withDirs C fs) p = some (.link t) := by
  have hp : p ∉ C := by
    intro hp
    rcases hC p hp with hn | hn <;> rw [h] at hn <;> cases hn
  exact ⟨hp, by rw [node_withDirs_of_notMem hp, h]⟩

theorem node_withDirs_of_dir {p : List α} (h : node fs p = some .dir) :
    node (withDirs C fs) p = some .dir := by
  by_cases hp : p ∈ C
  · exact node_withDirs_of_mem hp
  · rw [node_withDirs_of_notMem hp, h]

include hC hA in
/-- A path that leads to a directory of the new tree leads to it once `C` is there. -/
theorem dirOf_le (hg : Grows C A fs fs') : ∀ {k : ℕ}, k ≤ K → ∀ {p q : List α},
    dirOf fs' k p = some q → dirOf (withDirs C fs) k p = some q
  | 0, _, _, _, h => by cases h
  | k + 1, hk, p, q, h => by
    have hwalk : ∀ {rest a : List α}, walk fs' (dirOf fs' k) a rest = some q →
        walk (withDirs C fs) (dirOf (withDirs C fs) k) a rest = some q := by
      intro rest
      induction rest with
      | nil => exact fun h => h
      | cons n rest ih =>
        intro a h
        rcases walk_cons_cases h with ⟨hdir, h⟩ | ⟨t, hlink, h⟩
        · have hW : node (withDirs C fs) (a ++ [n]) = some .dir := by
            rcases hg (a ++ [n]) with heq | ⟨hmem, -⟩ | ⟨t, -, hlink⟩
            · exact node_withDirs_of_dir (heq ▸ hdir)
            · exact node_withDirs_of_mem hmem
            · rw [hlink] at hdir
              cases hdir
          rw [walk_of_dir hW]
          exact ih h
        · have hle := dirOf_le hg (Nat.le_of_succ_le hk) h
          rcases hg (a ++ [n]) with heq | ⟨-, hdir⟩ | ⟨u, hu, hu'⟩
          · rw [walk_of_link (node_withDirs_of_link hC (heq ▸ hlink)).2]
            exact hle
          · rw [hdir] at hlink
            cases hlink
          · -- the new link leads to no directory
            rw [hlink, Option.some.injEq, Node.link.injEq] at hu'
            subst hu'
            obtain ⟨q', hq'⟩ := dirOf_append hle
            have hnone := (hA _ _ hu).2
            rw [dirOf_mono (Nat.le_of_succ_le hk) hq'] at hnone
            cases hnone
    exact hwalk h

include hC hA in
/-- A path that led to a directory leads to it in the new tree. -/
theorem dirOf_ge (hg : Grows C A fs fs') : ∀ {k : ℕ}, k ≤ K → ∀ {p q : List α},
    dirOf fs k p = some q → dirOf fs' k p = some q
  | 0, _, _, _, h => by cases h
  | k + 1, hk, p, q, h => by
    have hwalk : ∀ {rest a : List α}, Real (withDirs C fs) a →
        walk fs (dirOf fs k) a rest = some q → walk fs' (dirOf fs' k) a rest = some q := by
      intro rest
      induction rest with
      | nil => exact fun _ h => h
      | cons n rest ih =>
        intro a ha h
        rcases walk_cons_cases h with ⟨hdir, h⟩ | ⟨t, hlink, h⟩
        · have hreal : Real (withDirs C fs) (a ++ [n]) := ha.snoc (node_withDirs_of_dir hdir)
          have hdir' : node fs' (a ++ [n]) = some .dir := by
            rcases hg (a ++ [n]) with heq | ⟨-, hdir'⟩ | ⟨u, hu, -⟩
            · rw [heq, hdir]
            · exact hdir'
            · have hnone := (hA _ _ hu).1
              rw [dirOf_mono hk (dirOf_real hreal)] at hnone
              cases hnone
          rw [walk_of_dir hdir']
          exact ih hreal h
        · obtain ⟨hnot, hlinkW⟩ := node_withDirs_of_link hC hlink
          rcases hg (a ++ [n]) with heq | ⟨hmem, -⟩ | ⟨u, hu, -⟩
          · rw [walk_of_link (heq.trans hlink)]
            exact dirOf_ge hg (Nat.le_of_succ_le hk) h
          · exact absurd hmem hnot
          · -- the link that was replaced led to a directory
            obtain ⟨q', hq'⟩ := dirOf_append (dirOf_le hC hA Grows.refl (Nat.le_of_succ_le hk) h)
            have hsome : dirOf (withDirs C fs) (k + 1) (a ++ [n]) = some q' := by
              have hstep := walk_real (f := dirOf (withDirs C fs) k) (r := [n]) (q := []) ha
              rw [List.nil_append, walk_of_link hlinkW, List.append_nil] at hstep
              rw [dirOf, hstep, hq']
            have hnone := (hA _ _ hu).1
            rw [dirOf_mono hk hsome] at hnone
            cases hnone
    refine hwalk (fun c hc => ?_) h
    rw [List.prefix_nil.mp hc, node_nil]

end Grows

/-! ## `mkdir -p` and `ln -sf`

A command that fails gives the tree it leaves as the error. -/

/-- `mkdir -p p/rest`, done as far as `p`. -/
def mkdirP (k : ℕ) : FileTree α → List α → List α → Except (FileTree α) (FileTree α)
  | fs, _, [] => .ok fs
  | fs, p, n :: rest =>
    if (dirOf fs k (p ++ [n])).isSome then mkdirP k fs (p ++ [n]) rest
    else
      match dirOf fs k p with
      | some q =>
        if node fs (q ++ [n]) = none then mkdirP k (set fs (q ++ [n]) .dir) (p ++ [n]) rest
        else .error fs
      | none => .error fs

/-- Put a link to `src/name` in the directory `q`. It takes the place of neither a directory nor the
entry that it is to point to. -/
def putLink (k : ℕ) (fs : FileTree α) (src q : List α) (name : α) :
    Except (FileTree α) (FileTree α) :=
  let there := node fs (q ++ [name])
  if there = some .dir ∨ (there ≠ none ∧ dirOf fs k src = some q) then .error fs
  else .ok (set fs (q ++ [name]) (.link (src ++ [name])))

/-- `ln -sf src/name dst/name`. -/
def lnSf (k : ℕ) (fs : FileTree α) (src dst : List α) (name : α) :
    Except (FileTree α) (FileTree α) :=
  match (dirOf fs k (dst ++ [name])).or (dirOf fs k dst) with
  | some q => putLink k fs src q name
  | none => .error fs

/-- `ln -sf src/name dst/`, where `dst` leads to a directory. -/
def lnSfInto (k : ℕ) (fs : FileTree α) (src dst : List α) (name : α) :
    Except (FileTree α) (FileTree α) :=
  match dirOf fs k dst with
  | some q => putLink k fs src q name
  | none => .error fs

/-- Where only directories stand in the way, `mkdir -p` makes the missing ones. -/
theorem mkdirP_real {k : ℕ} : ∀ {rest p : List α} {fs : FileTree α}, Real fs p →
    (∀ c, c <+: p ++ rest → node fs c = none ∨ node fs c = some .dir) →
      ∃ fs', mkdirP (k + 1) fs p rest = .ok fs' ∧ Real fs' (p ++ rest) ∧
        ∀ c, ¬ c <+: p ++ rest → node fs' c = node fs c
  | [], p, fs, hp, _ => ⟨fs, rfl, by rwa [List.append_nil], fun _ _ => rfl⟩
  | n :: rest, p, fs, hp, hfree => by
    have hassoc : p ++ n :: rest = p ++ [n] ++ rest := by simp
    rw [hassoc] at hfree ⊢
    have hwalk : dirOf fs (k + 1) (p ++ [n]) = walk fs (dirOf fs k) p [n] :=
      walk_real (q := []) hp
    rw [mkdirP]
    rcases hfree (p ++ [n]) (List.prefix_append _ _) with hnone | hdir
    · rw [hwalk, walk, hnone, if_neg (by simp), dirOf_real hp]
      dsimp only
      rw [if_pos hnone]
      have hset : node (set fs (p ++ [n]) .dir) (p ++ [n]) = some .dir := node_set_self (by simp)
      have hreal : Real (set fs (p ++ [n]) .dir) (p ++ [n]) := by
        refine Real.snoc (fun c hc => ?_) hset
        by_cases heq : c = p ++ [n]
        · rw [heq, hset]
        · rw [node_set_of_ne heq, hp c hc]
      obtain ⟨fs', hok, hreal', hframe⟩ := mkdirP_real hreal fun c hc => by
        by_cases heq : c = p ++ [n]
        · exact Or.inr (heq ▸ hset)
        · rw [node_set_of_ne heq]
          exact hfree c hc
      refine ⟨fs', hok, hreal', fun c hc => ?_⟩
      rw [hframe c hc, node_set_of_ne]
      rintro rfl
      exact hc (List.prefix_append _ _)
    · rw [hwalk, walk_of_dir hdir, if_pos (by rw [walk]; rfl)]
      exact mkdirP_real (hp.snoc hdir) hfree

/-- Where no directory stands, `ln -sf` puts the link in place. -/
theorem lnSf_real {k : ℕ} {fs : FileTree α} {src dst : List α} {name : α} (hdst : Real fs dst)
    (hname : dirOf fs (k + 1) (dst ++ [name]) = none) (hsrc : dirOf fs (k + 1) src ≠ some dst) :
    lnSf (k + 1) fs src dst name = .ok (set fs (dst ++ [name]) (.link (src ++ [name]))) := by
  have hnode : node fs (dst ++ [name]) ≠ some .dir := by
    intro hdir
    rw [dirOf_real (hdst.snoc hdir)] at hname
    cases hname
  rw [lnSf, hname, dirOf_real hdst, Option.none_or]
  exact if_neg (not_or.mpr ⟨hnode, fun h => hsrc h.2⟩)

/-- The directories `D` were made and the links `L`, and nothing else. -/
def Wrote (D : List α → Prop) (L : List α → List α → Prop) (fs fs' : FileTree α) : Prop :=
  ∀ p, (D p ∧ node fs' p = some .dir) ∨ (∃ t, L p t ∧ node fs' p = some (.link t)) ∨
    (¬ D p ∧ (∀ t, ¬ L p t) ∧ node fs' p = node fs p)

theorem Wrote.refl {fs : FileTree α} : Wrote (fun _ => False) (fun _ _ => False) fs fs :=
  fun _ => Or.inr (Or.inr ⟨id, fun _ => id, rfl⟩)

theorem Wrote.trans {D D' : List α → Prop} {L L' : List α → List α → Prop}
    {fs fs₁ fs₂ : FileTree α} (h : Wrote D L fs fs₁) (h' : Wrote D' L' fs₁ fs₂) :
    Wrote (fun p => D p ∨ D' p) (fun p t => L p t ∨ L' p t) fs fs₂ := by
  intro p
  rcases h' p with ⟨hD', hp⟩ | ⟨t, hL', hp⟩ | ⟨hD', hL', hp⟩
  · exact Or.inl ⟨Or.inr hD', hp⟩
  · exact Or.inr (Or.inl ⟨t, Or.inr hL', hp⟩)
  · rcases h p with ⟨hD, hp₁⟩ | ⟨t, hL, hp₁⟩ | ⟨hD, hL, hp₁⟩
    · exact Or.inl ⟨Or.inl hD, hp.trans hp₁⟩
    · exact Or.inr (Or.inl ⟨t, Or.inl hL, hp.trans hp₁⟩)
    · exact Or.inr (Or.inr ⟨not_or.mpr ⟨hD, hD'⟩, fun t => not_or.mpr ⟨hL t, hL' t⟩, hp.trans hp₁⟩)

theorem Wrote.grows {D : List α → Prop} {L : List α → List α → Prop} {C : List (List α)}
    {A : List α → List α → Prop} {fs fs₁ fs₂ : FileTree α} (h : Wrote D L fs₁ fs₂)
    (hD : ∀ p, D p → p ∈ C) (hL : ∀ p t, L p t → A p t) (hg : Grows C A fs fs₁) :
    Grows C A fs fs₂ := by
  intro p
  rcases h p with ⟨hDp, hp⟩ | ⟨t, hLp, hp⟩ | ⟨-, -, hp⟩
  · exact Or.inr (Or.inl ⟨hD p hDp, hp⟩)
  · exact Or.inr (Or.inr ⟨t, hL p t hLp, hp⟩)
  · rw [hp]
    exact hg p

theorem Wrote.congr {D D' : List α → Prop} {L L' : List α → List α → Prop} {fs fs' : FileTree α}
    (h : Wrote D L fs fs') (hD : ∀ p, D p ↔ D' p) (hL : ∀ p t, L p t ↔ L' p t) :
    Wrote D' L' fs fs' := by
  obtain rfl : D = D' := funext fun p => propext (hD p)
  obtain rfl : L = L' := funext fun p => funext fun t => propext (hL p t)
  exact h

/-- What is there afterwards, where no directory is also a link and no link has two targets. -/
theorem Wrote.node_eq {D : List α → Prop} {L : List α → List α → Prop} {fs fs' : FileTree α}
    (h : Wrote D L fs fs') (hDL : ∀ p t, L p t → ¬ D p)
    (hL : ∀ p t t', L p t → L p t' → t = t') :
    (∀ p, D p → node fs' p = some .dir) ∧ ∀ p t, L p t → node fs' p = some (.link t) := by
  constructor
  · intro p hD
    rcases h p with ⟨-, hp⟩ | ⟨t, ht, -⟩ | ⟨hnot, -⟩
    · exact hp
    · exact absurd hD (hDL p t ht)
    · exact absurd hD hnot
  · intro p t ht
    rcases h p with ⟨hD, -⟩ | ⟨t', ht', hp⟩ | ⟨-, hnot, -⟩
    · exact absurd hD (hDL p t ht)
    · rw [hp, hL p t t' ht ht']
    · exact absurd ht (hnot t)

/-- The effect of a loop, from the effect of its body. -/
theorem foldlM_wrote {β : Type*} {f : FileTree α → β → Except (FileTree α) (FileTree α)} {I : FileTree α → Prop}
    {D : β → List α → Prop} {L : β → List α → List α → Prop} : ∀ {xs : List β},
      (∀ x ∈ xs, ∀ fs, I fs → ∃ fs', f fs x = .ok fs' ∧ Wrote (D x) (L x) fs fs' ∧ I fs') →
        ∀ {fs : FileTree α}, I fs → ∃ fs', xs.foldlM f fs = .ok fs' ∧
          Wrote (fun p => ∃ x ∈ xs, D x p) (fun p t => ∃ x ∈ xs, L x p t) fs fs' ∧ I fs'
  | [], _, fs, hI =>
    ⟨fs, rfl, Wrote.refl.congr (fun _ => by simp) (fun _ _ => by simp), hI⟩
  | x :: xs, hbody, fs, hI => by
    obtain ⟨fs₁, hx, hwrote, hI₁⟩ := hbody x List.mem_cons_self fs hI
    obtain ⟨fs₂, hxs, hwrote', hI₂⟩ :=
      foldlM_wrote (fun y hy => hbody y (List.mem_cons_of_mem _ hy)) hI₁
    refine ⟨fs₂, ?_, (hwrote.trans hwrote').congr (fun _ => ?_) (fun _ _ => ?_), hI₂⟩
    · rw [List.foldlM_cons, hx]
      exact hxs
    · rw [List.exists_mem_cons_iff]
    · rw [List.exists_mem_cons_iff]

theorem wrote_set_link {fs : FileTree α} {p t : List α} (hp : p ≠ []) :
    Wrote (fun _ => False) (fun p' t' => p' = p ∧ t' = t) fs (set fs p (.link t)) := by
  intro p'
  by_cases h : p' = p
  · rw [h]
    exact Or.inr (Or.inl ⟨t, ⟨rfl, rfl⟩, node_set_self hp⟩)
  · exact Or.inr (Or.inr ⟨id, fun t' ht => h ht.1, node_set_of_ne h⟩)

end KernelModules.FileSystem
