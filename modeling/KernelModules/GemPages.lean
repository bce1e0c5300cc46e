import KernelModules.Component
import KernelModules.VirtioGpuQueue

/-!
# Pages of a GEM object

A GEM object with a swap backing gets its pages from `shmem_read_mapping_page` and puts them with
`put_page`. `drm_gem_get_pages` and `drm_gem_put_pages` do so for all pages of the object;
`drm_gem_shmem_get_pages` and `drm_gem_shmem_put_pages` do it for the first user and the last.

The references of the pages balance (`gemPages_balance`) : a `drm_gem_get_pages` that fails puts
what it got, and the object has one reference on each of its pages while `pages_use_count` is
positive, and none else. The count is a 32-bit number. A get at its largest value makes it 0
with the pages still held (`not_refsBalance_wrapped`).
-/

namespace KernelModules

/-! ## Pages -/

/-- What is done to a page : it is read, marked dirty, or put. -/
inductive PageEvent where
  | read (p : Ptr)
  | setDirty (p : Ptr)
  | put (p : Ptr)
deriving DecidableEq, Repr

/-- The reference counts of the pages, and what was done to pages. -/
structure PageState where
  refs : Ptr → ℕ
  trace : List PageEvent

namespace PageState

/-- `shmem_read_mapping_page` returned the page `p`. -/
def readPage (s : PageState) (p : Ptr) : PageState :=
  ⟨Function.update s.refs p (s.refs p + 1), s.trace ++ [.read p]⟩

/-- `put_page` -/
def putPage (s : PageState) (p : Ptr) : PageState :=
  ⟨Function.update s.refs p (s.refs p - 1), s.trace ++ [.put p]⟩

/-- `set_page_dirty` -/
def setPageDirty (s : PageState) (p : Ptr) : PageState :=
  { s with trace := s.trace ++ [.setDirty p] }

end PageState

/-- The results of `shmem_read_mapping_page` on the pages of a mapping, in one call of
`drm_gem_get_pages` : an error, or a page. -/
structure ShmemReads where
  read : ℕ → Except Int Ptr
  ne_null : ∀ {i : ℕ} {p : Ptr}, read i = .ok p → p ≠ NULL
  inj : ∀ {i j : ℕ} {p : Ptr}, read i = .ok p → read j = .ok p → i = j

/-- `struct drm_gem_object` -/
structure DrmGemObject where
  size : ℕ
  /-- `filp != NULL` -/
  filp : Bool
deriving DecidableEq, Repr

/-- `npages = obj->size >> PAGE_SHIFT` -/
def DrmGemObject.npages (obj : DrmGemObject) : ℕ :=
  (obj.size >>> 12) % 2 ^ 32

/-- `while (i-- > 0) put_page(pages[i]);` -/
def unwindPages (pages : List Ptr) : ℕ → PageState → PageState
  | 0, s => s
  | i + 1, s => unwindPages pages i (s.putPage (pages.getD i NULL))

/-- The loop of `drm_gem_get_pages` from page `i` on, with the pages read so far. -/
def readPages (R : ShmemReads) : ℕ → ℕ → List Ptr → PageState → Except Int (List Ptr) × PageState
  | 0, _, pages, s => (.ok pages, s)
  | left + 1, i, pages, s =>
    match R.read i with
    | .error e => (.error e, unwindPages pages i s)
    | .ok p => readPages R left (i + 1) (pages ++ [p]) (s.readPage p)

/-- `drm_gem_get_pages`. `kvmallocOk` is whether there is memory for the array. -/
def drmGemGetPages (R : ShmemReads) (kvmallocOk : Bool) (obj : DrmGemObject) (s : PageState) :
    Except Int (List Ptr) × PageState :=
  if obj.filp = false then (.error (-EINVAL), s)
  else if kvmallocOk = false then (.error (-ENOMEM), s)
  else readPages R obj.npages 0 [] s

/-- The body of the loop of `drm_gem_put_pages`. -/
def putOnePage (dirty : Bool) (s : PageState) (p : Ptr) : PageState :=
  if p = NULL then s else (if dirty then s.setPageDirty p else s).putPage p

/-- `drm_gem_put_pages` -/
def drmGemPutPages (obj : DrmGemObject) (pages : List Ptr) (dirty : Bool) (s : PageState) :
    PageState :=
  (List.range obj.npages).foldl (fun s i => putOnePage dirty s (pages.getD i NULL)) s

/-! ## The use count -/

/-- What the calls of `drm_gem_get_pages` find, call by call. -/
structure ShmemBacking where
  reads : ℕ → ShmemReads
  kvmallocOk : ℕ → Bool

/-- `struct drm_gem_shmem_object`, with the calls of `drm_gem_get_pages` so far. -/
structure DrmGemShmemObject where
  pagesUseCount : UInt32 := 0
  pages : Option (List Ptr) := none
  calls : ℕ := 0
  mem : PageState

section Source

variable (B : ShmemBacking) (obj : DrmGemObject) (dirty : Bool)

/-- `drm_gem_shmem_get_pages` -/
def drmGemShmemGetPages (s : DrmGemShmemObject) : Int × DrmGemShmemObject :=
  if 0 < s.pagesUseCount then (0, { s with pagesUseCount := s.pagesUseCount + 1 })
  else
    match drmGemGetPages (B.reads s.calls) (B.kvmallocOk s.calls) obj s.mem with
    | (.error e, mem) => (e, { s with
        pagesUseCount := 0
        calls := s.calls + 1
        mem := mem })
    | (.ok pages, mem) => (0, {
        pagesUseCount := s.pagesUseCount + 1
        pages := some pages
        calls := s.calls + 1
        mem := mem })

/-- `dirty` is `pages_mark_dirty_on_put`. -/
def drmGemShmemPutPages (s : DrmGemShmemObject) : DrmGemShmemObject :=
  if s.pagesUseCount = 0 then s
  else if 0 < s.pagesUseCount - 1 then { s with pagesUseCount := s.pagesUseCount - 1 }
  else { s with
    pagesUseCount := s.pagesUseCount - 1
    pages := none
    mem := drmGemPutPages obj (s.pages.getD []) dirty s.mem }

/-- A call of one of the two. -/
inductive ShmemOp where
  | getPages
  | putPages
deriving DecidableEq, Repr

/-- The object after a call. -/
def ShmemOp.step (s : DrmGemShmemObject) : ShmemOp → DrmGemShmemObject
  | .getPages => (drmGemShmemGetPages B obj s).2
  | .putPages => drmGemShmemPutPages obj dirty s

/-- A run from an object without users. -/
def shmemRun (mem : PageState) (ops : List ShmemOp) : DrmGemShmemObject :=
  ops.foldl (ShmemOp.step B obj dirty) { mem := mem }

@[simp] theorem shmemRun_concat (mem : PageState) (ops : List ShmemOp) (op : ShmemOp) :
    shmemRun B obj dirty mem (ops ++ [op]) =
      op.step B obj dirty (shmemRun B obj dirty mem ops) := by
  simp [shmemRun]

end Source

/-! ## References -/

theorem refs_foldl_readPage (ps : List Ptr) (s : PageState) (p : Ptr) :
    (ps.foldl PageState.readPage s).refs p = s.refs p + ps.count p := by
  induction ps generalizing s with
  | nil => rfl
  | cons q ps ih =>
    rw [List.foldl_cons, ih, PageState.readPage, List.count_cons]
    by_cases h : p = q
    · subst h
      simp
      omega
    · simp [Function.update_of_ne h, Ne.symm h]

theorem trace_foldl_readPage (ps : List Ptr) (s : PageState) :
    (ps.foldl PageState.readPage s).trace = s.trace ++ ps.map .read := by
  induction ps generalizing s with
  | nil => simp
  | cons q ps ih => simp [ih, PageState.readPage]

/-- What `drm_gem_put_pages` does to a page. -/
def putEvents (dirty : Bool) (p : Ptr) : List PageEvent :=
  if dirty then [.setDirty p, .put p] else [.put p]

theorem refs_putOnePage (dirty : Bool) (s : PageState) {p : Ptr} (hp : p ≠ NULL) :
    (putOnePage dirty s p).refs = Function.update s.refs p (s.refs p - 1) := by
  rw [putOnePage, if_neg hp]
  cases dirty <;> rfl

theorem trace_putOnePage (dirty : Bool) (s : PageState) {p : Ptr} (hp : p ≠ NULL) :
    (putOnePage dirty s p).trace = s.trace ++ putEvents dirty p := by
  rw [putOnePage, if_neg hp]
  cases dirty <;> simp [putEvents, PageState.putPage, PageState.setPageDirty]

theorem refs_foldl_putOnePage (dirty : Bool) {ps : List Ptr} (hps : ∀ p ∈ ps, p ≠ NULL)
    (s : PageState) (p : Ptr) :
    (ps.foldl (putOnePage dirty) s).refs p = s.refs p - ps.count p := by
  induction ps generalizing s with
  | nil => rfl
  | cons q ps ih =>
    obtain ⟨hq, hps⟩ := List.forall_mem_cons.1 hps
    rw [List.foldl_cons, ih hps, refs_putOnePage dirty s hq, List.count_cons]
    by_cases h : p = q
    · subst h
      simp
      omega
    · simp [Function.update_of_ne h, Ne.symm h]

theorem trace_foldl_putOnePage (dirty : Bool) {ps : List Ptr} (hps : ∀ p ∈ ps, p ≠ NULL)
    (s : PageState) :
    (ps.foldl (putOnePage dirty) s).trace = s.trace ++ ps.flatMap (putEvents dirty) := by
  induction ps generalizing s with
  | nil => simp
  | cons q ps ih =>
    obtain ⟨hq, hps⟩ := List.forall_mem_cons.1 hps
    simp [ih hps, trace_putOnePage dirty s hq]

/-! ## The loops -/

/-- The unwinding puts the pages from the last one back to the first. -/
theorem unwindPages_eq {pages : List Ptr} (hpages : ∀ p ∈ pages, p ≠ NULL) :
    ∀ {k : ℕ} {s : PageState}, k ≤ pages.length →
      unwindPages pages k s = (pages.take k).reverse.foldl (putOnePage false) s
  | 0, s, _ => rfl
  | k + 1, s, hk => by
    have hpage : pages.getD k NULL = pages[k] := by
      rw [List.getD_eq_getElem?_getD, List.getElem?_eq_getElem hk, Option.getD_some]
    have hput : s.putPage pages[k] = putOnePage false s pages[k] :=
      (if_neg (hpages _ (List.getElem_mem hk))).symm
    rw [unwindPages, hpage, unwindPages_eq hpages (Nat.le_of_succ_le hk),
      List.take_succ_eq_append_getElem hk, List.reverse_append, List.reverse_singleton,
      List.singleton_append, List.foldl_cons, hput]

/-- The pages are the first ones of the mapping, in order. -/
def PagesOf (R : ShmemReads) (i : ℕ) (ps : List Ptr) : Prop :=
  ∀ k p, ps[k]? = some p → R.read (i + k) = .ok p

namespace PagesOf

variable {R : ShmemReads} {i : ℕ} {ps : List Ptr}

theorem cons {p : Ptr} (hp : R.read i = .ok p) (h : PagesOf R (i + 1) ps) : PagesOf R i (p :: ps)
  | 0, q, hq => by
    obtain rfl := Option.some.inj hq
    exact hp
  | k + 1, q, hq => by
    have := h k q hq
    rwa [Nat.add_assoc, Nat.add_comm 1] at this

theorem ne_null (h : PagesOf R i ps) : ∀ p ∈ ps, p ≠ NULL := by
  intro p hp
  obtain ⟨k, hk⟩ := List.getElem?_of_mem hp
  exact R.ne_null (h k p hk)

theorem read_ne_error {k : ℕ} {e : Int} (h : PagesOf R 0 ps) (hk : k < ps.length) :
    R.read k ≠ .error e := by
  have hread := h k _ (List.getElem?_eq_getElem hk)
  rw [Nat.zero_add] at hread
  simp [hread]

theorem nodup (h : PagesOf R i ps) : ps.Nodup := by
  rw [List.nodup_iff_getElem?_ne_getElem?]
  intro k k' hlt hk' heq
  obtain ⟨p, hp⟩ : ∃ p, ps[k']? = some p := ⟨_, List.getElem?_eq_getElem hk'⟩
  have := R.inj (h k p (heq.trans hp)) (h k' p hp)
  omega

end PagesOf

/-- The loop reads pages until all are read, or one fails and those before it are put. -/
theorem readPages_cases (R : ShmemReads) : ∀ (left i : ℕ) (pages : List Ptr) (s : PageState),
    ∃ ps, PagesOf R i ps ∧
      ((ps.length = left ∧
        readPages R left i pages s = (.ok (pages ++ ps), ps.foldl PageState.readPage s)) ∨
      ∃ e, ps.length < left ∧ R.read (i + ps.length) = .error e ∧
        readPages R left i pages s = (.error e,
          unwindPages (pages ++ ps) (i + ps.length) (ps.foldl PageState.readPage s)))
  | 0, i, pages, s => ⟨[], by simp [PagesOf], Or.inl ⟨rfl, by simp [readPages]⟩⟩
  | left + 1, i, pages, s => by
    cases hread : R.read i with
    | error e =>
      exact ⟨[], by simp [PagesOf], Or.inr ⟨e, by simp, hread, by simp [readPages, hread]⟩⟩
    | ok p =>
      obtain ⟨ps, hps, h⟩ := readPages_cases R left (i + 1) (pages ++ [p]) (s.readPage p)
      refine ⟨p :: ps, hps.cons hread, ?_⟩
      rcases h with ⟨hlen, h⟩ | ⟨e, hlen, he, h⟩
      · exact Or.inl ⟨by simp [hlen], by simp [readPages, hread, h]⟩
      · have hi : i + (p :: ps).length = i + 1 + ps.length := by
          rw [List.length_cons]
          omega
        refine Or.inr ⟨e, by simpa using hlen, hi ▸ he, ?_⟩
        rw [hi]
        simp [readPages, hread, h]

/-! ## One call -/

/-- `drm_gem_get_pages` failed at page `k` with the error `e`. Every page it got is put, once, and
the reference counts are as before. -/
structure GetFailed (R : ShmemReads) (s : PageState) (k : ℕ) (e : Int)
    (r : Except Int (List Ptr) × PageState) : Prop where
  ret : r.1 = .error e
  refs : r.2.refs = s.refs
  puts : ∃ ps, PagesOf R 0 ps ∧ ps.length = k ∧ ps.Nodup ∧
    r.2.trace = s.trace ++ (ps.map .read ++ ps.reverse.map .put)

/-- `drm_gem_get_pages` got the `n` pages `ps`, with a reference on each. -/
structure GotPages (R : ShmemReads) (s : PageState) (n : ℕ) (ps : List Ptr)
    (r : Except Int (List Ptr) × PageState) : Prop where
  ret : r.1 = .ok ps
  pagesOf : PagesOf R 0 ps
  length : ps.length = n
  refs : ∀ p, r.2.refs p = s.refs p + ps.count p

theorem drmGemGetPages_cases (R : ShmemReads) (kvmallocOk : Bool) (obj : DrmGemObject)
    (s : PageState) :
    ((obj.filp = false ∨ kvmallocOk = false) ∧
      ∃ e, drmGemGetPages R kvmallocOk obj s = (.error e, s)) ∨
    (∃ ps, GotPages R s obj.npages ps (drmGemGetPages R kvmallocOk obj s)) ∨
    ∃ k < obj.npages, ∃ e, R.read k = .error e ∧
      GetFailed R s k e (drmGemGetPages R kvmallocOk obj s) := by
  unfold drmGemGetPages
  split
  · next hfilp => exact Or.inl ⟨Or.inl hfilp, _, rfl⟩
  split
  · next hmalloc => exact Or.inl ⟨Or.inr hmalloc, _, rfl⟩
  refine Or.inr ?_
  obtain ⟨ps, hps, ⟨hlen, h⟩ | ⟨e, hlt, he, h⟩⟩ := readPages_cases R obj.npages 0 [] s
  · refine Or.inl ⟨ps, ?_⟩
    rw [h]
    exact ⟨rfl, hps, hlen, refs_foldl_readPage ps s⟩
  · refine Or.inr ⟨ps.length, hlt, e, by rwa [Nat.zero_add] at he, ?_⟩
    have hrev : ∀ p ∈ ps.reverse, p ≠ NULL := fun p hp => hps.ne_null p (List.mem_reverse.1 hp)
    rw [h, List.nil_append, Nat.zero_add, unwindPages_eq hps.ne_null le_rfl, List.take_length]
    refine ⟨rfl, funext fun p => ?_, ps, hps, rfl, hps.nodup, ?_⟩
    · rw [refs_foldl_putOnePage false hrev, refs_foldl_readPage, List.count_reverse,
        Nat.add_sub_cancel]
    · rw [trace_foldl_putOnePage false hrev, trace_foldl_readPage, List.append_assoc]
      exact congrArg _ (congrArg _ List.map_eq_flatMap.symm)

theorem refs_of_drmGemGetPages_error {R : ShmemReads} {kvmallocOk : Bool} {obj : DrmGemObject}
    {s s' : PageState} {e : Int} (h : drmGemGetPages R kvmallocOk obj s = (.error e, s')) :
    s'.refs = s.refs := by
  have hcases := drmGemGetPages_cases R kvmallocOk obj s
  rw [h] at hcases
  rcases hcases with ⟨-, e', he⟩ | ⟨ps, hgot⟩ | ⟨k, -, e', -, hfailed⟩
  · rw [(Prod.mk.inj he).2]
  · exact absurd hgot.ret (by simp)
  · exact hfailed.refs

theorem gotPages_of_drmGemGetPages_ok {R : ShmemReads} {kvmallocOk : Bool} {obj : DrmGemObject}
    {s s' : PageState} {ps : List Ptr} (h : drmGemGetPages R kvmallocOk obj s = (.ok ps, s')) :
    GotPages R s obj.npages ps (.ok ps, s') := by
  have hcases := drmGemGetPages_cases R kvmallocOk obj s
  rw [h] at hcases
  rcases hcases with ⟨-, e', he⟩ | ⟨ps', hgot⟩ | ⟨k, -, e', -, hfailed⟩
  · exact absurd (Prod.mk.inj he).1 (by simp)
  · obtain rfl := Except.ok.inj hgot.ret
    exact hgot
  · exact absurd hfailed.ret (by simp)

theorem drmGemPutPages_eq {obj : DrmGemObject} {pages : List Ptr} (hlen : pages.length = obj.npages)
    (dirty : Bool) (s : PageState) :
    drmGemPutPages obj pages dirty s = pages.foldl (putOnePage dirty) s := by
  have hpages : (List.range pages.length).map (pages.getD · NULL) = pages :=
    List.ext_getElem (by simp) fun i hi hi' => by simp [hi']
  rw [drmGemPutPages, ← hlen]
  conv_rhs => rw [← hpages, List.foldl_map]

/-- Putting the pages drops the references that getting them took. -/
theorem GotPages.refs_put {R : ShmemReads} {s : PageState} {obj : DrmGemObject} {ps : List Ptr}
    {r : Except Int (List Ptr) × PageState} (h : GotPages R s obj.npages ps r) (dirty : Bool) :
    (drmGemPutPages obj ps dirty r.2).refs = s.refs := by
  funext p
  rw [drmGemPutPages_eq h.length, refs_foldl_putOnePage dirty h.pagesOf.ne_null, h.refs,
    Nat.add_sub_cancel]

theorem GotPages.trace_put {R : ShmemReads} {s : PageState} {obj : DrmGemObject} {ps : List Ptr}
    {r : Except Int (List Ptr) × PageState} (h : GotPages R s obj.npages ps r) (dirty : Bool) :
    (drmGemPutPages obj ps dirty r.2).trace = r.2.trace ++ ps.flatMap (putEvents dirty) := by
  rw [drmGemPutPages_eq h.length, trace_foldl_putOnePage dirty h.pagesOf.ne_null]

/-! ## Runs -/

section Runs

variable (B : ShmemBacking) (obj : DrmGemObject) (dirty : Bool) (mem : PageState)

/-- While the object has users it holds its pages, with one reference on each. Else it holds
none. -/
structure RefsBalance (s : DrmGemShmemObject) : Prop where
  used : 0 < s.pagesUseCount → ∃ call ps, s.pages = some ps ∧ PagesOf (B.reads call) 0 ps ∧
    ps.length = obj.npages ∧ ∀ p, s.mem.refs p = mem.refs p + if p ∈ ps then 1 else 0
  unused : s.pagesUseCount = 0 → s.pages = none ∧ s.mem.refs = mem.refs

/-- No get is made while the use count is at its largest value. -/
def CountsBelowMax (ops : List ShmemOp) : Prop :=
  ∀ ops', ops' ++ [.getPages] <+: ops → (shmemRun B obj dirty mem ops').pagesUseCount ≠ 0xffffffff

variable {B obj dirty mem}

theorem RefsBalance.getPages {s : DrmGemShmemObject} (h : RefsBalance B obj mem s)
    (hmax : s.pagesUseCount ≠ 0xffffffff) :
    RefsBalance B obj mem (drmGemShmemGetPages B obj s).2 := by
  unfold drmGemShmemGetPages
  split
  · next hpos =>
    have hne : s.pagesUseCount + 1 ≠ 0 := by
      grind
    exact ⟨fun _ => h.used hpos, fun h0 => absurd h0 hne⟩
  · next hpos =>
    have h0 : s.pagesUseCount = 0 := by
      grind
    obtain ⟨hpages, hrefs⟩ := h.unused h0
    rcases hget : drmGemGetPages (B.reads s.calls) (B.kvmallocOk s.calls) obj s.mem with
      ⟨e | ps, mem'⟩
    · refine ⟨fun hlt => absurd hlt (lt_irrefl 0), fun _ => ⟨hpages, ?_⟩⟩
      exact (refs_of_drmGemGetPages_error hget).trans hrefs
    · have hgot := gotPages_of_drmGemGetPages_ok hget
      refine ⟨fun _ => ⟨s.calls, ps, rfl, hgot.pagesOf, hgot.length, fun p => ?_⟩, fun h1 => ?_⟩
      · rw [hgot.refs, hrefs, hgot.pagesOf.nodup.count]
      · have h1 : s.pagesUseCount + 1 = 0 := h1
        rw [h0] at h1
        exact absurd h1 (by decide)

theorem RefsBalance.putPages {s : DrmGemShmemObject} (h : RefsBalance B obj mem s) (dirty : Bool) :
    RefsBalance B obj mem (drmGemShmemPutPages obj dirty s) := by
  unfold drmGemShmemPutPages
  split
  · exact h
  next hne =>
  have hpos : 0 < s.pagesUseCount := by
    grind
  obtain ⟨call, ps, hpages, hps, hlen, hrefs⟩ := h.used hpos
  split
  · next hlt => exact ⟨fun _ => h.used hpos, fun h0 => absurd h0 (by grind)⟩
  · next hlast =>
    refine ⟨fun hlt => absurd hlt hlast, fun _ => ⟨rfl, funext fun p => ?_⟩⟩
    dsimp only
    rw [hpages, Option.getD_some, drmGemPutPages_eq hlen, refs_foldl_putOnePage dirty hps.ne_null,
      hrefs, hps.nodup.count, Nat.add_sub_cancel]

/-- In a run that counts below the largest value, the references balance. -/
theorem refsBalance_shmemRun (ops : List ShmemOp) (h : CountsBelowMax B obj dirty mem ops) :
    RefsBalance B obj mem (shmemRun B obj dirty mem ops) := by
  induction ops using List.reverseRecOn with
  | nil => exact ⟨fun hlt => absurd hlt (lt_irrefl 0), fun _ => ⟨rfl, rfl⟩⟩
  | append_singleton ops op ih =>
    have hbal := ih fun ops' hpre => h ops' (hpre.trans (List.prefix_append _ _))
    rw [shmemRun_concat]
    cases op with
    | getPages => exact hbal.getPages (h ops (List.prefix_refl _))
    | putPages => exact hbal.putPages dirty

theorem toNat_pagesUseCount_step_le (s : DrmGemShmemObject) (op : ShmemOp) :
    (op.step B obj dirty s).pagesUseCount.toNat ≤ s.pagesUseCount.toNat + 1 := by
  have hadd : (s.pagesUseCount + 1).toNat ≤ s.pagesUseCount.toNat + 1 := by
    rw [UInt32.toNat_add]
    exact Nat.mod_le _ _
  cases op with
  | getPages =>
    rw [ShmemOp.step, drmGemShmemGetPages]
    split
    · exact hadd
    · rcases drmGemGetPages (B.reads s.calls) (B.kvmallocOk s.calls) obj s.mem with ⟨e | ps, mem'⟩
      · exact Nat.zero_le _
      · exact hadd
  | putPages =>
    rw [ShmemOp.step, drmGemShmemPutPages]
    split
    · exact Nat.le_succ _
    next hne =>
    have hpos : 1 ≤ s.pagesUseCount := by
      grind
    have hsub : (s.pagesUseCount - 1).toNat ≤ s.pagesUseCount.toNat + 1 := by
      rw [UInt32.toNat_sub_of_le _ _ hpos]
      omega
    split
    · exact hsub
    · exact hsub

/-- A run of fewer than `2 ^ 32` calls counts below the largest value. -/
theorem countsBelowMax_of_length {ops : List ShmemOp} (h : ops.length < 2 ^ 32) :
    CountsBelowMax B obj dirty mem ops := by
  have hle : ∀ ops : List ShmemOp,
      (shmemRun B obj dirty mem ops).pagesUseCount.toNat ≤ ops.length := by
    intro ops
    induction ops using List.reverseRecOn with
    | nil => exact Nat.zero_le _
    | append_singleton ops op ih =>
      rw [shmemRun_concat, List.length_append, List.length_singleton]
      exact (toNat_pagesUseCount_step_le _ op).trans (Nat.succ_le_succ ih)
  intro ops' hpre heq
  have hlen := hpre.length_le
  have := hle ops'
  rw [List.length_append, List.length_singleton] at hlen
  rw [heq, show (0xffffffff : UInt32).toNat = 2 ^ 32 - 1 from rfl] at this
  omega

end Runs

/-! ## Balance -/

theorem npages_eq {obj : DrmGemObject} (hsize : obj.size < 2 ^ 44) :
    obj.npages = obj.size / PAGE_SIZE := by
  rw [DrmGemObject.npages, Nat.shiftRight_eq_div_pow]
  exact Nat.mod_eq_of_lt (by omega)

/-- The references of pages balance. `drm_gem_get_pages` returns the error of the first page that
fails and puts the pages before it. If none fails it returns all pages in order, and
`drm_gem_put_pages` drops the references again, each page marked dirty before. In every run that
counts below the largest value, the object has one reference on each page while it has users. -/
theorem gemPages_balance (obj : DrmGemObject) (hsize : obj.size < 2 ^ 44) :
    (obj.filp = true → ∀ (R : ShmemReads) (s : PageState),
      (∀ k < obj.size / PAGE_SIZE, ∀ e, (∀ j < k, ∃ p, R.read j = .ok p) → R.read k = .error e →
        GetFailed R s k e (drmGemGetPages R true obj s)) ∧
      ((∀ k < obj.size / PAGE_SIZE, ∃ p, R.read k = .ok p) →
        ∃ ps, GotPages R s (obj.size / PAGE_SIZE) ps (drmGemGetPages R true obj s) ∧
        ∀ dirty,
          (drmGemPutPages obj ps dirty (drmGemGetPages R true obj s).2).refs = s.refs ∧
          (drmGemPutPages obj ps dirty (drmGemGetPages R true obj s).2).trace =
            (drmGemGetPages R true obj s).2.trace ++ ps.flatMap (putEvents dirty))) ∧
    ∀ (B : ShmemBacking) (dirty : Bool) (mem : PageState) (ops : List ShmemOp),
      CountsBelowMax B obj dirty mem ops →
        RefsBalance B obj mem (shmemRun B obj dirty mem ops) := by
  refine ⟨fun hfilp R s => ?_, fun B dirty mem => refsBalance_shmemRun⟩
  rw [← npages_eq hsize]
  have hcases := drmGemGetPages_cases R true obj s
  rw [hfilp] at hcases
  replace hcases := hcases.resolve_left fun h => by simp at h
  refine ⟨fun k hk e hok he => ?_, fun hok => ?_⟩
  · rcases hcases with ⟨ps, hgot⟩ | ⟨k', hk', e', he', hfailed⟩
    · exact absurd he (hgot.pagesOf.read_ne_error (hgot.length ▸ hk))
    · -- the page it failed at is the first one that fails
      obtain ⟨ps, hps, hlen, -⟩ := hfailed.puts
      have hle : k' ≤ k := Nat.le_of_not_lt fun hlt => hps.read_ne_error (hlen ▸ hlt) he
      have hge : k ≤ k' := Nat.le_of_not_lt fun hlt => by
        obtain ⟨p, hp⟩ := hok k' hlt
        exact absurd (hp.symm.trans he') (by simp)
      obtain rfl := Nat.le_antisymm hge hle
      obtain rfl := Except.error.inj (he.symm.trans he')
      exact hfailed
  · rcases hcases with ⟨ps, hgot⟩ | ⟨k, hk, e, he, -⟩
    · exact ⟨ps, hgot, fun dirty => ⟨hgot.refs_put dirty, hgot.trace_put dirty⟩⟩
    · obtain ⟨p, hp⟩ := hok k hk
      exact absurd (hp.symm.trans he) (by simp)

/-- A mapping whose page `i` is at `0x1000 + i`. -/
def allPages : ShmemReads where
  read i := .ok (0x1000 + i)
  ne_null h := by
    obtain rfl := Except.ok.inj h
    exact Nat.ne_of_gt (Nat.lt_of_lt_of_le (by decide) (Nat.le_add_right _ _))
  inj h h' := Nat.add_left_cancel ((Except.ok.inj h).trans (Except.ok.inj h').symm)

/-- A backing without failures. -/
def allBacking : ShmemBacking where
  reads _ := allPages
  kvmallocOk _ := true

/-- Two users of a two-page object, one after the other gone. -/
theorem gemPages_balance_twoUsers : RefsBalance allBacking ⟨8192, true⟩ ⟨fun _ => 0, []⟩
    (shmemRun allBacking ⟨8192, true⟩ true ⟨fun _ => 0, []⟩
      [.getPages, .getPages, .putPages, .putPages]) :=
  (gemPages_balance ⟨8192, true⟩ (by decide)).2 allBacking true ⟨fun _ => 0, []⟩ _
    (countsBelowMax_of_length (by decide))

/-- Without a put, the count is the number of gets as far as it fits in 32 bits. -/
theorem shmemRun_replicate_getPages (n : ℕ) (hn : n < 2 ^ 32) :
    (shmemRun allBacking ⟨4096, true⟩ true ⟨fun _ => 0, []⟩
      (List.replicate (n + 1) .getPages)).pagesUseCount = .ofNat (n + 1) ∧
    (shmemRun allBacking ⟨4096, true⟩ true ⟨fun _ => 0, []⟩
      (List.replicate (n + 1) .getPages)).pages = some [0x1000] := by
  induction n with
  | zero => exact ⟨by decide, by decide⟩
  | succ n ih =>
    obtain ⟨hcount, hpages⟩ := ih (by omega)
    have hpos : 0 < UInt32.ofNat (n + 1) := by
      rw [UInt32.lt_iff_toNat_lt, UInt32.toNat_ofNat_of_lt' hn]
      exact Nat.succ_pos n
    rw [List.replicate_succ', shmemRun_concat, ShmemOp.step, drmGemShmemGetPages, hcount,
      if_pos hpos]
    exact ⟨(UInt32.ofNat_add _ _).symm, hpages⟩

/-- After 2³² gets the count is 0 and the object holds its page. -/
theorem not_refsBalance_wrapped : ¬RefsBalance allBacking ⟨4096, true⟩ ⟨fun _ => 0, []⟩
    (shmemRun allBacking ⟨4096, true⟩ true ⟨fun _ => 0, []⟩
      (List.replicate (2 ^ 32) .getPages)) := by
  intro h
  obtain ⟨hcount, hpages⟩ := shmemRun_replicate_getPages (2 ^ 32 - 1) (by decide)
  rw [show 2 ^ 32 - 1 + 1 = 2 ^ 32 from rfl] at hcount hpages
  have hnone := (h.unused hcount).1
  rw [hpages] at hnone
  exact absurd hnone (by decide)

end KernelModules
