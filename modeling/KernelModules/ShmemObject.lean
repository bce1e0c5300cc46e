import KernelModules.GemPages
import KernelModules.Interleaving

/-!
# A shmem GEM object and its users

The pages of a shmem object are used by those that pinned it, by the areas of memory it is mapped
to, by its one mapping into the kernel, which has users of its own, and by its scatter/gather table.
The two use counts tell when the pages and the mapping go.

The users act in any order, each step under the lock of the object. What is acquired may fail, what
was acquired is given back once.
-/

namespace KernelModules

open Interleaving

/-! ## The code -/

/-- `VM_FAULT_SIGBUS` or the page that is inserted. -/
inductive FaultResult where
  | sigbus
  | page (p : Ptr)
deriving DecidableEq, Repr

/-- `struct drm_gem_shmem_object`; `base` has the pages and their count. Then, what the object has
of others : the addresses that `vmap` gave, the scatter/gather tables, and those that are mapped for
devices; and whether a `drm_WARN_ON` was hit. -/
structure ShmemObject where
  base : DrmGemShmemObject
  vmapUseCount : UInt32 := 0
  vaddr : Ptr := NULL
  sgt : Ptr := NULL
  madv : ℤ := 0
  mapped : List Ptr := []
  tables : List Ptr := []
  dma : List Ptr := []
  warned : Bool := false

section Source

variable (B : ShmemBacking) (obj : DrmGemObject) (dirty : Bool)

/-- `drm_gem_shmem_get_pages` -/
def ShmemObject.getPages (s : ShmemObject) : Int × ShmemObject :=
  let (ret, base) := drmGemShmemGetPages B obj s.base
  (ret, { s with base })

/-- `drm_gem_shmem_put_pages` -/
def ShmemObject.putPages (s : ShmemObject) : ShmemObject :=
  { s with
    base := drmGemShmemPutPages obj dirty s.base
    warned := s.warned || s.base.pagesUseCount = 0 }

/-- `drm_gem_shmem_vmap`. `addr` is what `vmap` returns. -/
def drmGemShmemVmap (addr : Ptr) (s : ShmemObject) : Except Int Ptr × ShmemObject :=
  if 0 < s.vmapUseCount then (.ok s.vaddr, { s with vmapUseCount := s.vmapUseCount + 1 })
  else
    let s := { s with vmapUseCount := s.vmapUseCount + 1 }
    let (ret, s) := s.getPages B obj
    if ret ≠ 0 then (.error ret, { s with vmapUseCount := 0 })
    else
      let s := { s with vaddr := addr }
      if addr = NULL then (.error (-ENOMEM), { s.putPages obj dirty with vmapUseCount := 0 })
      else (.ok addr, { s with mapped := s.mapped ++ [addr] })

/-- `drm_gem_shmem_vunmap` -/
def drmGemShmemVunmap (s : ShmemObject) : ShmemObject :=
  if s.vmapUseCount = 0 then { s with warned := true }
  else
    let s := { s with vmapUseCount := s.vmapUseCount - 1 }
    if 0 < s.vmapUseCount then s
    else
      let s := { s with mapped := s.mapped.erase s.vaddr }
      { s.putPages obj dirty with vaddr := NULL }

/-- `drm_gem_shmem_get_pages_sgt_locked`. `sgt` is what `drm_gem_shmem_get_sg_table` returns, `ret`
what `dma_map_sgtable` does. -/
def drmGemShmemGetPagesSgtLocked (sgt : Except Int Ptr) (ret : Int) (s : ShmemObject) :
    Except Int Ptr × ShmemObject :=
  if s.sgt ≠ NULL then (.ok s.sgt, s)
  else
    match s.getPages B obj with
    | (got, s) =>
      if got ≠ 0 then (.error got, s)
      else
        match sgt with
        | .error e => (.error e, s.putPages obj dirty)
        | .ok sgt =>
          let s := { s with tables := s.tables ++ [sgt] }
          if ret ≠ 0 then
            (.error ret, { s with tables := s.tables.erase sgt }.putPages obj dirty)
          else (.ok sgt, { s with sgt, dma := s.dma ++ [sgt] })

/-- `drm_gem_shmem_mmap`. `cow` is `is_cow_mapping`. -/
def drmGemShmemMmap (cow : Bool) (s : ShmemObject) : Int × ShmemObject :=
  if cow then (-EINVAL, s) else s.getPages B obj

/-- `drm_gem_shmem_vm_open` -/
def drmGemShmemVmOpen (s : ShmemObject) : ShmemObject :=
  if s.base.pagesUseCount = 0 then { s with warned := true }
  else { s with base := { s.base with pagesUseCount := s.base.pagesUseCount + 1 } }

/-- `drm_gem_shmem_fault` -/
def drmGemShmemFault (pageOffset : ℕ) (s : ShmemObject) : FaultResult × ShmemObject :=
  if obj.size >>> 12 ≤ pageOffset then (.sigbus, s)
  else
    match s.base.pages with
    | none => (.sigbus, { s with warned := true })
    | some pages =>
      if s.madv < 0 then (.sigbus, s) else (.page (pages.getD pageOffset NULL), s)

/-- `drm_gem_shmem_madvise` -/
def drmGemShmemMadvise (madv : ℤ) (s : ShmemObject) : Bool × ShmemObject :=
  let s := if 0 ≤ s.madv then { s with madv } else s
  (0 ≤ s.madv, s)

/-- `drm_gem_shmem_is_purgeable`, of an object that is neither imported nor exported. -/
def drmGemShmemIsPurgeable (s : ShmemObject) : Bool :=
  0 < s.madv ∧ s.vmapUseCount = 0 ∧ s.sgt ≠ NULL

/-- `dma_unmap_sgtable`, `sg_free_table` and `kfree` -/
def ShmemObject.freeSgt (s : ShmemObject) : ShmemObject :=
  { s with dma := s.dma.erase s.sgt, tables := s.tables.erase s.sgt }

/-- `drm_gem_shmem_purge` -/
def drmGemShmemPurge (s : ShmemObject) : ShmemObject :=
  let s := { s with warned := s.warned || !drmGemShmemIsPurgeable s }
  let s := { s.freeSgt with sgt := NULL }
  { s.putPages obj dirty with madv := -1 }

/-- `drm_gem_shmem_free` -/
def drmGemShmemFree (s : ShmemObject) : ShmemObject :=
  let s := { s with warned := s.warned || s.vmapUseCount ≠ 0 }
  let s := if s.sgt ≠ NULL then s.freeSgt else s
  let s := if s.base.pages.isSome then s.putPages obj dirty else s
  { s with warned := s.warned || s.base.pagesUseCount ≠ 0 }

end Source

/-! ## The users -/

/-- The object, the number of pins, the addresses of the mapping that users have, the areas it is
mapped to, and whether it is freed. -/
structure ShmemUsers where
  o : ShmemObject
  pins : ℕ := 0
  addrs : List Ptr := []
  vmas : ℕ := 0
  freed : Bool := false

/-- What the users of an object do, and that it is freed. -/
inductive ShmemAct where
  | pin
  | unpin
  | vmap (addr : Ptr)
  | vunmap (addr : Ptr)
  | getPagesSgt (sgt : Except Int Ptr) (ret : Int)
  | mmap (cow : Bool)
  | vmOpen
  | vmClose
  | fault (pageOffset : ℕ)
  | madvise (madv : ℤ)
  | purge
  | free

section Step

variable (B : ShmemBacking) (obj : DrmGemObject) (dirty : Bool)

/-- What the users have after a call that succeeded. -/
def shmemUse (s : ShmemUsers) : ShmemAct → ShmemUsers
  | .pin =>
    let (ret, o) := s.o.getPages B obj
    { s with o, pins := if ret = 0 then s.pins + 1 else s.pins }
  | .unpin => { s with o := s.o.putPages obj dirty, pins := s.pins - 1 }
  | .vmap addr =>
    let (ret, o) := drmGemShmemVmap B obj dirty addr s.o
    { s with o, addrs := s.addrs ++ ret.toOption.toList }
  | .vunmap addr => { s with o := drmGemShmemVunmap obj dirty s.o, addrs := s.addrs.erase addr }
  | .getPagesSgt sgt ret => { s with o := (drmGemShmemGetPagesSgtLocked B obj dirty sgt ret s.o).2 }
  | .mmap cow =>
    let (ret, o) := drmGemShmemMmap B obj cow s.o
    { s with o, vmas := if ret = 0 then s.vmas + 1 else s.vmas }
  | .vmOpen => { s with o := drmGemShmemVmOpen s.o, vmas := s.vmas + 1 }
  | .vmClose => { s with o := s.o.putPages obj dirty, vmas := s.vmas - 1 }
  | .fault pageOffset => { s with o := (drmGemShmemFault obj pageOffset s.o).2 }
  | .madvise madv => { s with o := (drmGemShmemMadvise madv s.o).2 }
  | .purge => { s with o := drmGemShmemPurge obj dirty s.o }
  | .free => { s with o := drmGemShmemFree obj dirty s.o, freed := true }

/-- A step of a user; none once the object is freed. -/
def shmemStep (a : ShmemAct) (s : ShmemUsers) : Option ShmemUsers :=
  if s.freed then none else some (shmemUse B obj dirty s a)

end Step

/-- The object uses its pages for the mapping into the kernel and for its table. -/
def ShmemUsers.inner (s : ShmemUsers) : ℕ :=
  (if s.addrs = [] then 0 else 1) + if s.o.sgt = NULL then 0 else 1

/-- The users of the pages. -/
def ShmemUsers.users (s : ShmemUsers) : ℕ :=
  s.pins + s.vmas + s.inner

/-- There are not too many users to count. What is given back was acquired. A table has an address.
Only a purgeable object is purged, and one is freed when nobody has it. -/
def ShmemClient : ShmemAct → ShmemUsers → Prop
  | .pin, s | .mmap _, s => s.users + 1 < 2 ^ 32
  | .vmap _, s => s.users + 1 < 2 ^ 32 ∧ s.addrs.length + 1 < 2 ^ 32
  | .getPagesSgt sgt _, s => s.users + 1 < 2 ^ 32 ∧ sgt.toOption ≠ some NULL
  | .vmOpen, s => 0 < s.vmas ∧ s.users + 1 < 2 ^ 32
  | .unpin, s => 0 < s.pins
  | .vunmap addr, s => addr ∈ s.addrs
  | .vmClose, s | .fault _, s => 0 < s.vmas
  | .purge, s => drmGemShmemIsPurgeable s.o = true
  | .free, s => s.pins = 0 ∧ s.addrs = [] ∧ s.vmas = 0
  | .madvise _, _ => True

instance (a : ShmemAct) (s : ShmemUsers) : Decidable (ShmemClient a s) :=
  match a with
  | .pin | .mmap _ => inferInstanceAs (Decidable (s.users + 1 < 2 ^ 32))
  | .vmap _ => inferInstanceAs (Decidable (_ < _ ∧ _ < _))
  | .getPagesSgt sgt _ => inferInstanceAs (Decidable (_ < _ ∧ sgt.toOption ≠ some NULL))
  | .vmOpen => inferInstanceAs (Decidable (_ < _ ∧ _ < _))
  | .unpin => inferInstanceAs (Decidable (0 < s.pins))
  | .vunmap addr => inferInstanceAs (Decidable (addr ∈ s.addrs))
  | .vmClose | .fault _ => inferInstanceAs (Decidable (0 < s.vmas))
  | .purge => inferInstanceAs (Decidable (_ = true))
  | .free => inferInstanceAs (Decidable (s.pins = 0 ∧ s.addrs = [] ∧ s.vmas = 0))
  | .madvise _ => isTrue trivial

/-- `ERR_PTR` has a negative number. -/
def ShmemBacking.Documented (B : ShmemBacking) : Prop :=
  ∀ call i e, (B.reads call).read i = .error e → e < 0

/-! ## Getting and putting pages -/

section Pages

variable {B : ShmemBacking} {obj : DrmGemObject} {dirty : Bool} {mem : PageState}

theorem drmGemGetPages_error_neg (hB : B.Documented) {call : ℕ} {kvmallocOk : Bool} {s s' : PageState}
    {e : Int} (h : drmGemGetPages (B.reads call) kvmallocOk obj s = (.error e, s')) : e < 0 := by
  unfold drmGemGetPages at h
  split_ifs at h
  · obtain rfl := Except.error.inj (Prod.mk.inj h).1
    decide
  · obtain rfl := Except.error.inj (Prod.mk.inj h).1
    decide
  · obtain ⟨ps, -, ⟨-, hok⟩ | ⟨e', -, he, herror⟩⟩ :=
      readPages_cases (B.reads call) obj.npages 0 [] s
    · rw [hok] at h
      cases (Prod.mk.inj h).1
    · rw [herror] at h
      obtain rfl := Except.error.inj (Prod.mk.inj h).1
      exact hB call _ _ he

/-- A get either counts one user more, or returns a negative number and changes no count. -/
theorem drmGemShmemGetPages_cases (hB : B.Documented) (obj : DrmGemObject) {s : DrmGemShmemObject}
    (hcount : s.pagesUseCount.toNat + 1 < 2 ^ 32) :
    ((drmGemShmemGetPages B obj s).1 = 0 ∧
      (drmGemShmemGetPages B obj s).2.pagesUseCount.toNat = s.pagesUseCount.toNat + 1) ∨
    ((drmGemShmemGetPages B obj s).1 < 0 ∧
      (drmGemShmemGetPages B obj s).2.pagesUseCount.toNat = s.pagesUseCount.toNat) := by
  have hadd : (s.pagesUseCount + 1).toNat = s.pagesUseCount.toNat + 1 := by
    rw [UInt32.toNat_add]
    exact Nat.mod_eq_of_lt hcount
  unfold drmGemShmemGetPages
  split
  · exact Or.inl ⟨rfl, hadd⟩
  · next hzero =>
    rcases hget : drmGemGetPages (B.reads s.calls) (B.kvmallocOk s.calls) obj s.mem with
      ⟨e | ps, mem'⟩
    · refine Or.inr ⟨drmGemGetPages_error_neg hB hget, ?_⟩
      have h0 : s.pagesUseCount = 0 := by
        grind
      rw [h0]
    · exact Or.inl ⟨rfl, hadd⟩

theorem toNat_pagesUseCount_put {s : DrmGemShmemObject} (hpos : 0 < s.pagesUseCount.toNat) :
    (drmGemShmemPutPages obj dirty s).pagesUseCount.toNat = s.pagesUseCount.toNat - 1 := by
  have hone : 1 ≤ s.pagesUseCount := UInt32.le_iff_toNat_le.2 hpos
  have hsub : (s.pagesUseCount - 1).toNat = s.pagesUseCount.toNat - 1 :=
    UInt32.toNat_sub_of_le _ _ hone
  have hne : s.pagesUseCount ≠ 0 := by
    rintro h0
    rw [h0] at hpos
    exact absurd hpos (by decide)
  unfold drmGemShmemPutPages
  rw [if_neg hne]
  split_ifs <;> exact hsub

theorem RefsBalance.getPages_of_lt {s : DrmGemShmemObject} (h : RefsBalance B obj mem s)
    (hcount : s.pagesUseCount.toNat + 1 < 2 ^ 32) :
    RefsBalance B obj mem (drmGemShmemGetPages B obj s).2 := by
  refine h.getPages fun heq => ?_
  rw [heq] at hcount
  exact absurd hcount (by decide)

/-- A put of pages that are used warns of nothing. -/
theorem ShmemObject.putPages_eq {o : ShmemObject} (hpos : 0 < o.base.pagesUseCount.toNat) :
    o.putPages obj dirty = { o with base := drmGemShmemPutPages obj dirty o.base } := by
  have hne : o.base.pagesUseCount ≠ 0 := by
    rintro h0
    rw [h0] at hpos
    exact absurd hpos (by decide)
  simp [ShmemObject.putPages, hne]

end Pages

end KernelModules
