import KernelModules.ShmemObject

/-!
# What a shmem GEM object holds

`pages_use_count` counts the users of the pages, the mapping is there while somebody has its address,
and no `drm_WARN_ON` is hit (`shmem_users_exact`). When the last user is gone and the object is
freed, nothing of it remains (`shmem_freed_clean`). Both are about users that 32 bits can count.
-/

namespace KernelModules

open Interleaving

/-! ## The invariant -/

/-- What holds of an object that is not freed, between the calls. -/
structure ShmemInv (B : ShmemBacking) (obj : DrmGemObject) (mem : PageState) (s : ShmemUsers) :
    Prop where
  balance : RefsBalance B obj mem s.o.base
  pages_count : s.o.base.pagesUseCount.toNat = s.users
  vmap_count : s.o.vmapUseCount.toNat = s.addrs.length
  addrs : ∀ a ∈ s.addrs, a = s.o.vaddr ∧ a ≠ NULL
  mapped : s.o.mapped = if s.addrs = [] then [] else [s.o.vaddr]
  tables : s.o.tables = if s.o.sgt = NULL then [] else [s.o.sgt]
  dma : s.o.dma = if s.o.sgt = NULL then [] else [s.o.sgt]
  unwarned : s.o.warned = false

namespace ShmemInv

variable {B : ShmemBacking} {obj : DrmGemObject} {dirty : Bool} {mem : PageState} {s : ShmemUsers}

theorem init (mem : PageState) : ShmemInv B obj mem { o := { base := { mem } } } where
  balance := ⟨fun hlt => absurd hlt (lt_irrefl 0), fun _ => ⟨rfl, rfl⟩⟩
  pages_count := rfl
  vmap_count := rfl
  addrs := fun _ ha => absurd ha List.not_mem_nil
  mapped := rfl
  tables := rfl
  dma := rfl
  unwarned := rfl

variable (h : ShmemInv B obj mem s)

include h

theorem pages_ne_zero (hpos : 0 < s.users) : s.o.base.pagesUseCount ≠ 0 := by
  intro h0
  have hcount := h.pages_count
  rw [h0] at hcount
  exact hpos.ne hcount

/-- `pages` is there while there are users. -/
theorem isSome_pages : s.o.base.pages.isSome = true ↔ 0 < s.users := by
  constructor
  · intro hsome
    by_contra h0
    have hzero : s.o.base.pagesUseCount = 0 :=
      UInt32.toNat_inj.1 (h.pages_count.trans (Nat.le_zero.1 (Nat.not_lt.1 h0)))
    rw [(h.balance.unused hzero).1] at hsome
    cases hsome
  · intro hpos
    obtain ⟨call, ps, hpages, -⟩ := h.balance.used (UInt32.pos_iff_ne_zero.2 (h.pages_ne_zero hpos))
    rw [hpages]
    rfl

theorem vmap_pos_iff : 0 < s.o.vmapUseCount ↔ s.addrs ≠ [] := by
  rw [UInt32.lt_iff_toNat_lt, h.vmap_count, ← List.length_pos_iff]
  rfl

/-- Only the pages and their users change. -/
theorem of_base {s' : ShmemUsers} {base : DrmGemShmemObject} (ho : s'.o = { s.o with base })
    (haddrs : s'.addrs = s.addrs) (hbal : RefsBalance B obj mem base)
    (hcount : base.pagesUseCount.toNat = s'.users) : ShmemInv B obj mem s' := by
  constructor <;> simp only [ho, haddrs]
  · exact hbal
  · exact hcount
  · exact h.vmap_count
  · exact h.addrs
  · exact h.mapped
  · exact h.tables
  · exact h.dma
  · exact h.unwarned

/-- The pages get a user that is counted by `n`, if they can be got. -/
theorem getPages (hB : B.Documented) (hlt : s.users + 1 < 2 ^ 32) {s' : ShmemUsers}
    (ho : s'.o = (s.o.getPages B obj).2) (haddrs : s'.addrs = s.addrs)
    (hok : (s.o.getPages B obj).1 = 0 → s'.users = s.users + 1)
    (herr : (s.o.getPages B obj).1 ≠ 0 → s'.users = s.users) : ShmemInv B obj mem s' := by
  have hcount := h.pages_count
  rw [← hcount] at hlt hok herr
  refine h.of_base ho haddrs (h.balance.getPages_of_lt hlt) ?_
  rcases drmGemShmemGetPages_cases hB obj hlt with ⟨hret, hget⟩ | ⟨hret, hget⟩
  · exact hget.trans (hok hret).symm
  · exact hget.trans (herr hret.ne).symm

theorem putPages (hpos : 0 < s.users) {s' : ShmemUsers} (ho : s'.o = s.o.putPages obj dirty)
    (haddrs : s'.addrs = s.addrs) (husers : s'.users = s.users - 1) : ShmemInv B obj mem s' := by
  have hcount := h.pages_count
  rw [← hcount] at hpos husers
  rw [ShmemObject.putPages_eq hpos] at ho
  exact h.of_base ho haddrs (h.balance.putPages dirty)
    ((toNat_pagesUseCount_put hpos).trans husers.symm)

theorem pin (hB : B.Documented) (hlt : s.users + 1 < 2 ^ 32) :
    ShmemInv B obj mem (shmemUse B obj dirty s .pin) := by
  refine h.getPages hB hlt rfl rfl (fun hret => ?_) fun hret => ?_
  · have hpins : (shmemUse B obj dirty s .pin).pins = s.pins + 1 := if_pos hret
    change (shmemUse B obj dirty s .pin).pins + s.vmas + s.inner = s.users + 1
    rw [hpins, ShmemUsers.users]
    omega
  · have hpins : (shmemUse B obj dirty s .pin).pins = s.pins := if_neg hret
    change (shmemUse B obj dirty s .pin).pins + s.vmas + s.inner = s.users
    rw [hpins, ShmemUsers.users]

theorem mmap (hB : B.Documented) (hlt : s.users + 1 < 2 ^ 32) (cow : Bool) :
    ShmemInv B obj mem (shmemUse B obj dirty s (.mmap cow)) := by
  cases cow with
  | true => exact { h with }
  | false =>
    refine h.getPages hB hlt rfl rfl (fun hret => ?_) fun hret => ?_
    · have hvmas : (shmemUse B obj dirty s (.mmap false)).vmas = s.vmas + 1 := if_pos hret
      change s.pins + (shmemUse B obj dirty s (.mmap false)).vmas + s.inner = s.users + 1
      rw [hvmas, ShmemUsers.users]
      omega
    · have hvmas : (shmemUse B obj dirty s (.mmap false)).vmas = s.vmas := if_neg hret
      change s.pins + (shmemUse B obj dirty s (.mmap false)).vmas + s.inner = s.users
      rw [hvmas, ShmemUsers.users]

theorem unpin (hpins : 0 < s.pins) : ShmemInv B obj mem (shmemUse B obj dirty s .unpin) := by
  refine h.putPages (by unfold ShmemUsers.users; omega) rfl rfl ?_
  change s.pins - 1 + s.vmas + s.inner = s.users - 1
  unfold ShmemUsers.users
  omega

theorem vmClose (hvmas : 0 < s.vmas) :
    ShmemInv B obj mem (shmemUse B obj dirty s .vmClose) := by
  refine h.putPages (by unfold ShmemUsers.users; omega) rfl rfl ?_
  change s.pins + (s.vmas - 1) + s.inner = s.users - 1
  unfold ShmemUsers.users
  omega

theorem vmOpen (hvmas : 0 < s.vmas) (hlt : s.users + 1 < 2 ^ 32) :
    ShmemInv B obj mem (shmemUse B obj dirty s .vmOpen) := by
  have hne := h.pages_ne_zero (by unfold ShmemUsers.users; omega)
  have hadd : (s.o.base.pagesUseCount + 1).toNat = s.users + 1 := by
    rw [UInt32.toNat_add, h.pages_count]
    exact Nat.mod_eq_of_lt hlt
  have ho : (shmemUse B obj dirty s .vmOpen).o = { s.o with
      base := { s.o.base with pagesUseCount := s.o.base.pagesUseCount + 1 } } := if_neg hne
  refine h.of_base ho rfl ⟨fun _ => h.balance.used (UInt32.pos_iff_ne_zero.2 hne), fun h0 => ?_⟩
    (hadd.trans ?_)
  · rw [show s.o.base.pagesUseCount + 1 = 0 from h0] at hadd
    exact absurd hadd (Nat.succ_ne_zero s.users).symm
  · have hinner : (shmemUse B obj dirty s .vmOpen).inner = s.inner := by
      rw [ShmemUsers.inner, ho]
      rfl
    change s.users + 1 = s.pins + (s.vmas + 1) + (shmemUse B obj dirty s .vmOpen).inner
    rw [hinner, ShmemUsers.users]
    omega

/-- The first user of the mapping gets the pages, and gives them back if there is no mapping. -/
theorem vmap_first (hB : B.Documented) (hlt : s.users + 1 < 2 ^ 32) (hnone : s.addrs = [])
    (addr : Ptr) : ShmemInv B obj mem (shmemUse B obj dirty s (.vmap addr)) := by
  have hcount := h.pages_count
  have hzero : ¬ 0 < s.o.vmapUseCount := fun hpos => h.vmap_pos_iff.1 hpos hnone
  have hvmap : s.o.vmapUseCount = 0 := by
    grind
  rw [← hcount] at hlt
  have hbal := h.balance.getPages_of_lt hlt
  have hmapped := h.mapped
  rw [if_pos hnone] at hmapped
  unfold shmemUse drmGemShmemVmap
  dsimp only [ShmemObject.getPages]
  rw [if_neg hzero]
  rcases drmGemShmemGetPages_cases hB obj hlt with ⟨hret, hget⟩ | ⟨hret, hget⟩
  swap
  · rw [if_pos hret.ne]
    dsimp only [Except.toOption, Option.toList]
    rw [List.append_nil, ← hvmap]
    exact h.of_base rfl rfl hbal (hget.trans hcount)
  rw [if_neg (not_not.2 hret)]
  split_ifs with haddr
  · have hpos : 0 < (drmGemShmemGetPages B obj s.o.base).2.pagesUseCount.toNat := by
      rw [hget]
      exact Nat.succ_pos _
    dsimp only [Except.toOption, Option.toList]
    rw [ShmemObject.putPages_eq hpos, List.append_nil]
    refine { h with
      balance := hbal.putPages dirty
      pages_count := ?_
      vmap_count := ?_
      addrs := fun a ha => ?_
      mapped := ?_ }
    · dsimp only
      rw [toNat_pagesUseCount_put hpos, hget, Nat.add_sub_cancel]
      exact hcount
    · dsimp only
      rw [hnone]
      rfl
    · dsimp only at ha
      rw [hnone] at ha
      cases ha
    · dsimp only
      rw [if_pos hnone, hmapped]
  · dsimp only [Except.toOption, Option.toList]
    rw [hnone, hmapped, List.nil_append, hvmap]
    refine { h with
      balance := hbal
      pages_count := ?_
      vmap_count := rfl
      addrs := fun a ha => ?_
      mapped := rfl }
    · dsimp only
      rw [hget, hcount]
      simp only [ShmemUsers.users, ShmemUsers.inner, hnone, if_true, List.cons_ne_nil, if_false]
      omega
    · obtain rfl := List.mem_singleton.1 ha
      exact ⟨rfl, haddr⟩

theorem vmap (hB : B.Documented) (hlt : s.users + 1 < 2 ^ 32) (hlt' : s.addrs.length + 1 < 2 ^ 32)
    (addr : Ptr) : ShmemInv B obj mem (shmemUse B obj dirty s (.vmap addr)) := by
  by_cases hnone : s.addrs = []
  · exact h.vmap_first hB hlt hnone addr
  have hpos := h.vmap_pos_iff.2 hnone
  have hadd : (s.o.vmapUseCount + 1).toNat = s.addrs.length + 1 := by
    rw [UInt32.toNat_add, h.vmap_count]
    exact Nat.mod_eq_of_lt hlt'
  unfold shmemUse drmGemShmemVmap
  dsimp only
  rw [if_pos hpos]
  dsimp only [Except.toOption, Option.toList]
  have hmapped := h.mapped
  rw [if_neg hnone] at hmapped
  refine { h with
    pages_count := ?_
    vmap_count := ?_
    addrs := fun a ha => ?_
    mapped := ?_ }
  · dsimp only
    rw [h.pages_count]
    simp [ShmemUsers.users, ShmemUsers.inner, hnone]
  · dsimp only
    rw [hadd, List.length_append, List.length_singleton]
  · rcases List.mem_append.1 ha with ha | ha
    · exact h.addrs a ha
    · obtain ⟨b, hb⟩ := List.exists_mem_of_ne_nil _ hnone
      obtain rfl := List.mem_singleton.1 ha
      obtain ⟨rfl, hne⟩ := h.addrs b hb
      exact ⟨rfl, hne⟩
  · dsimp only
    rw [hmapped, if_neg (by simp)]

theorem vunmap {addr : Ptr} (haddr : addr ∈ s.addrs) :
    ShmemInv B obj mem (shmemUse B obj dirty s (.vunmap addr)) := by
  have hnone : s.addrs ≠ [] := List.ne_nil_of_mem haddr
  have hlen : 0 < s.addrs.length := List.length_pos_iff.2 hnone
  have hpos := h.vmap_pos_iff.2 hnone
  have hcount := h.vmap_count
  have hone : 1 ≤ s.o.vmapUseCount := UInt32.le_iff_toNat_le.2 (by rw [hcount]; exact hlen)
  have hsub : (s.o.vmapUseCount - 1).toNat = (s.addrs.erase addr).length := by
    rw [UInt32.toNat_sub_of_le _ _ hone, hcount, List.length_erase_of_mem haddr]
    rfl
  have hmapped := h.mapped
  rw [if_neg hnone] at hmapped
  have hpages : 0 < s.o.base.pagesUseCount.toNat := by
    rw [h.pages_count, ShmemUsers.users, ShmemUsers.inner, if_neg hnone]
    omega
  unfold shmemUse drmGemShmemVunmap
  dsimp only
  rw [if_neg (by grind)]
  split_ifs with hmore
  · have hleft : s.addrs.erase addr ≠ [] := by
      rw [← List.length_pos_iff, ← hsub]
      exact UInt32.lt_iff_toNat_lt.1 hmore
    refine { h with
      pages_count := ?_
      vmap_count := hsub
      addrs := fun a ha => h.addrs a (List.mem_of_mem_erase ha)
      mapped := ?_ }
    · dsimp only
      rw [h.pages_count]
      simp only [ShmemUsers.users, ShmemUsers.inner, hnone, hleft, if_false]
    · dsimp only
      rw [hmapped, if_neg hleft]
  · have hlast : s.addrs.erase addr = [] := by
      rw [← List.length_eq_zero_iff, ← hsub]
      by_contra hne
      exact hmore (UInt32.lt_iff_toNat_lt.2 (Nat.pos_of_ne_zero hne))
    have hput := @ShmemObject.putPages_eq obj dirty { s.o with
      vmapUseCount := s.o.vmapUseCount - 1
      mapped := s.o.mapped.erase s.o.vaddr } hpages
    rw [hput, hlast]
    refine { h with
      balance := h.balance.putPages dirty
      pages_count := ?_
      vmap_count := hsub.trans (by rw [hlast])
      addrs := fun a ha => absurd ha List.not_mem_nil
      mapped := ?_ }
    · dsimp only
      rw [toNat_pagesUseCount_put hpages, h.pages_count]
      simp only [ShmemUsers.users, ShmemUsers.inner, hnone, if_true, if_false]
      omega
    · dsimp only
      rw [hmapped, List.erase_cons_head, if_pos rfl]

/-- The table uses the pages once it is there; what was got for it is given back before that. -/
theorem getPagesSgt (hB : B.Documented) (hlt : s.users + 1 < 2 ^ 32) {sgt : Except Int Ptr}
    (hsgt : sgt.toOption ≠ some NULL) (ret : Int) :
    ShmemInv B obj mem (shmemUse B obj dirty s (.getPagesSgt sgt ret)) := by
  have hcount := h.pages_count
  rw [← hcount] at hlt
  have hbal := h.balance.getPages_of_lt hlt
  have htables := h.tables
  have hdma := h.dma
  unfold shmemUse drmGemShmemGetPagesSgtLocked
  dsimp only [ShmemObject.getPages]
  by_cases hhave : s.o.sgt = NULL
  swap
  · rw [if_pos hhave]
    exact { h with }
  rw [if_neg (not_not.2 hhave)]
  rcases drmGemShmemGetPages_cases hB obj hlt with hget | ⟨hret, hget⟩
  swap
  · rw [if_pos hret.ne]
    exact h.of_base rfl rfl hbal (hget.trans hcount)
  rw [if_neg (not_not.2 hget.1)]
  have hpos : 0 < (drmGemShmemGetPages B obj s.o.base).2.pagesUseCount.toNat := by
    rw [hget.2]
    exact Nat.succ_pos _
  have hback : (drmGemShmemPutPages obj dirty
      (drmGemShmemGetPages B obj s.o.base).2).pagesUseCount.toNat = s.users := by
    rw [toNat_pagesUseCount_put hpos, hget.2, Nat.add_sub_cancel, hcount]
  rw [if_pos hhave] at htables hdma
  cases sgt with
  | error e =>
    dsimp only
    rw [ShmemObject.putPages_eq hpos]
    exact h.of_base rfl rfl (hbal.putPages dirty) hback
  | ok t =>
    have hne : t ≠ NULL := fun heq => hsgt (congrArg some heq)
    dsimp only
    rw [htables, List.nil_append]
    split_ifs with hmap
    · have herase : [t].erase t = s.o.tables := by
        rw [htables, List.erase_cons_head]
      rw [herase, ShmemObject.putPages_eq hpos]
      exact h.of_base rfl rfl (hbal.putPages dirty) hback
    · refine { h with
        balance := hbal
        pages_count := ?_
        tables := (if_neg hne).symm
        dma := ?_ }
      · dsimp only
        rw [hget.2, hcount]
        simp only [ShmemUsers.users, ShmemUsers.inner, hhave, hne, if_true, if_false]
        omega
      · dsimp only
        rw [hdma, if_neg hne]
        rfl

theorem freeSgt (hsgt : s.o.sgt ≠ NULL) : s.o.freeSgt = { s.o with tables := [], dma := [] } := by
  have htables := h.tables
  have hdma := h.dma
  rw [if_neg hsgt] at htables hdma
  rw [ShmemObject.freeSgt, htables, hdma, List.erase_cons_head]

/-- The table goes, and its use of the pages with it. -/
theorem purge (hpurge : drmGemShmemIsPurgeable s.o = true) :
    ShmemInv B obj mem (shmemUse B obj dirty s .purge) := by
  have hsgt : s.o.sgt ≠ NULL := (of_decide_eq_true hpurge).2.2
  have hpos : 0 < s.o.base.pagesUseCount.toNat := by
    rw [h.pages_count, ShmemUsers.users, ShmemUsers.inner, if_neg hsgt]
    omega
  unfold shmemUse drmGemShmemPurge
  dsimp only
  rw [hpurge, Bool.not_true, Bool.or_false]
  have hfree := h.freeSgt hsgt
  have hput := @ShmemObject.putPages_eq obj dirty { s.o with tables := [], dma := [], sgt := NULL }
    hpos
  rw [hfree, hput]
  refine { h with
    balance := h.balance.putPages dirty
    pages_count := ?_
    tables := rfl
    dma := rfl }
  dsimp only
  rw [toNat_pagesUseCount_put hpos, h.pages_count]
  simp only [ShmemUsers.users, ShmemUsers.inner, hsgt, if_true, if_false]
  omega

theorem fault (hvmas : 0 < s.vmas) (pageOffset : ℕ) :
    ShmemInv B obj mem (shmemUse B obj dirty s (.fault pageOffset)) := by
  have hsome := h.isSome_pages.2 (by unfold ShmemUsers.users; omega)
  obtain ⟨ps, hps⟩ := Option.isSome_iff_exists.1 hsome
  unfold shmemUse drmGemShmemFault
  dsimp only
  rw [hps]
  dsimp only
  split_ifs <;> exact { h with }

theorem madvise (madv : ℤ) : ShmemInv B obj mem (shmemUse B obj dirty s (.madvise madv)) := by
  unfold shmemUse drmGemShmemMadvise
  dsimp only
  split_ifs <;> exact { h with }

end ShmemInv

/-- The object is freed, and has given back all that it had. -/
structure ShmemClean (mem : PageState) (o : ShmemObject) : Prop where
  refs : o.base.mem.refs = mem.refs
  pages : o.base.pages = none
  mapped : o.mapped = []
  tables : o.tables = []
  dma : o.dma = []
  unwarned : o.warned = false

section Free

variable {B : ShmemBacking} {obj : DrmGemObject} {dirty : Bool} {mem : PageState} {s : ShmemUsers}

theorem ShmemInv.free (h : ShmemInv B obj mem s) (hpins : s.pins = 0) (haddrs : s.addrs = [])
    (hvmas : s.vmas = 0) : ShmemClean mem (drmGemShmemFree obj dirty s.o) := by
  have hcount := h.pages_count
  have hvmap : s.o.vmapUseCount = 0 := by
    rw [← UInt32.toNat_inj, h.vmap_count, haddrs]
    rfl
  have hmapped := h.mapped
  rw [if_pos haddrs] at hmapped
  have hsome := h.isSome_pages
  rw [ShmemUsers.users, ShmemUsers.inner, hpins, hvmas, if_pos haddrs, Nat.zero_add, Nat.zero_add]
    at hcount hsome
  unfold drmGemShmemFree
  simp only [h.unwarned, hvmap, ne_eq, not_true, decide_false, Bool.or_self]
  by_cases hsgt : s.o.sgt = NULL
  · rw [if_pos hsgt] at hcount hsome
    have hzero : s.o.base.pagesUseCount = 0 := UInt32.toNat_inj.1 hcount
    obtain ⟨hpages, hrefs⟩ := h.balance.unused hzero
    have htables := h.tables
    have hdma := h.dma
    rw [if_pos hsgt] at htables hdma
    simp only [hsgt, not_true, if_false, hpages, Option.isSome_none, Bool.false_eq_true]
    exact ⟨hrefs, hpages, hmapped, htables, hdma, by simp [hzero]⟩
  · rw [if_neg hsgt] at hcount hsome
    have hpos : 0 < s.o.base.pagesUseCount.toNat := by
      rw [hcount]
      exact Nat.one_pos
    have hput : (drmGemShmemPutPages obj dirty s.o.base).pagesUseCount = 0 := by
      rw [← UInt32.toNat_inj, toNat_pagesUseCount_put hpos, hcount]
      rfl
    obtain ⟨hpages, hrefs⟩ := (h.balance.putPages dirty).unused hput
    have hfree : { s.o with vmapUseCount := 0, warned := false : ShmemObject }.freeSgt =
        { s.o with vmapUseCount := 0, warned := false, tables := [], dma := [] } := by
      have heq := h.freeSgt hsgt
      simp only [ShmemObject.freeSgt, ShmemObject.mk.injEq] at heq ⊢
      simp [heq]
    have hputs := @ShmemObject.putPages_eq obj dirty
      { s.o with vmapUseCount := 0, warned := false, tables := [], dma := [] } hpos
    simp only [hsgt, not_false_eq_true, if_true, hfree, hsome.2 Nat.one_pos, hputs, hput]
    exact ⟨hrefs, hpages, hmapped, rfl, rfl, rfl⟩

end Free

/-! ## Whole runs -/

/-- An object that is freed is clean. -/
def ShmemOk (B : ShmemBacking) (obj : DrmGemObject) (mem : PageState) (s : ShmemUsers) : Prop :=
  if s.freed then ShmemClean mem s.o else ShmemInv B obj mem s

section Runs

variable {B : ShmemBacking} {obj : DrmGemObject} {dirty : Bool} {mem : PageState}

theorem ShmemInv.use (hB : B.Documented) {s : ShmemUsers} (h : ShmemInv B obj mem s) {a : ShmemAct}
    (ha : a ≠ .free) (hclient : ShmemClient a s) :
    ShmemInv B obj mem (shmemUse B obj dirty s a) := by
  cases a with
  | pin => exact h.pin hB hclient
  | unpin => exact h.unpin hclient
  | vmap addr => exact h.vmap hB hclient.1 hclient.2 addr
  | vunmap addr => exact h.vunmap hclient
  | getPagesSgt sgt ret => exact h.getPagesSgt hB hclient.1 hclient.2 ret
  | mmap cow => exact h.mmap hB hclient cow
  | vmOpen => exact h.vmOpen hclient.1 hclient.2
  | vmClose => exact h.vmClose hclient
  | fault pageOffset => exact h.fault hclient pageOffset
  | madvise madv => exact h.madvise madv
  | purge => exact h.purge hclient
  | free => exact absurd rfl ha

theorem freed_shmemUse {s : ShmemUsers} {a : ShmemAct} (ha : a ≠ .free) :
    (shmemUse B obj dirty s a).freed = s.freed := by
  cases a <;> first | rfl | exact absurd rfl ha

theorem ShmemOk.step (hB : B.Documented) {s s' : ShmemUsers} (h : ShmemOk B obj mem s)
    {a : ShmemAct} (hclient : ShmemClient a s) (hstep : shmemStep B obj dirty a s = some s') :
    ShmemOk B obj mem s' := by
  obtain ⟨hlive, hstep⟩ := Option.ite_none_left_eq_some.1 hstep
  obtain rfl := Option.some.inj hstep
  have hs : ShmemInv B obj mem s := (if_neg hlive).mp h
  by_cases ha : a = .free
  · subst ha
    exact hs.free hclient.1 hclient.2.1 hclient.2.2
  · rw [ShmemOk, freed_shmemUse ha, if_neg hlive]
    exact hs.use hB ha hclient

end Runs

/-- The pages are there while they have users, whom `pages_use_count` counts : each page of the
object, in order, with one reference. An address of the mapping that somebody has is mapped, and
nothing is mapped when nobody has one. There is one table at most, and it is mapped for devices. A
fault gets the page of its offset, of an object that is not purged. Nothing was warned of. -/
structure ShmemExact (B : ShmemBacking) (obj : DrmGemObject) (mem : PageState) (s : ShmemUsers) :
    Prop where
  count : s.o.base.pagesUseCount.toNat = s.users
  used : 0 < s.users → ∃ call ps, s.o.base.pages = some ps ∧ PagesOf (B.reads call) 0 ps ∧
    ps.length = obj.size / PAGE_SIZE ∧
    ∀ p, s.o.base.mem.refs p = mem.refs p + if p ∈ ps then 1 else 0
  unused : s.users = 0 → s.o.base.pages = none ∧ s.o.base.mem.refs = mem.refs
  mapped : ∀ a ∈ s.addrs, s.o.mapped = [a] ∧ a ≠ NULL
  unmapped : s.addrs = [] → s.o.mapped = []
  tables : s.o.tables = if s.o.sgt = NULL then [] else [s.o.sgt]
  dma : s.o.dma = s.o.tables
  fault : 0 < s.vmas → ∀ i, ∃ ps, s.o.base.pages = some ps ∧ drmGemShmemFault obj i s.o =
    (if h : i < ps.length ∧ 0 ≤ s.o.madv then .page ps[i] else .sigbus, s.o)
  unwarned : s.o.warned = false

theorem ShmemInv.exact {B : ShmemBacking} {obj : DrmGemObject} {mem : PageState} {s : ShmemUsers}
    (hsize : obj.size < 2 ^ 44) (h : ShmemInv B obj mem s) : ShmemExact B obj mem s := by
  have hused : 0 < s.users → ∃ call ps, s.o.base.pages = some ps ∧ PagesOf (B.reads call) 0 ps ∧
      ps.length = obj.size / PAGE_SIZE ∧
      ∀ p, s.o.base.mem.refs p = mem.refs p + if p ∈ ps then 1 else 0 := by
    intro hpos
    rw [← npages_eq hsize]
    exact h.balance.used (UInt32.pos_iff_ne_zero.2 (h.pages_ne_zero hpos))
  refine ⟨h.pages_count, hused, fun h0 => ?_, fun a ha => ?_, fun hnone => ?_, h.tables,
    h.dma.trans h.tables.symm, fun hvmas i => ?_, h.unwarned⟩
  · exact h.balance.unused (UInt32.toNat_inj.1 (h.pages_count.trans h0))
  · obtain ⟨rfl, hne⟩ := h.addrs a ha
    exact ⟨h.mapped.trans (if_neg (List.ne_nil_of_mem ha)), hne⟩
  · exact h.mapped.trans (if_pos hnone)
  · obtain ⟨call, ps, hpages, -, hlen, -⟩ := hused (by unfold ShmemUsers.users; omega)
    have hshift : obj.size >>> 12 = ps.length := by
      rw [hlen, Nat.shiftRight_eq_div_pow]
      rfl
    refine ⟨ps, hpages, ?_⟩
    unfold drmGemShmemFault
    rw [hshift, hpages]
    dsimp only
    by_cases hi : i < ps.length
    · rw [if_neg (Nat.not_le.2 hi), List.getD_eq_getElem?_getD, List.getElem?_eq_getElem hi]
      by_cases hmadv : 0 ≤ s.o.madv
      · rw [if_neg (not_lt.2 hmadv), dif_pos ⟨hi, hmadv⟩]
        rfl
      · rw [if_pos (not_le.1 hmadv), dif_neg fun hboth => hmadv hboth.2]
    · rw [if_pos (Nat.le_of_not_lt hi), dif_neg fun hboth => hi hboth.1]

end KernelModules
