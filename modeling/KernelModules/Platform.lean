import KernelModules.Cooperative

/-!
# The platform-device registry

`lkpi_platform.c` : the newbus glue records every platform device it attaches with the
driver it attached for, and `platform_find_device_by_driver` enumerates the devices of a
driver. The iterator has no state of its own : it is restarted from the last device it
returned, and looks that device up again from the head of the list.

If no device of a driver was recorded before (`FirstOfDevice`), the enumeration of the
driver is its devices in attach order (`enumerate_eq`). A device recorded before sends the
iterator back to its first entry, and the loop over it does not end (`enumerate_eq_none`), so
the loop has fuel.
-/

namespace KernelModules

/-- `struct lkpi_pdev_ent` -/
structure LkpiPdevEnt where
  pdev : Ptr
  drv : Ptr
deriving DecidableEq, Repr

/-- `&pdev->dev` : the embedded device of a platform device. -/
def pdevDev (pdev : Ptr) : Ptr :=
  pdev + 16

theorem pdevDev_ne_null (pdev : Ptr) : pdevDev pdev ≠ NULL :=
  Nat.succ_ne_zero _

theorem pdevDev_inj {p q : Ptr} : pdevDev p = pdevDev q ↔ p = q :=
  Nat.add_right_cancel_iff

/-- The device of an entry. -/
def LkpiPdevEnt.dev (e : LkpiPdevEnt) : Ptr :=
  pdevDev e.pdev

/-- `lkpi_platform_device_register` -/
def lkpiPlatformDeviceRegister (pdev drv : Ptr) (l : List LkpiPdevEnt) : List LkpiPdevEnt :=
  if pdev = NULL then l else l ++ [⟨pdev, drv⟩]

/-- `lkpi_platform_device_unregister` -/
def lkpiPlatformDeviceUnregister (pdev : Ptr) (l : List LkpiPdevEnt) : List LkpiPdevEnt :=
  l.eraseP (·.pdev == pdev)

/-- The walk of `platform_find_device_by_driver`, with its flag `seen`. -/
def findFrom (start drv : Ptr) : Bool → List LkpiPdevEnt → Option Ptr
  | _, [] => none
  | false, e :: l => findFrom start drv (e.dev == start) l
  | true, e :: l => if e.drv = drv then some e.dev else findFrom start drv true l

/-- `platform_find_device_by_driver` -/
def platformFindDeviceByDriver (start drv : Ptr) (l : List LkpiPdevEnt) : Option Ptr :=
  if drv = NULL then none else findFrom start drv (start == NULL) l

/-- `while ((d = platform_find_device_by_driver(p, drv))) { f(d); p = d; }`, with fuel. -/
def enumerate {σ : Type*} (drv : Ptr) (l : List LkpiPdevEnt) (f : σ → Ptr → σ) :
    ℕ → Ptr → σ → Option σ
  | 0, _, _ => none
  | n + 1, p, r =>
    match platformFindDeviceByDriver p drv l with
    | none => some r
    | some d => enumerate drv l f n d (f r d)

/-- The devices recorded for a driver, in attach order. -/
def devsOf (drv : Ptr) (l : List LkpiPdevEnt) : List Ptr :=
  (l.filter (·.drv == drv)).map LkpiPdevEnt.dev

@[simp] theorem devsOf_nil (drv : Ptr) : devsOf drv [] = [] :=
  rfl

theorem devsOf_cons_of_eq {drv : Ptr} {e : LkpiPdevEnt} (h : e.drv = drv) (l : List LkpiPdevEnt) :
    devsOf drv (e :: l) = e.dev :: devsOf drv l := by
  simp [devsOf, h]

theorem devsOf_cons_of_ne {drv : Ptr} {e : LkpiPdevEnt} (h : e.drv ≠ drv) (l : List LkpiPdevEnt) :
    devsOf drv (e :: l) = devsOf drv l := by
  simp [devsOf, h]

/-! ## The iterator -/

/-- Restarted from a device that is recorded once, the walk goes on after its entry. -/
theorem findFrom_restart (drv : Ptr) (e : LkpiPdevEnt) (l₂ : List LkpiPdevEnt) :
    ∀ l₁ : List LkpiPdevEnt, (∀ e' ∈ l₁, e'.dev ≠ e.dev) →
      findFrom e.dev drv false (l₁ ++ e :: l₂) = findFrom e.dev drv true l₂
  | [], _ => by simp [findFrom]
  | e' :: l₁, h => by
    obtain ⟨hne, h⟩ := List.forall_mem_cons.1 h
    rw [List.cons_append, findFrom, beq_false_of_ne hne]
    exact findFrom_restart drv e l₂ l₁ h

/-- Every entry of the driver is the first entry of its device. -/
def FirstOfDevice (drv : Ptr) (l : List LkpiPdevEnt) : Prop :=
  ∀ l₁ e l₂, l = l₁ ++ e :: l₂ → e.drv = drv → ∀ e' ∈ l₁, e'.dev ≠ e.dev

theorem firstOfDevice_of_nodup {l : List LkpiPdevEnt} (hnd : (l.map LkpiPdevEnt.dev).Nodup)
    (drv : Ptr) : FirstOfDevice drv l := by
  rintro l₁ e l₂ rfl - e' he' h
  rw [List.map_append, List.map_cons, List.nodup_middle, List.nodup_cons] at hnd
  exact hnd.1 (List.mem_append_left _ (h ▸ List.mem_map_of_mem he'))

/-- From a position in front of `l₂`, with fuel for its devices, the loop runs over the
devices of the driver in `l₂`. -/
theorem enumerate_from {σ : Type*} {drv : Ptr} (hdrv : drv ≠ NULL) {l : List LkpiPdevEnt}
    (hfirst : FirstOfDevice drv l) (f : σ → Ptr → σ) :
    ∀ (l₂ l₁ : List LkpiPdevEnt) (n : ℕ) (p : Ptr) (r : σ), l = l₁ ++ l₂ →
      platformFindDeviceByDriver p drv l = findFrom p drv true l₂ →
      (devsOf drv l₂).length < n →
      enumerate drv l f n p r = some ((devsOf drv l₂).foldl f r)
  | _, _, 0, _, _, _, _, hn => absurd hn (Nat.not_lt_zero _)
  | [], _, n + 1, p, r, _, hp, _ => by
    rw [enumerate, hp]
    rfl
  | e :: l₂, l₁, n + 1, p, r, hl, hp, hn => by
    have hl' : l = (l₁ ++ [e]) ++ l₂ := by simp [hl]
    rw [findFrom] at hp
    by_cases he : e.drv = drv
    · rw [if_pos he] at hp
      rw [devsOf_cons_of_eq he] at hn ⊢
      rw [enumerate, hp, List.foldl_cons]
      refine enumerate_from hdrv hfirst f l₂ (l₁ ++ [e]) n e.dev (f r e.dev) hl' ?_
        (Nat.lt_of_succ_lt_succ hn)
      -- The device is not null, so the flag starts clear and is set at its first entry.
      have hne : (e.dev == NULL) = false := beq_false_of_ne (pdevDev_ne_null e.pdev)
      rw [platformFindDeviceByDriver, if_neg hdrv, hne, hl]
      exact findFrom_restart drv e l₂ l₁ (hfirst l₁ e l₂ hl he)
    · rw [if_neg he] at hp
      rw [devsOf_cons_of_ne he] at hn ⊢
      exact enumerate_from hdrv hfirst f l₂ (l₁ ++ [e]) (n + 1) p r hl' hp hn

/-- If no device of the driver is recorded before, the loop visits the devices of the driver
in attach order. -/
theorem enumerate_eq {σ : Type*} {drv : Ptr} (hdrv : drv ≠ NULL) {l : List LkpiPdevEnt}
    (hfirst : FirstOfDevice drv l) (f : σ → Ptr → σ) {n : ℕ} (hn : l.length < n) (r : σ) :
    enumerate drv l f n NULL r = some ((devsOf drv l).foldl f r) := by
  refine enumerate_from hdrv hfirst f l [] n NULL r rfl ?_ ?_
  · rw [platformFindDeviceByDriver, if_neg hdrv]
    rfl
  · refine Nat.lt_of_le_of_lt ?_ hn
    rw [devsOf, List.length_map]
    exact List.length_filter_le _ _

/-- No device is enumerated for the null pointer. -/
theorem enumerate_null {σ : Type*} (l : List LkpiPdevEnt) (f : σ → Ptr → σ) {n : ℕ} (hn : 0 < n)
    (p : Ptr) (r : σ) : enumerate NULL l f n p r = some r := by
  obtain ⟨n, rfl⟩ := Nat.exists_eq_succ_of_ne_zero (Nat.ne_of_gt hn)
  rw [enumerate, platformFindDeviceByDriver, if_pos rfl]

/-! ## A device recorded before -/

/-- With the flag set, the walk does not pass an entry of the driver. -/
theorem findFrom_true {drv : Ptr} {e : LkpiPdevEnt} (he : e.drv = drv) (start : Ptr)
    (l₂ : List LkpiPdevEnt) : ∀ l₁ : List LkpiPdevEnt,
      ∃ d ∈ (l₁ ++ [e]).map LkpiPdevEnt.dev, findFrom start drv true (l₁ ++ e :: l₂) = some d
  | [] => ⟨e.dev, List.mem_cons_self, by rw [List.nil_append, findFrom, if_pos he]⟩
  | e' :: l₁ => by
    by_cases he' : e'.drv = drv
    · exact ⟨e'.dev, List.mem_cons_self, by rw [List.cons_append, findFrom, if_pos he']⟩
    · obtain ⟨d, hd, hfind⟩ := findFrom_true he start l₂ l₁
      exact ⟨d, List.mem_cons_of_mem _ hd, by rw [List.cons_append, findFrom, if_neg he', hfind]⟩

/-- Restarted from a device that is recorded before the entry, it does not pass it either. -/
theorem findFrom_false {drv : Ptr} {e : LkpiPdevEnt} (he : e.drv = drv) {start : Ptr}
    (l₂ : List LkpiPdevEnt) : ∀ l₁ : List LkpiPdevEnt, start ∈ l₁.map LkpiPdevEnt.dev →
      ∃ d ∈ (l₁ ++ [e]).map LkpiPdevEnt.dev, findFrom start drv false (l₁ ++ e :: l₂) = some d
  | [], h => absurd h List.not_mem_nil
  | e' :: l₁, h => by
    by_cases he' : e'.dev = start
    · obtain ⟨d, hd, hfind⟩ := findFrom_true he start l₂ l₁
      refine ⟨d, List.mem_cons_of_mem _ hd, ?_⟩
      rw [List.cons_append, findFrom, beq_iff_eq.2 he', hfind]
    · rw [List.map_cons, List.mem_cons] at h
      obtain ⟨d, hd, hfind⟩ := findFrom_false he l₂ l₁ (h.resolve_left (Ne.symm he'))
      refine ⟨d, List.mem_cons_of_mem _ hd, ?_⟩
      rw [List.cons_append, findFrom, beq_false_of_ne he', hfind]

/-- An entry of the driver whose device is recorded before it keeps the loop from ending : at
the entry, the iterator goes back to the first entry of the device. -/
theorem enumerate_eq_none {σ : Type*} {drv : Ptr} (hdrv : drv ≠ NULL) {l₁ l₂ : List LkpiPdevEnt}
    {e : LkpiPdevEnt} (he : e.drv = drv) (hdup : e.dev ∈ l₁.map LkpiPdevEnt.dev) (f : σ → Ptr → σ) :
    ∀ (n : ℕ) (p : Ptr) (r : σ), p = NULL ∨ p ∈ l₁.map LkpiPdevEnt.dev →
      enumerate drv (l₁ ++ e :: l₂) f n p r = none
  | 0, _, _, _ => rfl
  | n + 1, p, r, hp => by
    obtain ⟨d, hd, hfind⟩ : ∃ d ∈ (l₁ ++ [e]).map LkpiPdevEnt.dev,
        platformFindDeviceByDriver p drv (l₁ ++ e :: l₂) = some d := by
      rw [platformFindDeviceByDriver, if_neg hdrv]
      rcases hp with rfl | hp
      · exact findFrom_true he NULL l₂ l₁
      · have hne : (p == NULL) = false := by
          obtain ⟨e', -, rfl⟩ := List.mem_map.1 hp
          exact beq_false_of_ne (pdevDev_ne_null e'.pdev)
        rw [hne]
        exact findFrom_false he l₂ l₁ hp
    have hd' : d ∈ l₁.map LkpiPdevEnt.dev := by
      rw [List.map_append, List.mem_append, List.map_singleton, List.mem_singleton] at hd
      rcases hd with hd | rfl
      · exact hd
      · exact hdup
    rw [enumerate, hfind]
    exact enumerate_eq_none hdrv he hdup f n d (f r d) (Or.inr hd')

end KernelModules
