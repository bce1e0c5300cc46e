import Mathlib.Data.Set.Lattice
import Mathlib.Order.CompletePartialOrder

/-!
# Tenants of cells

Tenants hold sets of cells. In a tenancy no cell has two tenants, and the cells that are taken are
those that some tenant holds. A tenant may claim cells that are free (`Tenancy.claim`), release
cells it holds (`Tenancy.release`) and pass cells on to another tenant (`Tenancy.pass`).
-/

namespace KernelModules

variable {ι κ : Type*}

/-- No cell has two tenants, and the cells that are taken are those that have one. -/
structure Tenancy (taken : Set κ) (holds : ι → Set κ) : Prop where
  disjoint : ∀ i j, i ≠ j → Disjoint (holds i) (holds j)
  mem_taken_iff : ∀ k, k ∈ taken ↔ ∃ i, k ∈ holds i

namespace Tenancy

variable {taken taken' S : Set κ} {holds holds' : ι → Set κ} {i j : ι}

theorem subset_taken (h : Tenancy taken holds) (i : ι) : holds i ⊆ taken :=
  fun k hk => (h.mem_taken_iff k).2 ⟨i, hk⟩

theorem empty (h : ∀ i, holds i = ∅) : Tenancy (∅ : Set κ) holds where
  disjoint i j _ := by simp [h]
  mem_taken_iff k := by simp [h]

theorem congr (h : Tenancy taken holds) (ht : taken' = taken) (hh : ∀ i, holds' i = holds i) :
    Tenancy taken' holds' := by
  obtain rfl : holds' = holds := funext hh
  rwa [ht]

/-- Free cells can be claimed. -/
theorem claim (h : Tenancy taken holds) (hS : Disjoint S taken) (hi : holds' i = holds i ∪ S)
    (hne : ∀ j, j ≠ i → holds' j = holds j) (ht : taken' = taken ∪ S) : Tenancy taken' holds' := by
  have hnew : ∀ j, j ≠ i → Disjoint (holds' i) (holds' j) := by
    intro j hj
    rw [hi, hne j hj, Set.disjoint_union_left]
    exact ⟨h.disjoint i j hj.symm, hS.mono_right (h.subset_taken j)⟩
  constructor
  · intro j₁ j₂ hj
    by_cases h₁ : j₁ = i
    · subst h₁
      exact hnew j₂ hj.symm
    by_cases h₂ : j₂ = i
    · subst h₂
      exact (hnew j₁ h₁).symm
    rw [hne j₁ h₁, hne j₂ h₂]
    exact h.disjoint j₁ j₂ hj
  · intro k
    rw [ht, Set.mem_union, h.mem_taken_iff]
    constructor
    · rintro (⟨j, hk⟩ | hk)
      · by_cases hj : j = i
        · subst hj
          exact ⟨j, hi ▸ Or.inl hk⟩
        · exact ⟨j, (hne j hj).symm ▸ hk⟩
      · exact ⟨i, hi ▸ Or.inr hk⟩
    · rintro ⟨j, hk⟩
      by_cases hj : j = i
      · subst hj
        rw [hi] at hk
        exact hk.imp_left fun hk => ⟨j, hk⟩
      · exact Or.inl ⟨j, hne j hj ▸ hk⟩

/-- What a tenant holds can be released. -/
theorem release (h : Tenancy taken holds) (hS : S ⊆ holds i) (hi : holds' i = holds i \ S)
    (hne : ∀ j, j ≠ i → holds' j = holds j) (ht : taken' = taken \ S) : Tenancy taken' holds' := by
  have hsub : ∀ j, holds' j ⊆ holds j := by
    intro j
    by_cases hj : j = i
    · subst hj
      exact hi ▸ Set.sdiff_subset
    · exact (hne j hj).subset
  constructor
  · exact fun j₁ j₂ hj => (h.disjoint j₁ j₂ hj).mono (hsub j₁) (hsub j₂)
  · intro k
    rw [ht, Set.mem_sdiff, h.mem_taken_iff]
    constructor
    · rintro ⟨⟨j, hk⟩, hkS⟩
      by_cases hj : j = i
      · subst hj
        exact ⟨j, hi ▸ ⟨hk, hkS⟩⟩
      · exact ⟨j, (hne j hj).symm ▸ hk⟩
    · rintro ⟨j, hk⟩
      refine ⟨⟨j, hsub j hk⟩, fun hkS => ?_⟩
      by_cases hj : j = i
      · subst hj
        rw [hi] at hk
        exact hk.2 hkS
      · exact (h.disjoint j i hj).notMem_of_mem_left (hsub j hk) (hS hkS)

/-- What a tenant holds can be passed on to another one. -/
theorem pass (h : Tenancy taken holds) (hij : i ≠ j) (hS : S ⊆ holds i)
    (hi : holds' i = holds i \ S) (hj : holds' j = holds j ∪ S)
    (hne : ∀ l, l ≠ i → l ≠ j → holds' l = holds l) : Tenancy taken holds' := by
  classical
  have hrel : Tenancy (taken \ S) (Function.update holds i (holds i \ S)) :=
    h.release hS (by simp) (fun l hl => by simp [hl]) rfl
  refine hrel.claim (i := j) (S := S) Set.disjoint_sdiff_right ?_ ?_ ?_
  · rw [hj, Function.update_of_ne hij.symm]
  · intro l hl
    by_cases hli : l = i
    · subst hli
      rw [hi, Function.update_self]
    · rw [hne l hli hl, Function.update_of_ne hli]
  · rw [Set.sdiff_union_of_subset]
    exact hS.trans (h.subset_taken i)

end Tenancy

end KernelModules
