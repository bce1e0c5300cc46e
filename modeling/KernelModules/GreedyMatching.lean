import Mathlib.Data.Set.Function
import Mathlib.Data.Set.Lattice
import Mathlib.Order.CompletePartialOrder

/-!
# Greedy matchings

Requests in a list ask for a resource each, and each has its own options. `Matching` gives every
request one of its options that is free, and no two the same.

Giving the first request any of its options that is free, and going on with the others, finds a
matching if there is one, as long as the requests are `Nested` : each one's options are among those
of a later one or have nothing in common with them. A matching that gives the resource to a later
request can be changed so that the two change places (`exists_matching_cons_iff`).
-/

namespace KernelModules.GreedyMatching

variable {ι κ : Type*} {options : ι → Set κ}

/-- The requests of the list get different resources that are free, each one of its options. -/
structure Matching (options : ι → Set κ) (l : List ι) (free : Set κ) (f : ι → κ) : Prop where
  mem : ∀ i ∈ l, f i ∈ options i
  free : ∀ i ∈ l, f i ∈ free
  inj : Set.InjOn f {i | i ∈ l}

/-- The options of a request are among those of a later one, or none of them are. -/
def Nested (options : ι → Set κ) : List ι → Prop :=
  List.Pairwise fun i j => options i ⊆ options j ∨ Disjoint (options i) (options j)

theorem matching_nil (free : Set κ) (f : ι → κ) : Matching options [] free f where
  mem := nofun
  free := nofun
  inj := nofun

variable {i : ι} {l : List ι} {free : Set κ} {c : κ}

/-- A request that has no option left has none in any matching. -/
theorem not_matching_cons (h : options i ∩ free = ∅) (f : ι → κ) :
    ¬ Matching options (i :: l) free f := fun hf =>
  (h ▸ ⟨hf.mem i List.mem_cons_self, hf.free i List.mem_cons_self⟩ : f i ∈ (∅ : Set κ))

variable [DecidableEq ι]

/-- What the others get when the first request has got `c`. -/
theorem Matching.cons {f : ι → κ} (hf : Matching options l (free \ {c}) f) (hi : i ∉ l)
    (hc : c ∈ options i) (hfree : c ∈ free) :
    Matching options (i :: l) free (Function.update f i c) where
  mem j hj := by
    rcases List.mem_cons.1 hj with rfl | hj
    · rwa [Function.update_self]
    · rw [Function.update_of_ne (ne_of_mem_of_not_mem hj hi)]
      exact hf.mem j hj
  free j hj := by
    rcases List.mem_cons.1 hj with rfl | hj
    · rwa [Function.update_self]
    · rw [Function.update_of_ne (ne_of_mem_of_not_mem hj hi)]
      exact (hf.free j hj).1
  inj j hj k hk heq := by
    rcases List.mem_cons.1 hj with rfl | hjl <;> rcases List.mem_cons.1 hk with rfl | hkl
    · rfl
    · rw [Function.update_self, Function.update_of_ne (ne_of_mem_of_not_mem hkl hi)] at heq
      exact absurd heq.symm (hf.free k hkl).2
    · rw [Function.update_self, Function.update_of_ne (ne_of_mem_of_not_mem hjl hi)] at heq
      exact absurd heq (hf.free j hjl).2
    · rw [Function.update_of_ne (ne_of_mem_of_not_mem hjl hi),
        Function.update_of_ne (ne_of_mem_of_not_mem hkl hi)] at heq
      exact hf.inj hjl hkl heq

/-- A request that had `c` takes what the first request had. -/
theorem Matching.exchange {f : ι → κ} (hf : Matching options (i :: l) free f) (hi : i ∉ l)
    (hnested : ∀ j ∈ l, options i ⊆ options j ∨ Disjoint (options i) (options j))
    (hc : c ∈ options i) : ∃ g, Matching options l (free \ {c}) g := by
  have hfi := hf.mem i List.mem_cons_self
  have hinj := fun {j k} hj hk => @hf.inj j (List.mem_cons_of_mem i hj) k (List.mem_cons_of_mem i hk)
  have hne : ∀ j ∈ l, f j ≠ f i := fun j hj heq =>
    hi (hf.inj (List.mem_cons_of_mem i hj) List.mem_cons_self heq ▸ hj)
  by_cases hex : ∃ j ∈ l, f j = c
  · obtain ⟨j, hj, rfl⟩ := hex
    have hsub : options i ⊆ options j :=
      (hnested j hj).resolve_right fun hdisj => hdisj.notMem_of_mem_left hc
        (hf.mem j (List.mem_cons_of_mem i hj))
    refine ⟨Function.update f j (f i), ?_, ?_, ?_⟩
    · intro k hk
      by_cases hkj : k = j
      · subst hkj
        rw [Function.update_self]
        exact hsub hfi
      · rw [Function.update_of_ne hkj]
        exact hf.mem k (List.mem_cons_of_mem i hk)
    · intro k hk
      by_cases hkj : k = j
      · subst hkj
        rw [Function.update_self]
        exact ⟨hf.free i List.mem_cons_self, (hne k hk).symm⟩
      · rw [Function.update_of_ne hkj]
        exact ⟨hf.free k (List.mem_cons_of_mem i hk), fun heq => hkj (hinj hk hj heq)⟩
    · intro k hk m hm heq
      by_cases hkj : k = j <;> by_cases hmj : m = j
      · rw [hkj, hmj]
      · rw [hkj, Function.update_self, Function.update_of_ne hmj] at heq
        exact absurd heq.symm (hne m hm)
      · rw [hmj, Function.update_self, Function.update_of_ne hkj] at heq
        exact absurd heq (hne k hk)
      · rw [Function.update_of_ne hkj, Function.update_of_ne hmj] at heq
        exact hinj hk hm heq
  · exact ⟨f, fun k hk => hf.mem k (List.mem_cons_of_mem i hk),
      fun k hk => ⟨hf.free k (List.mem_cons_of_mem i hk), fun heq => hex ⟨k, hk, heq⟩⟩,
      fun _ hk _ hm => hinj hk hm⟩

/-- The first request may take any of its options. -/
theorem exists_matching_cons_iff (hi : i ∉ l)
    (hnested : ∀ j ∈ l, options i ⊆ options j ∨ Disjoint (options i) (options j))
    (hc : c ∈ options i) (hfree : c ∈ free) :
    (∃ f, Matching options (i :: l) free f) ↔ ∃ f, Matching options l (free \ {c}) f :=
  ⟨fun ⟨_, hf⟩ => hf.exchange hi hnested hc, fun ⟨_, hf⟩ => ⟨_, hf.cons hi hc hfree⟩⟩

end KernelModules.GreedyMatching
