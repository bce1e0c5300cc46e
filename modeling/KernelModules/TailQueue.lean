import Mathlib.Data.List.Basic
import Mathlib.Data.List.Nodup

/-!
# Keyed tail queues

A tail queue whose elements are reached through a key (in C : the address of the
element). `update` writes through a key and leaves the order alone, `eraseP` unlinks
the first element a walk stops at. With distinct keys a write changes one element and
no other (`mem_update_iff`).
-/

namespace KernelModules.TailQueue

variable {α κ : Type*} [DecidableEq κ] {key : α → κ}

/-- Apply `f` to the element at key `k`. -/
def update (key : α → κ) (k : κ) (f : α → α) (l : List α) : List α :=
  l.map fun a => if key a = k then f a else a

@[simp] theorem update_nil (k : κ) (f : α → α) : update key k f [] = [] :=
  rfl

@[simp] theorem length_update (k : κ) (f : α → α) (l : List α) :
    (update key k f l).length = l.length :=
  List.length_map _

/-- A field the write keeps reads the same along the whole queue. -/
theorem map_update {β : Type*} (g : α → β) {f : α → α} (hf : ∀ a, g (f a) = g a) (k : κ)
    (l : List α) : (update key k f l).map g = l.map g := by
  rw [update, List.map_map]
  refine List.map_congr_left fun a _ => ?_
  by_cases h : key a = k <;> simp [h, hf]

theorem mem_update {k : κ} {f : α → α} {l : List α} {b : α} :
    b ∈ update key k f l ↔ (b ∈ l ∧ key b ≠ k) ∨ ∃ a ∈ l, key a = k ∧ f a = b := by
  simp only [update, List.mem_map]
  constructor
  · rintro ⟨a, ha, rfl⟩
    by_cases h : key a = k
    · exact Or.inr ⟨a, ha, h, by simp [h]⟩
    · exact Or.inl (by simpa [h] using ha)
  · rintro (⟨hb, hk⟩ | ⟨a, ha, hk, rfl⟩)
    · exact ⟨b, hb, by simp [hk]⟩
    · exact ⟨a, ha, by simp [hk]⟩

/-- With distinct keys, writing to the element `a` replaces `a` by `f a` and keeps the
rest. -/
theorem mem_update_iff {l : List α} (hl : (l.map key).Nodup) {a : α} (ha : a ∈ l) (f : α → α)
    {b : α} : b ∈ update key (key a) f l ↔ (b ∈ l ∧ key b ≠ key a) ∨ b = f a := by
  rw [mem_update]
  constructor
  · rintro (h | ⟨a', ha', hk, rfl⟩)
    · exact Or.inl h
    · exact Or.inr (by rw [List.inj_on_of_nodup_map hl ha' ha hk])
  · rintro (h | rfl)
    · exact Or.inl h
    · exact Or.inr ⟨a, ha, rfl, rfl⟩

theorem mem_update_of_ne {l : List α} {k : κ} {f : α → α} {b : α} (hb : b ∈ l)
    (hk : key b ≠ k) : b ∈ update key k f l :=
  mem_update.2 (Or.inl ⟨hb, hk⟩)

omit [DecidableEq κ] in
/-- With distinct keys, a walk for a property that says which key to take finds the element. -/
theorem find?_eq_some_of_mem {l : List α} (hl : (l.map key).Nodup) {a : α} (ha : a ∈ l)
    {p : α → Bool} (hp : p a = true) (hkey : ∀ b, p b = true → key b = key a) :
    l.find? p = some a := by
  obtain ⟨b, hb⟩ := Option.isSome_iff_exists.1 (List.find?_isSome.2 ⟨a, ha, hp⟩)
  rw [hb, List.inj_on_of_nodup_map hl (List.mem_of_find?_eq_some hb) ha
    (hkey b (List.find?_some hb))]

omit [DecidableEq κ] in
/-- With distinct keys, unlinking the element `a` a walk stops at keeps the rest. -/
theorem mem_eraseP_iff {l : List α} (hl : (l.map key).Nodup) {p : α → Bool} {a b : α}
    (ha : l.find? p = some a) : b ∈ l.eraseP p ↔ b ∈ l ∧ key b ≠ key a := by
  obtain ⟨hpa, l₁, l₂, rfl, hl₁⟩ := List.find?_eq_some_iff_append.1 ha
  rw [List.eraseP_append_right _ fun b hb => by simpa using hl₁ b hb, List.eraseP_cons_of_pos hpa]
  have hne : ∀ b ∈ l₁ ++ l₂, key b ≠ key a := by
    rw [List.map_append, List.map_cons, List.nodup_middle, List.nodup_cons, ← List.map_append] at hl
    exact fun b hb h => hl.1 (h ▸ List.mem_map_of_mem hb)
  constructor
  · intro hb
    refine ⟨?_, hne b hb⟩
    rcases List.mem_append.1 hb with h | h <;> simp [h]
  · rintro ⟨hb, hk⟩
    simp only [List.mem_append, List.mem_cons] at hb ⊢
    rcases hb with h | rfl | h
    · exact Or.inl h
    · exact absurd rfl hk
    · exact Or.inr h

omit [DecidableEq κ] in
/-- Unlinking an element that the filter keeps. -/
theorem filter_eraseP_of_imp {p q : α → Bool} (h : ∀ a, p a = true → q a = true) :
    ∀ l : List α, (l.eraseP p).filter q = (l.filter q).eraseP p
  | [] => rfl
  | a :: l => by
    by_cases hp : p a = true
    · rw [List.eraseP_cons_of_pos hp, List.filter_cons_of_pos (h a hp), List.eraseP_cons_of_pos hp]
    · rw [List.eraseP_cons_of_neg hp]
      by_cases hq : q a = true
      · rw [List.filter_cons_of_pos hq, List.filter_cons_of_pos hq, List.eraseP_cons_of_neg hp,
          filter_eraseP_of_imp h l]
      · rw [List.filter_cons_of_neg hq, List.filter_cons_of_neg hq, filter_eraseP_of_imp h l]

omit [DecidableEq κ] in
/-- Unlinking an element that the filter drops. -/
theorem filter_eraseP_of_imp_not {p q : α → Bool} (h : ∀ a, p a = true → q a = false) :
    ∀ l : List α, (l.eraseP p).filter q = l.filter q
  | [] => rfl
  | a :: l => by
    by_cases hp : p a = true
    · rw [List.eraseP_cons_of_pos hp, List.filter_cons_of_neg (by simp [h a hp])]
    · rw [List.eraseP_cons_of_neg hp]
      by_cases hq : q a = true
      · rw [List.filter_cons_of_pos hq, List.filter_cons_of_pos hq, filter_eraseP_of_imp_not h l]
      · rw [List.filter_cons_of_neg hq, List.filter_cons_of_neg hq, filter_eraseP_of_imp_not h l]

/-- With distinct keys, the elements at other keys are what unlinking one key leaves. -/
theorem eraseP_eq_filter : ∀ {l : List α}, (l.map key).Nodup → ∀ k : κ,
    l.eraseP (key · == k) = l.filter (key · != k)
  | [], _, _ => rfl
  | a :: l, h, k => by
    rw [List.map_cons, List.nodup_cons] at h
    by_cases hk : key a = k
    · rw [List.eraseP_cons_of_pos (by simp [hk]), List.filter_cons_of_neg (by simp [hk])]
      refine (List.filter_eq_self.2 fun b hb => bne_iff_ne.2 ?_).symm
      rintro rfl
      exact h.1 (hk ▸ List.mem_map_of_mem hb)
    · rw [List.eraseP_cons_of_neg (by simp [hk]), List.filter_cons_of_pos (by simp [hk]),
        eraseP_eq_filter h.2]

end KernelModules.TailQueue
