import Mathlib.Data.List.Basic
import Mathlib.Data.List.Chain
import Mathlib.Data.List.Induction
import Mathlib.Data.List.Nodup

/-!
# Ledgers of acquisitions and releases

A ledger is a log of entries : a key is acquired on some terms, or released on some
terms. `holdings` reads off what is held after a ledger, in the order it was acquired.
A ledger is honoured (`Honoured`) if every release states the terms on which its key
was held at that point.

The last entry on a key says whether it is held (`exists_mem_holdings_iff`). A ledger is
consistent (`Consistent`) if only keys that are not held are acquired, and only keys that are held
are released. Then acquisitions and releases of a key alternate (`Consistent.alternates`).
-/

namespace KernelModules.Ledger

/-- An entry of a ledger : `k` is acquired, or released, on the terms `v`. -/
inductive Entry (κ ν : Type*) where
  | acquire (k : κ) (v : ν)
  | release (k : κ) (v : ν)
deriving DecidableEq

variable {κ ν : Type*} [DecidableEq κ]

/-- What is held after one more entry. -/
def post (h : List (κ × ν)) : Entry κ ν → List (κ × ν)
  | .acquire k v => h.filter (·.1 ≠ k) ++ [(k, v)]
  | .release k _ => h.filter (·.1 ≠ k)

/-- What is held after a ledger, each key with its terms, in order of acquisition. -/
def holdings (l : List (Entry κ ν)) : List (κ × ν) :=
  l.foldl post []

@[simp] theorem holdings_nil : holdings ([] : List (Entry κ ν)) = [] :=
  rfl

@[simp] theorem holdings_concat (l : List (Entry κ ν)) (e : Entry κ ν) :
    holdings (l ++ [e]) = post (holdings l) e := by
  simp [holdings]

theorem mem_post_acquire {h : List (κ × ν)} {k k' : κ} {v v' : ν} :
    (k', v') ∈ post h (.acquire k v) ↔ ((k', v') ∈ h ∧ k' ≠ k) ∨ (k' = k ∧ v' = v) := by
  simp [post]

theorem mem_post_release {h : List (κ × ν)} {k k' : κ} {v v' : ν} :
    (k', v') ∈ post h (.release k v) ↔ (k', v') ∈ h ∧ k' ≠ k := by
  simp [post]

/-- An entry of a log with one more entry is that one, or was made before. -/
theorem concat_prefix_concat_iff {α : Type*} {l₁ l : List α} {a b : α} :
    l₁ ++ [a] <+: l ++ [b] ↔ (l₁ = l ∧ a = b) ∨ l₁ ++ [a] <+: l := by
  rw [List.prefix_concat_iff, List.append_singleton_inj]

/-- Every release states the terms its key was held on. -/
def Honoured (l : List (Entry κ ν)) : Prop :=
  ∀ l₁ k v, l₁ ++ [.release k v] <+: l → (k, v) ∈ holdings l₁

theorem honoured_nil : Honoured ([] : List (Entry κ ν)) := by
  intro l₁ k v h
  simp at h

/-- An honoured ledger stays so with one more entry that states the terms it releases. -/
theorem Honoured.concat {l : List (Entry κ ν)} (h : Honoured l) {e : Entry κ ν}
    (he : ∀ k v, e = .release k v → (k, v) ∈ holdings l) : Honoured (l ++ [e]) := by
  intro l₁ k v hl
  rcases concat_prefix_concat_iff.1 hl with ⟨rfl, hentry⟩ | hpre
  · exact he k v hentry.symm
  · exact h l₁ k v hpre

/-- An entry that is not among the last ones of a log was made before them. -/
theorem prefix_of_prefix_append {α : Type*} {l tr : List α} {e : α} {evs : List α}
    (he : e ∉ evs) (h : tr ++ [e] <+: l ++ evs) : tr ++ [e] <+: l := by
  induction evs using List.reverseRecOn with
  | nil => simpa using h
  | append_singleton evs x ih =>
    simp only [List.mem_append, List.mem_singleton, not_or] at he
    rw [← List.append_assoc] at h
    rcases concat_prefix_concat_iff.1 h with ⟨-, heq⟩ | hpre
    · exact absurd heq he.2
    · exact ih he.1 hpre

/-! ## The entries on one key -/

/-- What an entry does with its key. -/
inductive Turn where
  | acquire
  | release
deriving DecidableEq, Repr

/-- The key of an entry. -/
def Entry.key : Entry κ ν → κ
  | .acquire k _ => k
  | .release k _ => k

/-- What an entry does. -/
def Entry.turn : Entry κ ν → Turn
  | .acquire _ _ => .acquire
  | .release _ _ => .release

/-- What the entries on the key `k` do, in order. -/
def turns (k : κ) (l : List (Entry κ ν)) : List Turn :=
  (l.filter (·.key = k)).map Entry.turn

@[simp] theorem turns_nil (k : κ) : turns k ([] : List (Entry κ ν)) = [] :=
  rfl

theorem turns_append (k : κ) (l₁ l₂ : List (Entry κ ν)) :
    turns k (l₁ ++ l₂) = turns k l₁ ++ turns k l₂ := by
  simp [turns]

theorem turns_concat_of_eq {k : κ} {e : Entry κ ν} (h : e.key = k) (l : List (Entry κ ν)) :
    turns k (l ++ [e]) = turns k l ++ [e.turn] := by
  simp [turns, h]

theorem turns_concat_of_ne {k : κ} {e : Entry κ ν} (h : e.key ≠ k) (l : List (Entry κ ν)) :
    turns k (l ++ [e]) = turns k l := by
  simp [turns, h]

/-- A key is held exactly if the last entry on it acquires it. -/
theorem exists_mem_holdings_iff {l : List (Entry κ ν)} {k : κ} :
    (∃ v, (k, v) ∈ holdings l) ↔ (turns k l).getLast? = some .acquire := by
  induction l using List.reverseRecOn with
  | nil => simp
  | append_singleton l e ih =>
    rw [holdings_concat]
    by_cases hk : e.key = k
    · rw [turns_concat_of_eq hk, List.getLast?_concat]
      subst hk
      cases e with
      | acquire k v => simp [post, Entry.key, Entry.turn]
      | release k v => simp [post, Entry.key, Entry.turn]
    · rw [turns_concat_of_ne hk, ← ih]
      refine exists_congr fun v => ?_
      cases e with
      | acquire k' v' =>
        rw [mem_post_acquire]
        exact ⟨fun h => (h.resolve_right fun h => hk h.1.symm).1, fun h => Or.inl ⟨h, Ne.symm hk⟩⟩
      | release k' v' =>
        rw [mem_post_release]
        exact and_iff_left (Ne.symm hk)

/-- Only keys that are not held are acquired, and only keys that are held are released. -/
def Consistent (l : List (Entry κ ν)) : Prop :=
  ∀ l₁ e, l₁ ++ [e] <+: l → ((∃ v, (e.key, v) ∈ holdings l₁) ↔ e.turn = .release)

theorem consistent_nil : Consistent ([] : List (Entry κ ν)) := by
  intro l₁ e h
  simp at h

theorem consistent_concat_iff {l : List (Entry κ ν)} {e : Entry κ ν} : Consistent (l ++ [e]) ↔
    Consistent l ∧ ((∃ v, (e.key, v) ∈ holdings l) ↔ e.turn = .release) := by
  constructor
  · exact fun h => ⟨fun l₁ e' hpre => h l₁ e' (hpre.trans (List.prefix_append _ _)),
      h l e (List.prefix_refl _)⟩
  · rintro ⟨h, he⟩ l₁ e' hl
    rcases concat_prefix_concat_iff.1 hl with ⟨rfl, rfl⟩ | hpre
    · exact he
    · exact h l₁ e' hpre

/-- Neighbours differ, and the first one is `x`. -/
def Alternates {α : Type*} (x : α) (l : List α) : Prop :=
  l.IsChain (· ≠ ·) ∧ ∀ y ∈ l.head?, y = x

theorem alternates_nil {α : Type*} (x : α) : Alternates x [] :=
  ⟨List.isChain_nil, by simp⟩

theorem Alternates.concat {α : Type*} {x a : α} {l : List α} (h : Alternates x l)
    (hlast : ∀ y ∈ l.getLast?, y ≠ a) (hfirst : l = [] → a = x) : Alternates x (l ++ [a]) := by
  refine ⟨h.1.append (List.isChain_singleton a) fun y hy z hz => ?_, fun y hy => ?_⟩
  · obtain rfl : a = z := by simpa using hz
    exact hlast y hy
  · cases l with
    | nil =>
      obtain rfl : a = y := by simpa using hy
      exact hfirst rfl
    | cons b l => exact h.2 y hy

theorem Alternates.map {α β : Type*} {f : α → β} (hf : Function.Injective f) {x : α} {l : List α}
    (h : Alternates x l) : Alternates (f x) (l.map f) := by
  refine ⟨(List.isChain_map f).2 (h.1.imp fun _ _ => hf.ne), fun y hy => ?_⟩
  rw [List.head?_map] at hy
  obtain ⟨z, hz, rfl⟩ := Option.map_eq_some_iff.1 hy
  rw [h.2 z hz]

/-- In a consistent ledger, the acquisitions and the releases of a key alternate. -/
theorem Consistent.alternates {l : List (Entry κ ν)} (h : Consistent l) (k : κ) :
    Alternates .acquire (turns k l) := by
  induction l using List.reverseRecOn with
  | nil => exact alternates_nil _
  | append_singleton l e ih =>
    obtain ⟨h, he⟩ := consistent_concat_iff.1 h
    by_cases hk : e.key = k
    · rw [turns_concat_of_eq hk]
      rw [hk, exists_mem_holdings_iff] at he
      refine (ih h).concat (fun y hy heq => ?_) fun hnil => ?_
      · -- the last entry on the key did the same
        rw [Option.mem_def.1 hy, Option.some.injEq, heq] at he
        cases hturn : e.turn with
        | acquire => exact absurd (he.1 hturn) (by simp [hturn])
        | release => exact absurd (he.2 hturn) (by simp [hturn])
      · cases hturn : e.turn with
        | acquire => rfl
        | release => exact absurd (he.2 hturn) (by simp [hnil])
    · rw [turns_concat_of_ne hk]
      exact ih h

end KernelModules.Ledger
