import Mathlib.Data.List.Basic

/-!
# Ordered forests and their links

A finite ordered forest, given by its first tree and the rest. In memory it is given by links
(`Links`) : a node's first child, its next peer and its parent. `Forest.Linked` says that the
links describe the forest.

The node after a node in pre-order is its first child, else the next peer of the nearest node
above it that has one (`Links.Next`). Following `Next` from the first node of a linked forest
runs through the forest in pre-order, and then to where the climb from above it ends
(`Forest.Linked.follows`), so no node is there twice (`Follows.nodup`).
-/

namespace KernelModules

/-- A forest : a node with its children, and the trees after it. -/
inductive Forest (α : Type*) where
  | nil
  | cons (a : α) (children rest : Forest α)

/-- The links of nodes, and the value that stands for no node. -/
structure Links (α : Type*) where
  null : α
  child : α → α
  peer : α → α
  parent : α → α

namespace Forest

variable {α : Type*}

/-- The labels, each before those of its children. -/
def preorder : Forest α → List α
  | nil => []
  | cons a children rest => a :: (children.preorder ++ rest.preorder)

/-- The links describe the forest, whose trees hang under `up`. -/
def Linked (L : Links α) (up : α) : Forest α → Prop
  | nil => True
  | cons a children rest => a ≠ L.null ∧ L.child a = children.preorder.headD L.null ∧
      L.peer a = rest.preorder.headD L.null ∧ L.parent a = up ∧ children.Linked L a ∧
      rest.Linked L up

theorem Linked.ne_null {L : Links α} : ∀ {f : Forest α} {up : α}, f.Linked L up →
    ∀ a ∈ f.preorder, a ≠ L.null
  | nil, _, _, _, h => absurd h List.not_mem_nil
  | cons b children rest, up, ⟨hb, _, _, _, hchildren, hrest⟩, a, h => by
    rcases List.mem_cons.1 h with rfl | h
    · exact hb
    · rcases List.mem_append.1 h with h | h
      · exact hchildren.ne_null a h
      · exact hrest.ne_null a h

end Forest

namespace Links

variable {α : Type*} (L : Links α)

/-- The climb from `a` ends at `b` : the next peer of the nearest node that has one, from `a`
upwards, or no node. -/
inductive Above : α → α → Prop where
  | top : Above L.null L.null
  | peer {a : α} (ha : a ≠ L.null) (h : L.peer a ≠ L.null) : Above a (L.peer a)
  | up {a b : α} (ha : a ≠ L.null) (h : L.peer a = L.null) (hb : Above (L.parent a) b) : Above a b

/-- The node after `a` in pre-order. -/
inductive Next : α → α → Prop where
  | child {a : α} (h : L.child a ≠ L.null) : Next a (L.child a)
  | above {a b : α} (h : L.child a = L.null) (hb : L.Above a b) : Next a b

end Links

/-- Each element is related to the one after it, and the last one to `e`. -/
def Follows {α : Type*} (R : α → α → Prop) (e : α) : List α → Prop
  | [] => True
  | a :: l => R a (l.headD e) ∧ Follows R e l

section Follows

variable {α : Type*} {R : α → α → Prop} {e : α}

theorem headD_append (l₁ l₂ : List α) : (l₁ ++ l₂).headD e = l₁.headD (l₂.headD e) := by
  cases l₁ <;> rfl

theorem follows_append : ∀ {l₁ l₂ : List α}, Follows R (l₂.headD e) l₁ → Follows R e l₂ →
    Follows R e (l₁ ++ l₂)
  | [], _, _, h₂ => h₂
  | a :: l₁, l₂, h₁, h₂ => by
    have hhead := headD_append (e := e) l₁ l₂
    exact ⟨hhead ▸ h₁.1, follows_append h₁.2 h₂⟩

theorem Follows.of_suffix {l l' : List α} (h : Follows R e l) (hl : l' <:+ l) :
    Follows R e l' := by
  obtain ⟨l₁, rfl⟩ := hl
  induction l₁ with
  | nil => exact h
  | cons a l₁ ih => exact ih h.2

/-- If an element determines the next one, it determines the rest of the list up to `e`. -/
theorem Follows.unique (hR : ∀ a b c, R a b → R a c → b = c) : ∀ {l l' : List α} {a : α},
    Follows R e (a :: l) → Follows R e (a :: l') → e ∉ l → e ∉ l' → l = l'
  | [], [], _, _, _, _, _ => rfl
  | [], b :: l', a, h, h', _, he => by
    obtain rfl : e = b := hR a _ _ h.1 h'.1
    exact absurd List.mem_cons_self he
  | b :: l, [], a, h, h', he, _ => by
    obtain rfl : e = b := hR a _ _ h'.1 h.1
    exact absurd List.mem_cons_self he
  | b :: l, b' :: l', a, h, h', he, he' => by
    obtain rfl : b = b' := hR a _ _ h.1 h'.1
    have hrest := Follows.unique hR h.2 h'.2 (fun hmem => he (List.mem_cons_of_mem _ hmem))
      fun hmem => he' (List.mem_cons_of_mem _ hmem)
    rw [hrest]

/-- So no element comes twice : the list would not end. -/
theorem Follows.nodup (hR : ∀ a b c, R a b → R a c → b = c) : ∀ {l : List α}, Follows R e l →
    e ∉ l → l.Nodup
  | [], _, _ => List.nodup_nil
  | a :: l, h, he => by
    have he' : e ∉ l := fun hmem => he (List.mem_cons_of_mem _ hmem)
    refine List.nodup_cons.2 ⟨fun ha => ?_, h.2.nodup hR he'⟩
    obtain ⟨l₁, l₂, rfl⟩ := List.append_of_mem ha
    have hsuffix : a :: l₂ <:+ l₁ ++ a :: l₂ := List.suffix_append _ _
    have hlen := congrArg List.length (Follows.unique hR h (h.2.of_suffix hsuffix) he' fun hmem =>
      he' (hsuffix.subset (List.mem_cons_of_mem _ hmem)))
    rw [List.length_append, List.length_cons] at hlen
    omega

end Follows

/-- The nodes of a linked forest follow each other in pre-order. -/
theorem Forest.Linked.follows {α : Type*} {L : Links α} : ∀ {f : Forest α} {up e : α},
    f.Linked L up → L.Above up e → Follows L.Next e f.preorder
  | nil, _, _, _, _ => trivial
  | cons a children rest, up, e, ⟨ha, hchild, hpeer, hup, hchildren, hrest⟩, he => by
    -- The climb from `a` ends at the tree after it, or where the climb from above ends.
    have habove : L.Above a (rest.preorder.headD e) := by
      cases rest with
      | nil => exact .up ha hpeer (hup ▸ he)
      | cons b _ _ =>
        have hb : L.peer a ≠ L.null := hpeer ▸ hrest.1
        exact hpeer ▸ .peer ha hb
    refine ⟨?_, follows_append (hchildren.follows habove) (hrest.follows he)⟩
    rw [headD_append]
    cases children with
    | nil => exact .above hchild habove
    | cons c _ _ =>
      have hc : L.child a ≠ L.null := hchild ▸ hchildren.1
      exact hchild ▸ .child hc

end KernelModules
