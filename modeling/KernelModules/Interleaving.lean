import Mathlib.Data.List.Basic

/-!
# Interleavings

Parties that act on one state : `step a s` is the state after the action `a`, or `none` if
`a` cannot be taken in `s`. A schedule is any list of actions, so what holds after every
schedule holds under every interleaving of the parties.

`runSchedule_preserves` is the rule for invariants. `runSchedule_reaches` is the rule for
progress : if some of the actions bring a goal nearer and no other action takes it away, then
every schedule with enough of them reaches it, whatever the other parties do in between.

`Along` is for schedules whose actions meet a condition each in the state it is taken in :
`runSchedule_preserves_along` is the rule for what only such actions keep, `Along.imp` the rule
for what the condition gives in every state that is passed.
-/

namespace KernelModules.Interleaving

variable {α σ : Type*} {step : α → σ → Option σ}

/-- Take the actions of a schedule one after the other. -/
def runSchedule (step : α → σ → Option σ) : List α → σ → Option σ
  | [], s => some s
  | a :: acts, s => (step a s).bind (runSchedule step acts)

/-- What every action keeps, every schedule keeps. -/
theorem runSchedule_preserves {I : σ → Prop} (hstep : ∀ {a s s'}, step a s = some s' → I s → I s') :
    ∀ {acts : List α} {s s' : σ}, runSchedule step acts s = some s' → I s → I s'
  | [], s, s', h, hs => by
    obtain rfl := Option.some.inj h
    exact hs
  | a :: acts, s, s', h, hs => by
    obtain ⟨s₁, ha, hacts⟩ := Option.bind_eq_some_iff.1 h
    exact runSchedule_preserves hstep hacts (hstep ha hs)

/-- If the actions of `p` lower the rank until the goal is reached, no action raises it
until then and no action leaves the goal, then a schedule with as many of them as the rank
reaches the goal. -/
theorem runSchedule_reaches (I goal : σ → Prop) (rank : σ → ℕ) {p : α → Bool}
    (hinv : ∀ {a s s'}, step a s = some s' → I s → I s')
    (hstay : ∀ {a s s'}, step a s = some s' → I s → goal s → goal s')
    (hzero : ∀ {s}, I s → rank s = 0 → goal s)
    (hrank : ∀ {a s s'}, step a s = some s' → I s → ¬ goal s →
      rank s' + (if p a then 1 else 0) ≤ rank s) :
    ∀ {acts : List α} {s s' : σ}, runSchedule step acts s = some s' → I s →
      goal s ∨ rank s ≤ acts.countP p → goal s'
  | [], s, s', h, hs, hg => by
    obtain rfl := Option.some.inj h
    exact hg.elim id fun hg => hzero hs (Nat.le_zero.1 hg)
  | a :: acts, s, s', h, hs, hg => by
    obtain ⟨s₁, ha, hacts⟩ := Option.bind_eq_some_iff.1 h
    refine runSchedule_reaches I goal rank hinv hstay hzero hrank hacts (hinv ha hs) ?_
    by_cases hgoal : goal s
    · exact Or.inl (hstay ha hs hgoal)
    · have hle := hrank ha hs hgoal
      have hcount := hg.resolve_left hgoal
      rw [List.countP_cons] at hcount
      exact Or.inr (by omega)

/-! ## Schedules under a condition -/

/-- Every action of the schedule meets `P` in the state it is taken in. -/
def Along (step : α → σ → Option σ) (P : α → σ → Prop) : List α → σ → Prop
  | [], _ => True
  | a :: acts, s => P a s ∧ ∀ s', step a s = some s' → Along step P acts s'

/-- The condition can be checked along a schedule. -/
instance {P : α → σ → Prop} [∀ a s, Decidable (P a s)] :
    ∀ (acts : List α) (s : σ), Decidable (Along step P acts s)
  | [], _ => isTrue trivial
  | a :: acts, s =>
    match h : step a s with
    | none => decidable_of_iff (P a s) (by simp [Along, h])
    | some s' =>
      have := instDecidableAlong (P := P) acts s'
      decidable_of_iff (P a s ∧ Along step P acts s') (by simp [Along, h])

/-- What every action keeps that meets the condition, every schedule of such actions keeps. -/
theorem runSchedule_preserves_along {P : α → σ → Prop} {I : σ → Prop}
    (hstep : ∀ {a s s'}, step a s = some s' → P a s → I s → I s') :
    ∀ {acts : List α} {s s' : σ}, runSchedule step acts s = some s' → Along step P acts s →
      I s → I s'
  | [], s, s', h, _, hs => by
    obtain rfl := Option.some.inj h
    exact hs
  | a :: acts, s, s', h, hP, hs => by
    obtain ⟨s₁, ha, hacts⟩ := Option.bind_eq_some_iff.1 h
    exact runSchedule_preserves_along hstep hacts (hP.2 s₁ ha) (hstep ha hP.1 hs)

/-- If the condition gives `Q` under an invariant, for actions that can be taken, then every
action of a schedule that runs through meets `Q`. -/
theorem Along.imp {P Q : α → σ → Prop} {I : σ → Prop}
    (hstep : ∀ {a s s'}, step a s = some s' → P a s → I s → I s')
    (hQ : ∀ {a s s'}, step a s = some s' → I s → P a s → Q a s) :
    ∀ {acts : List α} {s s' : σ}, runSchedule step acts s = some s' → Along step P acts s → I s →
      Along step Q acts s
  | [], _, _, _, _, _ => trivial
  | a :: acts, s, s', h, hP, hs => by
    obtain ⟨s₁, ha, hacts⟩ := Option.bind_eq_some_iff.1 h
    refine ⟨hQ ha hs hP.1, fun s₂ ha' => ?_⟩
    obtain rfl := Option.some.inj (ha.symm.trans ha')
    exact (hP.2 s₁ ha).imp hstep hQ hacts (hstep ha hP.1 hs)

theorem along_append {P : α → σ → Prop} :
    ∀ {acts acts' : List α} {s s' : σ}, runSchedule step acts s = some s' →
      (Along step P (acts ++ acts') s ↔ Along step P acts s ∧ Along step P acts' s')
  | [], _, s, s', h => by
    obtain rfl := Option.some.inj h
    simp [Along]
  | a :: acts, acts', s, s', h => by
    obtain ⟨s₁, ha, hacts⟩ := Option.bind_eq_some_iff.1 h
    have hone : ∀ Q : σ → Prop, (∀ s', step a s = some s' → Q s') ↔ Q s₁ := by
      intro Q
      rw [ha]
      simp
    rw [List.cons_append, Along, Along, hone, hone, along_append hacts, and_assoc]

/-- The condition is met at every place of the schedule that is reached. -/
theorem along_iff {P : α → σ → Prop} :
    ∀ {acts : List α} {s : σ}, Along step P acts s ↔
      ∀ pre a post s', acts = pre ++ a :: post → runSchedule step pre s = some s' → P a s'
  | [], s => by simp [Along]
  | b :: acts, s => by
    constructor
    · rintro ⟨hb, hacts⟩ (_ | ⟨c, pre⟩) a post s' heq hrun
      · obtain rfl := Option.some.inj hrun
        rw [List.nil_append, List.cons.injEq] at heq
        exact heq.1 ▸ hb
      · rw [List.cons_append, List.cons.injEq] at heq
        obtain ⟨rfl, heq⟩ := heq
        obtain ⟨s₁, hstep, hrun⟩ := Option.bind_eq_some_iff.1 hrun
        exact along_iff.1 (hacts s₁ hstep) pre a post s' heq hrun
    · intro h
      refine ⟨h [] b acts s rfl rfl, fun s₁ hstep => along_iff.2 ?_⟩
      intro pre a post s' heq hrun
      refine h (b :: pre) a post s' (by rw [heq, List.cons_append]) ?_
      rw [runSchedule, hstep]
      exact hrun

theorem runSchedule_append (acts acts' : List α) (s : σ) :
    runSchedule step (acts ++ acts') s = (runSchedule step acts s).bind (runSchedule step acts') := by
  induction acts generalizing s with
  | nil => rfl
  | cons a acts ih =>
    rw [List.cons_append, runSchedule, runSchedule, Option.bind_assoc]
    exact congrArg _ (funext ih)

end KernelModules.Interleaving
