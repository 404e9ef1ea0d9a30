import Mathlib.Logic.Relation
/-!
# Runs of a transition relation

The invariant rule, for runs and for runs that list what each step does, and
what no run can put off for ever: `Inevitable` holds where every run comes to a
state with the property, and follows from a measure that every step lowers.
-/

namespace Transition

variable {σ : Type} {Step : σ → σ → Prop}

/-- What holds at the start and is kept by every step holds of every state
reached. -/
theorem invariant {I : σ → Prop} {s₀ s : σ} (h₀ : I s₀) (hstep : ∀ s s', I s → Step s s' → I s')
    (h : Relation.ReflTransGen Step s₀ s) : I s := by
  induction h with
  | refl => exact h₀
  | tail _ hs ih => exact hstep _ _ ih hs

/-- A run from `s`, with the effect of each of its steps. -/
inductive Run {ε : Type} (Step : σ → ε → σ → Prop) (s : σ) : List ε → σ → Prop where
  | start : Run Step s [] s
  | step {es s' e s''} : Run Step s es s' → Step s' e s'' → Run Step s (es ++ [e]) s''

/-- The invariant rule for a run and what it has done so far. -/
theorem Run.invariant {ε : Type} {Step : σ → ε → σ → Prop} {I : List ε → σ → Prop} {s₀ s : σ} {es : List ε}
    (h₀ : I [] s₀) (hstep : ∀ es s e s', I es s → Step s e s' → I (es ++ [e]) s') (h : Run Step s₀ es s) : I es s := by
  induction h with
  | start => exact h₀
  | step _ hs ih => exact hstep _ _ _ _ ih hs

/-- The last step of a run. -/
theorem Run.last {ε : Type} {Step : σ → ε → σ → Prop} {s₀ s : σ} {es : List ε} {e : ε}
    (h : Run Step s₀ (es ++ [e]) s) : ∃ s', Run Step s₀ es s' ∧ Step s' e s := by
  generalize hes : es ++ [e] = es' at h
  cases h with
  | start => exact absurd hes (by simp)
  | step hrun hstep =>
    obtain ⟨rfl, he⟩ := List.append_inj' hes rfl
    cases he
    exact ⟨_, hrun, hstep⟩

/-- No step leads on from here. -/
def Stuck (Step : σ → σ → Prop) (s : σ) : Prop := ∀ s', ¬ Step s s'

/-- Every run from here comes to a state with `P`. -/
inductive Inevitable (Step : σ → σ → Prop) (P : σ → Prop) : σ → Prop where
  | here {s} : P s → Inevitable Step P s
  | next {s} : (∃ s', Step s s') → (∀ s', Step s s' → Inevitable Step P s') → Inevitable Step P s

/-- Where every step lowers a measure, what holds at the end of every run is
inevitable. -/
theorem inevitable {I P : σ → Prop} (μ : σ → Nat) (hμ : ∀ s s', Step s s' → μ s' < μ s)
    (hstep : ∀ s s', I s → Step s s' → I s') (hend : ∀ s, I s → Stuck Step s → P s) {s : σ} (h : I s) :
    Inevitable Step P s := by
  induction hn : μ s using Nat.strongRecOn generalizing s with
  | ind n ih =>
    by_cases hs : Stuck Step s
    · exact .here (hend s h hs)
    · have hgo : ∃ s', Step s s' := by simpa [Stuck] using hs
      exact .next hgo fun s' h' => ih (μ s') (hn ▸ hμ s s' h') (hstep s s' h h') rfl

/-- The steps of a run are no more than the measure it starts from. -/
theorem Run.length_le {ε : Type} {Step : σ → ε → σ → Prop} (μ : σ → Nat) (hμ : ∀ s e s', Step s e s' → μ s' < μ s)
    {s₀ s : σ} {es : List ε} (h : Run Step s₀ es s) : es.length + μ s ≤ μ s₀ := by
  induction h with
  | start => simp
  | step _ hs ih =>
    have hless := hμ _ _ _ hs
    simp only [List.length_append, List.length_singleton]
    omega

/-- What is inevitable where `f` leads is inevitable here, if each step here is
one there and there is one here whenever there is one there. -/
theorem Inevitable.lift {τ : Type} {Step' : τ → τ → Prop} {I : τ → Prop} {P : σ → Prop} (f : τ → σ)
    (hstep : ∀ t t', I t → Step' t t' → I t' ∧ Step (f t) (f t'))
    (hgo : ∀ t s', I t → Step (f t) s' → ∃ t', Step' t t') {t : τ} (hI : I t) (h : Inevitable Step P (f t)) :
    Inevitable Step' (fun t => P (f t)) t := by
  generalize hs : f t = s at h
  induction h generalizing t with
  | here hP =>
    subst hs
    exact .here hP
  | next hnext _ ih =>
    subst hs
    obtain ⟨s', hs'⟩ := hnext
    refine .next (hgo t s' hI hs') ?_
    intro t' ht'
    obtain ⟨hI', hsim⟩ := hstep t t' hI ht'
    exact ih (f t') hsim hI' rfl

end Transition
