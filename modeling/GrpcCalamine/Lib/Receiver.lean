import Mathlib.Data.List.Infix
/-!
# Receivers of events

A receiver takes events one at a time and may refuse one: `take` says where an
event leads from a state, if it is taken. `run` takes a list of them, and
`Takes` says where a list leads: stretches of it compose (`Takes.append`), and
what comes first in a list that is taken is taken (`Takes.initial`).
-/

namespace Receiver

variable {C E : Type} {take : C → E → Option C}

/-- The state after a list of events, if none of them is refused. -/
def run (take : C → E → Option C) (c : C) : List E → Option C
  | [] => some c
  | e :: es => (take c e).bind fun c' => run take c' es

@[simp] theorem run_nil (c : C) : run take c [] = some c := rfl

theorem run_cons (c : C) (e : E) (es : List E) : run take c (e :: es) = (take c e).bind fun c' => run take c' es := rfl

theorem run_append (c : C) (es es' : List E) :
    run take c (es ++ es') = (run take c es).bind fun c' => run take c' es' := by
  induction es generalizing c with
  | nil => rfl
  | cons e es ih =>
    rw [List.cons_append, run_cons, run_cons, Option.bind_assoc]
    congr 1
    funext c'
    exact ih c'

/-- From `c`, the events lead to a state with `P`. -/
def Takes (take : C → E → Option C) (c : C) (es : List E) (P : C → Prop) : Prop := ∃ c', run take c es = some c' ∧ P c'

theorem Takes.nil {P : C → Prop} {c : C} (h : P c) : Takes take c [] P := ⟨c, rfl, h⟩

theorem Takes.cons {P : C → Prop} {c c' : C} {e : E} {es : List E} (he : take c e = some c')
    (h : Takes take c' es P) : Takes take c (e :: es) P := by
  obtain ⟨c'', hr, hp⟩ := h
  exact ⟨c'', by rw [run_cons, he]; exact hr, hp⟩

theorem Takes.append {P Q : C → Prop} {c : C} {es es' : List E} (h : Takes take c es P)
    (h' : ∀ c', P c' → Takes take c' es' Q) : Takes take c (es ++ es') Q := by
  obtain ⟨c', hr, hp⟩ := h
  obtain ⟨c'', hr', hq⟩ := h' c' hp
  exact ⟨c'', by rw [run_append, hr]; exact hr', hq⟩

theorem Takes.mono {P Q : C → Prop} {c : C} {es : List E} (h : Takes take c es P) (hpq : ∀ c', P c' → Q c') :
    Takes take c es Q := by
  obtain ⟨c', hr, hp⟩ := h
  exact ⟨c', hr, hpq c' hp⟩

/-- A receiver that takes a list takes what comes first in it. -/
theorem Takes.initial {P : C → Prop} {c : C} {es es' : List E} (h : Takes take c es' P) (hpre : es <+: es') :
    Takes take c es fun _ => True := by
  obtain ⟨rest, rfl⟩ := hpre
  obtain ⟨c'', hr, -⟩ := h
  rw [run_append] at hr
  obtain ⟨c', hc, -⟩ := Option.bind_eq_some_iff.1 hr
  exact ⟨c', hc, trivial⟩

end Receiver
