import GrpcCalamine.Lib.Transition
import Mathlib.Algebra.BigOperators.Group.List.Basic
import Mathlib.Algebra.Order.Ring.Nat
/-!
# Members that share permits

A pool gives each member it admits one permit, and a member gives it back at
some step of its own. In the pool a member does what it does by itself
(`Kind.reached_alone`), no permit is lost or made up (`Kind.reached_inv`), and
where no member by itself can go on for ever, neither can the pool
(`Kind.inevitable`).
-/

namespace Slots

variable {σ : Type}

/-- The permits left, and every member there has been. -/
structure Pool (σ : Type) where
  free : Nat
  members : List σ

/-- How a member starts and moves, what it keeps to, and the permits it
holds. -/
structure Kind (σ : Type) where
  Fresh : σ → Prop
  Step : σ → σ → Prop
  Ok : σ → Prop
  held : σ → Nat
  fresh : ∀ m, Fresh m → Ok m ∧ held m = 1
  step : ∀ m m', Ok m → Step m m' → Ok m' ∧ held m' ≤ held m

/-- One element of a list replaced. -/
theorem sum_map_set {α : Type} (f : α → Nat) {l : List α} {i : Nat} {x : α} (h : l[i]? = some x) (y : α) :
    ((l.set i y).map f).sum + f x = (l.map f).sum + f y := by
  induction l generalizing i with
  | nil => cases h
  | cons a l ih =>
    cases i with
    | zero =>
      cases h
      simp only [List.set_cons_zero, List.map_cons, List.sum_cons]
      omega
    | succ i =>
      have hrest := ih h
      simp only [List.set_cons_succ, List.map_cons, List.sum_cons]
      omega

namespace Kind

variable (K : Kind σ)

/-- A member makes a step of `R`, and gives back what it no longer holds. -/
inductive Moves (R : σ → σ → Prop) : Pool σ → Pool σ → Prop where
  | move {s i m m'} : s.members[i]? = some m → R m m' →
      Moves R s ⟨s.free + (K.held m - K.held m'), s.members.set i m'⟩

/-- A pool at work: it admits while it has a permit, and its members move. -/
inductive Serves : Pool σ → Pool σ → Prop where
  | letIn {s free m} : s.free = free + 1 → K.Fresh m → Serves s ⟨free, s.members ++ [m]⟩
  | moves {s s'} : K.Moves K.Step s s' → Serves s s'

/-- A state of a pool of `slots` permits, whatever the interleaving. -/
def Reached (slots : Nat) (s : Pool σ) : Prop := Relation.ReflTransGen K.Serves ⟨slots, []⟩ s

/-- What a member comes to by itself. -/
def Alone (m : σ) : Prop := ∃ m₀, K.Fresh m₀ ∧ Relation.ReflTransGen K.Step m₀ m

/-- The permits all members hold. -/
def heldBy (members : List σ) : Nat := (members.map K.held).sum

/-- The members are as they may be, and hold the permits the pool does not
have. -/
structure Inv (slots : Nat) (s : Pool σ) : Prop where
  ok : ∀ m ∈ s.members, K.Ok m
  slots : s.free + K.heldBy s.members = slots

variable {K} {s s' : Pool σ} {R : σ → σ → Prop} {slots : Nat}

/-- What every member has, and a member's step keeps. -/
theorem Moves.forall_mem {I : σ → Prop} (hstep : ∀ m m', I m → R m m' → I m') (hI : ∀ m ∈ s.members, I m)
    (h : K.Moves R s s') : ∀ m ∈ s'.members, I m := by
  cases h with
  | @move i m m' hi hm =>
    intro x hx
    rcases List.mem_or_eq_of_mem_set hx with hx | rfl
    · exact hI x hx
    · exact hstep m x (hI m (List.mem_of_getElem? hi)) hm

/-- What every member has, and one that starts. -/
theorem forall_mem_concat {I : σ → Prop} {members : List σ} {m : σ} (hI : ∀ m ∈ members, I m) (hm : I m) :
    ∀ x ∈ members ++ [m], I x := by
  intro x hx
  rcases List.mem_append.1 hx with hx | hx
  · exact hI x hx
  · exact List.mem_singleton.1 hx ▸ hm

theorem Inv.moves (hR : ∀ m m', R m m' → K.Step m m') (hinv : K.Inv slots s) (h : K.Moves R s s') :
    K.Inv slots s' := by
  refine ⟨h.forall_mem (fun m m' hok hm => (K.step m m' hok (hR m m' hm)).1) hinv.ok, ?_⟩
  cases h with
  | @move i m m' hi hm =>
    have hle := (K.step m m' (hinv.ok m (List.mem_of_getElem? hi)) (hR m m' hm)).2
    have hsum := sum_map_set K.held hi m'
    have hslots := hinv.slots
    simp only [heldBy] at hslots ⊢
    omega

theorem reached_inv (h : K.Reached slots s) : K.Inv slots s := by
  refine Transition.invariant ⟨?_, rfl⟩ ?_ h
  · intro m hm
    cases hm
  · intro s s' hinv hstep
    cases hstep with
    | @letIn free m hfree hfresh =>
      obtain ⟨hok, hone⟩ := K.fresh m hfresh
      refine ⟨forall_mem_concat hinv.ok hok, ?_⟩
      have hslots := hinv.slots
      simp only [heldBy] at hslots
      simp only [heldBy, List.map_append, List.map_cons, List.map_nil, List.sum_append, List.sum_singleton, hone]
      omega
    | moves hmoves => exact hinv.moves (fun _ _ hm => hm) hmoves

/-- What a member may be by itself, it may be in the pool, and nothing else. -/
theorem reached_alone (h : K.Reached slots s) : ∀ m ∈ s.members, K.Alone m := by
  refine Transition.invariant (I := fun s => ∀ m ∈ s.members, K.Alone m) ?_ ?_ h
  · intro m hm
    cases hm
  · intro s s' hI hstep
    cases hstep with
    | letIn hfree hfresh => exact forall_mem_concat hI ⟨_, hfresh, .refl⟩
    | moves hmoves =>
      refine hmoves.forall_mem ?_ hI
      rintro m m' ⟨m₀, hfresh, hrun⟩ hm
      exact ⟨m₀, hfresh, hrun.tail hm⟩

/-- With no more admitted, a pool comes to where every member has come to its
end, and has all its permits again if its members end without one. -/
theorem inevitable {P : σ → Prop} (μ : σ → Nat) (hR : ∀ m m', R m m' → K.Step m m')
    (hμ : ∀ m m', R m m' → μ m' < μ m) (hend : ∀ m, K.Ok m → Transition.Stuck R m → P m)
    (hheld : ∀ m, P m → K.held m = 0) (hinv : K.Inv slots s) :
    Transition.Inevitable (K.Moves R) (fun s => s.free = slots ∧ ∀ m ∈ s.members, P m) s := by
  refine Transition.inevitable (I := K.Inv slots) (fun s => (s.members.map μ).sum) ?_ ?_ ?_ hinv
  · rintro s s' hmoves
    cases hmoves with
    | @move i m m' hi hm =>
      have hless := hμ m m' hm
      have hsum := sum_map_set μ hi m'
      simp only
      omega
  · intro s s' hinv hmoves
    exact hinv.moves hR hmoves
  · intro s hinv hstuck
    have hP : ∀ m ∈ s.members, P m := by
      intro m hm
      obtain ⟨i, hi⟩ := List.mem_iff_getElem?.1 hm
      apply hend m (hinv.ok m hm)
      intro m' hm'
      exact hstuck _ (.move hi hm')
    have hnone : K.heldBy s.members = 0 := by
      apply List.sum_eq_zero
      intro n hn
      obtain ⟨m, hm, rfl⟩ := List.mem_map.1 hn
      exact hheld m (hP m hm)
    have hslots := hinv.slots
    refine ⟨?_, hP⟩
    omega

end Kind

end Slots
