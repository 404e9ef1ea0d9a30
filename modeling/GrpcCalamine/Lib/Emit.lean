import Mathlib.Algebra.Order.Ring.Nat
import Mathlib.Data.List.Infix
/-!
# Programs that send events

`Emit E α` is a program that sends events of type `E` one at a time and returns
an `α`. Each send is answered: `true` when the event was taken, `false` when
nobody takes events any more. The program chooses how to go on by the answer.

- `events` and `result`: the run in which every send is taken.
- `accepted`: the run under given answers.
- `Ensures`: whatever the answers, the events sent satisfy one property and
  the result another; `Ensures.bind` composes.
- `StopsIn`: the program ends at once when a send is refused, with a result
  that says so; `StopsIn.bind` and `StopsIn.bind_flag` compose. Such a program
  has, whatever the answers, sent a prefix of `events` (`accepted_initial`).
- `Alike`: two programs send the same, seen through a view of events, and the
  one's result is a function of the other's; `Alike.bind` composes.
-/

/-- A program that sends events of type `E` and returns an `α`. -/
inductive Emit (E α : Type) where
  | done (a : α)
  | send (e : E) (k : Bool → Emit E α)

namespace Emit

variable {E α β γ : Type}

/-- Run `p`, then the program `f` makes of its result. -/
def bind : Emit E α → (α → Emit E β) → Emit E β
  | done a, f => f a
  | send e k, f => send e fun b => (k b).bind f

instance : Monad (Emit E) where
  pure := done
  bind := bind

/-- Send one event and return the answer. -/
def ask (e : E) : Emit E Bool := send e done

@[simp] theorem pure_eq (a : α) : (pure a : Emit E α) = done a := rfl
@[simp] theorem done_bind (a : α) (f : α → Emit E β) : (done a >>= f) = f a := rfl
@[simp] theorem send_bind (e : E) (k : Bool → Emit E α) (f : α → Emit E β) :
    (send e k >>= f) = send e fun b => k b >>= f := rfl
@[simp] theorem ask_bind (e : E) (f : Bool → Emit E β) : (ask e >>= f) = send e f := rfl

theorem bind_assoc (p : Emit E α) (f : α → Emit E β) (g : β → Emit E γ) :
    p >>= f >>= g = p >>= fun a => f a >>= g := by
  induction p with
  | done a => rfl
  | send e k ih =>
    show send e (fun b => k b >>= f >>= g) = send e fun b => k b >>= fun a => f a >>= g
    congr 1
    funext b
    exact ih b

theorem bind_done (p : Emit E α) : p >>= done = p := by
  induction p with
  | done a => rfl
  | send e k ih =>
    show send e (fun b => k b >>= done) = send e k
    congr 1
    funext b
    exact ih b

instance : LawfulMonad (Emit E) := LawfulMonad.mk' (Emit E) bind_done (fun _ _ => rfl) bind_assoc

/-! ## Every send is taken -/

/-- The events sent when every send is taken. -/
def events : Emit E α → List E
  | done _ => []
  | send e k => e :: (k true).events

/-- What the program returns when every send is taken. -/
def result : Emit E α → α
  | done a => a
  | send _ k => (k true).result

@[simp] theorem events_done (a : α) : (done a : Emit E α).events = [] := rfl
@[simp] theorem events_send (e : E) (k : Bool → Emit E α) : (send e k).events = e :: (k true).events := rfl
@[simp] theorem result_done (a : α) : (done a : Emit E α).result = a := rfl
@[simp] theorem result_send (e : E) (k : Bool → Emit E α) : (send e k).result = (k true).result := rfl

@[simp] theorem events_bind (p : Emit E α) (f : α → Emit E β) :
    (p >>= f).events = p.events ++ (f p.result).events := by
  induction p with
  | done a => rfl
  | send e k ih => simp [ih]

@[simp] theorem result_bind (p : Emit E α) (f : α → Emit E β) : (p >>= f).result = (f p.result).result := by
  induction p with
  | done a => rfl
  | send e k ih => simp [ih]

/-! ## Given answers -/

/-- The events taken when the sends are answered by `ans`, in order. -/
def accepted : Emit E α → (Nat → Bool) → List E
  | done _, _ => []
  | send e k, ans =>
    if ans 0 then e :: (k true).accepted (fun n => ans (n + 1)) else (k false).accepted fun n => ans (n + 1)

/-- Whatever the answers, every event `p` sends satisfies `P`, and its result
`Q`. -/
def Ensures (P : E → Prop) (Q : α → Prop) : Emit E α → Prop
  | done a => Q a
  | send e k => P e ∧ ∀ b, Ensures P Q (k b)

theorem Ensures.mono {P P' : E → Prop} {Q Q' : α → Prop} (hP : ∀ e, P e → P' e) (hQ : ∀ a, Q a → Q' a)
    {p : Emit E α} (h : Ensures P Q p) : Ensures P' Q' p := by
  induction p with
  | done a => exact hQ a h
  | send e k ih => exact ⟨hP e h.1, fun b => ih b (h.2 b)⟩

theorem Ensures.bind {P : E → Prop} {R : α → Prop} {Q : β → Prop} {p : Emit E α} {f : α → Emit E β}
    (hp : Ensures P R p) (hf : ∀ a, R a → Ensures P Q (f a)) : Ensures P Q (p >>= f) := by
  induction p with
  | done a => exact hf a hp
  | send e k ih => exact ⟨hp.1, fun b => ih b (hp.2 b)⟩

theorem ensures_ask {P : E → Prop} {e : E} (h : P e) : Ensures P (fun _ => True) (ask e : Emit E Bool) :=
  ⟨h, fun _ => trivial⟩

theorem Ensures.accepted {P : E → Prop} {Q : α → Prop} {p : Emit E α} (h : Ensures P Q p) (ans : Nat → Bool) :
    ∀ e ∈ p.accepted ans, P e := by
  induction p generalizing ans with
  | done a => exact nofun
  | send e k ih =>
    unfold Emit.accepted
    split
    · exact List.forall_mem_cons.2 ⟨h.1, ih true (h.2 true) _⟩
    · exact ih false (h.2 false) _

theorem Ensures.result {P : E → Prop} {Q : α → Prop} {p : Emit E α} (h : Ensures P Q p) : Q p.result := by
  induction p with
  | done a => exact h
  | send e k ih => exact ih true (h.2 true)

theorem Ensures.events {P : E → Prop} {Q : α → Prop} {p : Emit E α} (h : Ensures P Q p) : ∀ e ∈ p.events, P e := by
  induction p with
  | done a => exact nofun
  | send e k ih => exact List.forall_mem_cons.2 ⟨h.1, ih true (h.2 true)⟩

/-- `p` ends as soon as a send is refused, with a result satisfying `bad`. -/
def StopsIn (bad : α → Prop) : Emit E α → Prop
  | done _ => True
  | send _ k => (∃ a, bad a ∧ k false = done a) ∧ StopsIn bad (k true)

/-- `p` ends as soon as a send is refused. -/
abbrev Stops (p : Emit E α) : Prop := StopsIn (fun _ => True) p

theorem StopsIn.mono {bad bad' : α → Prop} (hb : ∀ a, bad a → bad' a) {p : Emit E α} (h : StopsIn bad p) :
    StopsIn bad' p := by
  induction p with
  | done a => trivial
  | send e k ih =>
    obtain ⟨⟨a, ha, he⟩, ht⟩ := h
    exact ⟨⟨a, hb a ha, he⟩, ih true ht⟩

theorem StopsIn.stops {bad : α → Prop} {p : Emit E α} (h : StopsIn bad p) : Stops p :=
  h.mono fun _ _ => trivial

theorem stopsIn_ask (e : E) : StopsIn (· = false) (ask e : Emit E Bool) := ⟨⟨false, rfl, rfl⟩, trivial⟩

/-- Sequencing keeps the discipline when the second program ends at once on
the results the first one stops with. -/
theorem StopsIn.bind {bad : α → Prop} {bad' : β → Prop} {p : Emit E α} {f : α → Emit E β}
    (hp : StopsIn bad p) (hf : ∀ a, bad a → ∃ b, bad' b ∧ f a = done b) (hr : StopsIn bad' (f p.result)) :
    StopsIn bad' (p >>= f) := by
  induction p with
  | done a => exact hr
  | send e k ih =>
    obtain ⟨⟨a, ha, he⟩, ht⟩ := hp
    obtain ⟨b, hb, hfb⟩ := hf a ha
    refine ⟨⟨b, hb, ?_⟩, ih true ht hr⟩
    show k false >>= f = done b
    rw [he, done_bind, hfb]

/-- Sequencing after a program that says by a flag whether it was stopped. -/
theorem StopsIn.bind_flag {bad : γ → Prop} {p : Emit E (Bool × β)} {f : Bool × β → Emit E γ}
    (hp : StopsIn (·.1 = false) p) (hstop : ∀ b, ∃ c, bad c ∧ f (false, b) = done c)
    (hgo : ∀ b, StopsIn bad (f (true, b))) : StopsIn bad (p >>= f) := by
  apply hp.bind
  · rintro ⟨ok, b⟩ hok
    cases hok
    exact hstop b
  · obtain ⟨ok, b⟩ := p.result
    cases ok with
    | true => exact hgo b
    | false =>
      obtain ⟨c, -, hf⟩ := hstop b
      rw [hf]
      trivial

/-- Whatever the answers, a program that stops on a refusal has sent a prefix
of what it sends when every send is taken. -/
theorem Stops.accepted_initial {p : Emit E α} (h : Stops p) (ans : Nat → Bool) : p.accepted ans <+: p.events := by
  induction p generalizing ans with
  | done a => exact List.prefix_rfl
  | send e k ih =>
    obtain ⟨⟨a, -, he⟩, ht⟩ := h
    simp only [accepted, events_send]
    split
    · exact List.prefix_cons_inj e |>.2 (ih true ht _)
    · rw [he]; exact List.nil_prefix

/-! ## Two programs in step -/

/-- Every send taken, `p` and `q` send the same once each event is replaced by
what `view` makes of it, and `q`'s result is what `f` makes of `p`'s. -/
structure Alike (view : E → List E) (f : α → β) (p : Emit E α) (q : Emit E β) : Prop where
  events : p.events.flatMap view = q.events.flatMap view
  result : q.result = f p.result

section alike
variable {view : E → List E} {f : α → β}

theorem Alike.done (a : α) : Alike view f (done a) (done (f a)) := ⟨rfl, rfl⟩

theorem Alike.refl (view : E → List E) (p : Emit E α) : Alike view id p p := ⟨rfl, rfl⟩

theorem Alike.bind {α' β' : Type} {g : α' → β'} {p : Emit E α} {q : Emit E β} {k : α → Emit E α'} {k' : β → Emit E β'}
    (h : Alike view f p q) (hk : ∀ a, Alike view g (k a) (k' (f a))) : Alike view g (p >>= k) (q >>= k') where
  events := by
    rw [events_bind, events_bind, List.flatMap_append, List.flatMap_append, h.events, h.result, (hk p.result).events]
  result := by rw [result_bind, result_bind, h.result, (hk p.result).result]

end alike

end Emit
