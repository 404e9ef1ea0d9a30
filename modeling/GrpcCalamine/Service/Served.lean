import GrpcCalamine.Service.Spawn
import GrpcCalamine.Service.Bodies
/-!
# A stream cut short never looks complete

`Inv` says where a served stream is: what the body has tried, what of it the
channel took, and who still has something to say. It holds of every state
reached from a body that stops at a refused send (`reached_inv`), and every run
comes to an end (`step_remaining`) at which the consumer has seen the whole
stream or a status.
-/

namespace GrpcCalamine

open Emit (Stops)

variable {T : Type}

/-- The item is an event. -/
def Item.isEvent : Item T → Bool
  | .event _ => true
  | .status _ => false

/-- What the supervisor has put on the channel. -/
def Supervisor.delivered : Supervisor → List (Item T)
  | .released (some st) => [.status st]
  | _ => []

/-- The status with which the supervisor has to end the stream. -/
def Due (s : Served T) (st : Status) : Prop :=
  (s.parser = .panicked ∧ st.code = .internal) ∨ s.parser = .returned (some st)

/-- The body was refused a send, by a stalled consumer or by one that is
gone, and `reason` says which. -/
def Refused (s : Served T) (reason : Option Status) : Prop :=
  (s.timedOut = true ∧ reason = some stallStatus) ∨ (s.timedOut = false ∧ reason = none ∧ s.consumer ≠ .reading)

/-- Every send so far was taken, and `p` is left to run. -/
structure Taken (body : Stream T Unit) (acc : List (Item T)) (s : Served T) (p : Stream T Unit) : Prop where
  all : s.tried = acc
  rest : acc ++ p.events = body.events
  stops : Stops p
  unstalled : s.timedOut = false

/-- Where the parser is, `acc` being what the channel took from it. -/
def ParserInv (body : Stream T Unit) (acc : List (Item T)) (s : Served T) : Prop :=
  match s.parser with
  | .entering b => b = body ∧ Taken body acc s b
  | .running p => (Taken body acc s p ∧ s.reason = none) ∨ (p = .done () ∧ Refused s s.reason)
  | .waiting i k => Taken body acc s (.send i k) ∧ s.reason = none
  | .returned stalled => (Taken body acc s (.done ()) ∧ stalled = none) ∨ Refused s stalled
  | .panicked => True

/-- What the supervisor is about, and what it gave back. -/
def SupervisorInv (s : Served T) : Prop :=
  match s.supervisor with
  | .joining => s.slots = 0
  | .sending st => s.slots = 0 ∧ Due s st
  | .released (some st) => s.slots = 1 ∧ Due s st
  | .released none => s.slots = 1 ∧ (s.parser = .returned none ∨ s.consumer ≠ .reading ∧ ∃ st, Due s st)

def ConsumerInv (body : Stream T Unit) (s : Served T) : Prop :=
  match s.consumer with
  | .reading | .left => ∀ i ∈ s.received, i.isEvent = true
  | .answered => ∃ evs st, s.received = evs ++ [.status st] ∧ ∀ i ∈ evs, i.isEvent = true
  | .ended => (∀ i ∈ s.received, i.isEvent = true) ∧ s.received = body.events ∧ s.tried = body.events ∧
      s.parser = .returned none ∧ s.supervisor = .released none ∧ s.queue = []

structure Inv (body : Stream T Unit) (s : Served T) : Prop where
  tried : s.tried <+: body.events
  parser : ∃ acc, acc <+: s.tried ∧ s.received ++ s.queue = acc ++ s.supervisor.delivered ∧ ParserInv body acc s
  supervisor : SupervisorInv s
  consumer : ConsumerInv body s

theorem inv_start {body : Stream T Unit} (hb : Stops body) (stale : Option Status) :
    Inv body (Served.start body stale) :=
  ⟨List.nil_prefix, ⟨[], List.prefix_rfl, rfl, rfl, rfl, rfl, hb, rfl⟩, rfl, nofun⟩

/-! ## The parser's steps -/

/-- The body has neither returned nor panicked. -/
def Parser.atWork : Parser T → Bool
  | .entering _ | .running _ | .waiting _ _ => true
  | .returned _ | .panicked => false

section steps
variable {body : Stream T Unit} {s : Served T}

/-- Nothing is due while the parser is at work. -/
theorem not_due_of_atWork (hw : s.parser.atWork = true) (st : Status) : ¬ Due s st := by
  rintro (⟨hp, -⟩ | hp) <;> rw [hp] at hw <;> cases hw

/-- While the parser is at work the supervisor waits for it. -/
theorem Inv.joining (h : Inv body s) (hw : s.parser.atWork = true) : s.supervisor = .joining := by
  have hdue := not_due_of_atWork hw
  have hs := h.supervisor
  unfold SupervisorInv at hs
  cases hsup : s.supervisor with
  | joining => rfl
  | sending st =>
    rw [hsup] at hs
    exact absurd hs.2 (hdue st)
  | released sent =>
    rw [hsup] at hs
    cases sent with
    | some st => exact absurd hs.2 (hdue st)
    | none =>
      rcases hs.2 with hp | ⟨-, st, hd⟩
      · rw [hp] at hw
        cases hw
      · exact absurd hd (hdue st)

/-- Once the consumer has seen the end, the body has returned and the
supervisor is through. -/
theorem Inv.ended (h : Inv body s) (he : s.consumer = .ended) :
    s.parser = .returned none ∧ s.supervisor = .released none := by
  have hc := h.consumer
  unfold ConsumerInv at hc
  rw [he] at hc
  exact ⟨hc.2.2.2.1, hc.2.2.2.2.1⟩

/-- The consumer's side, when the consumer has not moved. -/
theorem ConsumerInv.moved {s' : Served T} (h : ConsumerInv body s) (hne : s.consumer ≠ .ended)
    (hc : s'.consumer = s.consumer) (hr : s'.received = s.received) : ConsumerInv body s' := by
  unfold ConsumerInv at h ⊢
  rw [hc, hr]
  cases hcons : s.consumer with
  | ended => exact absurd hcons hne
  | _ => rw [hcons] at h; exact h

/-- The log while the parser is at work: what the channel took from it. -/
theorem Inv.log (h : Inv body s) (hw : s.parser.atWork = true) :
    ∃ acc, acc <+: s.tried ∧ s.received ++ s.queue = acc ∧ ParserInv body acc s := by
  obtain ⟨acc, hacc, hlog, hp⟩ := h.parser
  rw [h.joining hw] at hlog
  exact ⟨acc, hacc, hlog.trans (List.append_nil _), hp⟩

/-- A body that runs has had every send taken, or has nothing left to do. -/
theorem Inv.running (h : Inv body s) {p : Stream T Unit} (hp : s.parser = .running p) :
    ∃ acc, acc <+: s.tried ∧ s.received ++ s.queue = acc ∧
      ((Taken body acc s p ∧ s.reason = none) ∨ (p = .done () ∧ Refused s s.reason)) := by
  obtain ⟨acc, hacc, hlog, hpi⟩ := h.log (by rw [hp]; rfl)
  unfold ParserInv at hpi
  rw [hp] at hpi
  exact ⟨acc, hacc, hlog, hpi⟩

/-- A body about to send has had every send taken. -/
theorem Inv.sending (h : Inv body s) {i : Item T} {k : Bool → Stream T Unit}
    (hp : s.parser = .running (.send i k) ∨ s.parser = .waiting i k) :
    ∃ acc, acc <+: s.tried ∧ s.received ++ s.queue = acc ∧ Taken body acc s (.send i k) ∧ s.reason = none := by
  rcases hp with hp | hp
  · obtain ⟨acc, hacc, hlog, hpi⟩ := h.running hp
    rcases hpi with hpi | ⟨hd, -⟩
    · exact ⟨acc, hacc, hlog, hpi⟩
    · cases hd
  · obtain ⟨acc, hacc, hlog, hpi⟩ := h.log (by rw [hp]; rfl)
    unfold ParserInv at hpi
    rw [hp] at hpi
    exact ⟨acc, hacc, hlog, hpi⟩

/-- A parser at work moves on; the supervisor waits and the consumer is as it
was. -/
theorem Inv.parser_step (h : Inv body s) {s' : Served T} (hw : s.parser.atWork = true)
    (hsup : s'.supervisor = s.supervisor) (hslots : s'.slots = s.slots) (hcons : s'.consumer = s.consumer)
    (hrec : s'.received = s.received) (htried : s'.tried <+: body.events)
    (hparser : ∃ acc, acc <+: s'.tried ∧ s'.received ++ s'.queue = acc ∧ ParserInv body acc s') : Inv body s' := by
  have hj := h.joining hw
  have hne : s.consumer ≠ .ended := by
    intro he
    rw [(h.ended he).1] at hw
    cases hw
  obtain ⟨acc, hacc, hlog, hp⟩ := hparser
  refine ⟨htried, ⟨acc, hacc, ?_, hp⟩, ?_, h.consumer.moved hne hcons hrec⟩
  · rw [hlog, hsup, hj]
    exact (List.append_nil _).symm
  · have hs := h.supervisor
    unfold SupervisorInv at hs ⊢
    rw [hsup, hj, hslots]
    rw [hj] at hs
    exact hs

/-- A send that is taken. -/
theorem Taken.next {acc : List (Item T)} {i : Item T} {k : Bool → Stream T Unit} {s' : Served T}
    (h : Taken body acc s (.send i k)) (ht : s'.tried = s.tried ++ [i]) (ho : s'.timedOut = s.timedOut) :
    Taken body (acc ++ [i]) s' (k true) where
  all := by rw [ht, h.all]
  rest := by rw [← h.rest]; simp
  stops := h.stops.2
  unstalled := ho.trans h.unstalled

theorem Taken.tried_concat {acc : List (Item T)} {i : Item T} {k : Bool → Stream T Unit}
    (h : Taken body acc s (.send i k)) : s.tried ++ [i] <+: body.events := by
  rw [h.all, ← h.rest]
  exact ⟨(k true).events, by simp⟩

/-- A send that is refused is the last. -/
theorem Taken.done_of_refused {acc : List (Item T)} {i : Item T} {k : Bool → Stream T Unit}
    (h : Taken body acc s (.send i k)) : k false = .done () := by
  obtain ⟨⟨u, -, hk⟩, -⟩ := h.stops
  exact hk

/-- The same, said of another state in which as much was tried. -/
theorem Taken.moved {acc : List (Item T)} {p : Stream T Unit} {s' : Served T} (h : Taken body acc s p)
    (ht : s'.tried = s.tried) (ho : s'.timedOut = s.timedOut) : Taken body acc s' p :=
  ⟨ht.trans h.all, h.rest, h.stops, ho.trans h.unstalled⟩

theorem inv_accept (h : Inv body s) {i : Item T} {k : Bool → Stream T Unit}
    (hp : s.parser = .running (.send i k) ∨ s.parser = .waiting i k) :
    Inv body { s with parser := .running (k true), queue := s.queue ++ [i], tried := s.tried ++ [i] } := by
  obtain ⟨acc, -, hlog, ht, hr⟩ := h.sending hp
  have hw : s.parser.atWork = true := by rcases hp with hp | hp <;> rw [hp] <;> rfl
  refine h.parser_step hw rfl rfl rfl rfl ht.tried_concat ⟨acc ++ [i], ?_, ?_, .inl ⟨?_, hr⟩⟩
  · rw [ht.all]
  · rw [← hlog, List.append_assoc]
  · exact ht.next rfl rfl

/-- A refused send, `reason` saying why. -/
theorem inv_refused (h : Inv body s) {i : Item T} {k : Bool → Stream T Unit}
    (hp : s.parser = .running (.send i k) ∨ s.parser = .waiting i k) {reason : Option Status} {out : Bool}
    (hr : s.reason = none → s.timedOut = false → Refused { s with timedOut := out } reason) :
    Inv body { s with parser := .running (k false), tried := s.tried ++ [i], timedOut := out, reason := reason } := by
  obtain ⟨acc, -, hlog, ht, hreason⟩ := h.sending hp
  have hw : s.parser.atWork = true := by rcases hp with hp | hp <;> rw [hp] <;> rfl
  refine h.parser_step hw rfl rfl rfl rfl ht.tried_concat ⟨acc, ?_, hlog, .inr ⟨?_, hr hreason ht.unstalled⟩⟩
  · rw [ht.all]
    exact List.prefix_append _ _
  · exact ht.done_of_refused

theorem inv_panic (h : Inv body s) (hw : s.parser.atWork = true) : Inv body { s with parser := .panicked } := by
  obtain ⟨acc, hacc, hlog, -⟩ := h.log hw
  exact h.parser_step hw rfl rfl rfl rfl h.tried ⟨acc, hacc, hlog, trivial⟩

/-! ## The supervisor's and the consumer's -/

/-- The parser's side, when the parser has not moved and the consumer is no
nearer to reading. -/
theorem ParserInv.moved {acc : List (Item T)} {s' : Served T} (h : ParserInv body acc s)
    (hp : s'.parser = s.parser) (ht : s'.tried = s.tried) (hr : s'.reason = s.reason)
    (ho : s'.timedOut = s.timedOut) (hc : s.consumer ≠ .reading → s'.consumer ≠ .reading) :
    ParserInv body acc s' := by
  have htaken : ∀ p, Taken body acc s p → Taken body acc s' p := fun p t => t.moved ht ho
  have hrefused : ∀ r, Refused s r → Refused s' r := by
    rintro r (⟨h₁, h₂⟩ | ⟨h₁, h₂, h₃⟩)
    · exact .inl ⟨ho.trans h₁, h₂⟩
    · exact .inr ⟨ho.trans h₁, h₂, hc h₃⟩
  unfold ParserInv at h ⊢
  rw [hp]
  cases hs : s.parser with
  | entering b =>
    rw [hs] at h
    exact ⟨h.1, htaken b h.2⟩
  | running p =>
    rw [hs] at h
    rcases h with ⟨h₁, h₂⟩ | ⟨h₁, h₂⟩
    · exact .inl ⟨htaken p h₁, hr.trans h₂⟩
    · exact .inr ⟨h₁, by rw [hr]; exact hrefused _ h₂⟩
  | waiting i k =>
    rw [hs] at h
    exact ⟨htaken _ h.1, hr.trans h.2⟩
  | returned stalled =>
    rw [hs] at h
    rcases h with ⟨h₁, h₂⟩ | h₂
    · exact .inl ⟨htaken _ h₁, h₂⟩
    · exact .inr (hrefused _ h₂)
  | panicked => trivial

/-- The supervisor's side, when it has not moved. -/
theorem SupervisorInv.moved {s' : Served T} (h : SupervisorInv s) (hs : s'.supervisor = s.supervisor)
    (hl : s'.slots = s.slots) (hp : s'.parser = s.parser) (hc : s.consumer ≠ .reading → s'.consumer ≠ .reading) :
    SupervisorInv s' := by
  have hdue : ∀ st, Due s st → Due s' st := by
    intro st hd
    unfold Due at hd ⊢
    rwa [hp]
  unfold SupervisorInv at h ⊢
  rw [hs, hl]
  cases hsup : s.supervisor with
  | joining =>
    rw [hsup] at h
    exact h
  | sending st =>
    rw [hsup] at h
    exact ⟨h.1, hdue st h.2⟩
  | released sent =>
    rw [hsup] at h
    cases sent with
    | some st => exact ⟨h.1, hdue st h.2⟩
    | none =>
      refine ⟨h.1, ?_⟩
      rcases h.2 with h' | ⟨h', st, hd⟩
      · exact .inl (hp.trans h')
      · exact .inr ⟨hc h', st, hdue st hd⟩

/-- The supervisor moves on from its `await` or its send, and the parser is
through. -/
theorem inv_supervisor (h : Inv body s) {sup : Supervisor} {slots : Nat} {queue : List (Item T)}
    (hbusy : ∀ sent, s.supervisor ≠ .released sent) (hqueue : queue = s.queue ++ sup.delivered)
    (hsup : SupervisorInv { s with supervisor := sup, slots := slots, queue := queue }) :
    Inv body { s with supervisor := sup, slots := slots, queue := queue } := by
  have hne : s.consumer ≠ .ended := fun he => hbusy none (h.ended he).2
  have hdel : s.supervisor.delivered = ([] : List (Item T)) := by
    cases hs : s.supervisor with
    | released sent => exact absurd hs (hbusy sent)
    | _ => rfl
  obtain ⟨acc, hacc, hlog, hp⟩ := h.parser
  refine ⟨h.tried, ⟨acc, hacc, ?_, hp.moved rfl rfl rfl rfl id⟩, hsup, h.consumer.moved hne rfl rfl⟩
  rw [hdel, List.append_nil] at hlog
  show s.received ++ queue = acc ++ sup.delivered
  rw [hqueue, ← List.append_assoc, hlog]

theorem inv_take (h : Inv body s) {i : Item T} {rest : List (Item T)} (hc : s.consumer = .reading)
    (hq : s.queue = i :: rest) :
    Inv body { s with queue := rest, received := s.received ++ [i], consumer := Consumer.after i } := by
  have hleave : s.consumer ≠ .reading → Consumer.after i ≠ .reading := fun hn => absurd hc hn
  obtain ⟨acc, hacc, hlog, hp⟩ := h.parser
  refine ⟨h.tried, ⟨acc, hacc, ?_, hp.moved rfl rfl rfl rfl hleave⟩, h.supervisor.moved rfl rfl rfl hleave, ?_⟩
  · rw [← hlog, hq]
    simp
  · have hcons := h.consumer
    unfold ConsumerInv at hcons ⊢
    rw [hc] at hcons
    cases i with
    | event e =>
      intro x hx
      rcases List.mem_append.1 hx with hx | hx
      · exact hcons x hx
      · rw [List.mem_singleton.1 hx]
        rfl
    | status st => exact ⟨s.received, st, rfl, hcons⟩

theorem inv_leave (h : Inv body s) (hc : s.consumer = .reading) : Inv body { s with consumer := .left } := by
  have hleave : s.consumer ≠ .reading → Consumer.left ≠ .reading := fun hn => absurd hc hn
  obtain ⟨acc, hacc, hlog, hp⟩ := h.parser
  refine ⟨h.tried, ⟨acc, hacc, hlog, hp.moved rfl rfl rfl rfl hleave⟩, h.supervisor.moved rfl rfl rfl hleave, ?_⟩
  have hcons := h.consumer
  unfold ConsumerInv at hcons ⊢
  rw [hc] at hcons
  exact hcons

/-- With nothing left to run, the channel has taken the whole body. -/
theorem Taken.whole {acc : List (Item T)} (h : Taken body acc s (.done ())) : acc = body.events := by
  simpa using h.rest

/-- A body that returned with no stall was taken whole, unless the consumer was
gone. -/
theorem ParserInv.returned {acc : List (Item T)} (h : ParserInv body acc s) (hret : s.parser = .returned none) :
    Taken body acc s (.done ()) ∨ s.consumer ≠ .reading := by
  unfold ParserInv at h
  rw [hret] at h
  rcases h with ⟨ht, -⟩ | ⟨-, hn⟩ | ⟨-, -, hgone⟩
  · exact .inl ht
  · cases hn
  · exact .inr hgone

/-- At the end of the stream the supervisor has had nothing to report, so the
body has returned and every send of it was taken. -/
theorem inv_seeEnd (h : Inv body s) {sent : Option Status} (hc : s.consumer = .reading) (hq : s.queue = [])
    (hsup : s.supervisor = .released sent) : Inv body { s with consumer := .ended } := by
  have hleave : s.consumer ≠ .reading → Consumer.ended ≠ .reading := fun hn => absurd hc hn
  have hcons := h.consumer
  have hs := h.supervisor
  unfold ConsumerInv at hcons
  unfold SupervisorInv at hs
  rw [hc] at hcons
  rw [hsup] at hs
  obtain ⟨acc, hacc, hlog, hp⟩ := h.parser
  rw [hq, List.append_nil, hsup] at hlog
  cases sent with
  | some st =>
    -- a consumer still reading has been given no status
    have := hcons (.status st) (by rw [hlog]; simp [Supervisor.delivered])
    cases this
  | none =>
    have hret : s.parser = .returned none := by
      rcases hs.2 with hr | ⟨hn, -⟩
      · exact hr
      · exact absurd hc hn
    have htaken : Taken body acc s (.done ()) := by
      rcases hp.returned hret with ht | hn
      · exact ht
      · exact absurd hc hn
    have hrec : s.received = body.events := by
      rw [hlog, ← htaken.whole]
      exact List.append_nil _
    refine ⟨h.tried, ⟨acc, hacc, ?_, hp.moved rfl rfl rfl rfl hleave⟩, h.supervisor.moved rfl rfl rfl hleave, hcons,
      hrec, htaken.all.trans htaken.whole, hret, hsup, hq⟩
    show s.received ++ s.queue = acc ++ s.supervisor.delivered
    rw [hq, List.append_nil, hsup]
    exact hlog

theorem inv_step (s s' : Served T) (h : Inv body s) (hstep : Step s s') : Inv body s' := by
  have hs := h.supervisor
  unfold SupervisorInv at hs
  cases hstep with
  | enter hp =>
    have hw : s.parser.atWork = true := by rw [hp]; rfl
    obtain ⟨acc, hacc, hlog, hpi⟩ := h.log hw
    unfold ParserInv at hpi
    rw [hp] at hpi
    -- what the thread's last body left as a reason is cleared before this one runs
    exact h.parser_step hw rfl rfl rfl rfl h.tried ⟨acc, hacc, hlog, .inl ⟨hpi.2.moved rfl rfl, rfl⟩⟩
  | accept hp hc hroom => exact inv_accept h (.inl hp)
  | acceptLate hp hc hroom => exact inv_accept h (.inr hp)
  | refuse hp hc =>
    apply inv_refused h (.inl hp)
    intro hr ho
    exact .inr ⟨ho, hr, hc⟩
  | refuseLate hp hc =>
    apply inv_refused h (.inr hp)
    intro hr ho
    exact .inr ⟨ho, hr, hc⟩
  | timeout hp =>
    apply inv_refused h (.inr hp)
    intro hr ho
    rw [hr]
    exact .inl ⟨rfl, rfl⟩
  | block hp hc hfull =>
    obtain ⟨acc, hacc, hlog, ht, hr⟩ := h.sending (.inl hp)
    have hw : s.parser.atWork = true := by rw [hp]; rfl
    exact h.parser_step hw rfl rfl rfl rfl h.tried ⟨acc, hacc, hlog, ht.moved rfl rfl, hr⟩
  | finish hp =>
    obtain ⟨acc, hacc, hlog, hpi⟩ := h.running hp
    have hw : s.parser.atWork = true := by rw [hp]; rfl
    refine h.parser_step hw rfl rfl rfl rfl h.tried ⟨acc, hacc, hlog, ?_⟩
    rcases hpi with ⟨ht, hr⟩ | ⟨-, hr⟩
    · exact .inl ⟨ht.moved rfl rfl, hr⟩
    · exact .inr hr
  | panicRunning hp => exact inv_panic h (by rw [hp]; rfl)
  | panicWaiting hp => exact inv_panic h (by rw [hp]; rfl)
  | join hsup hp =>
    rw [hsup] at hs
    exact inv_supervisor h (by simp [hsup]) (List.append_nil _).symm ⟨by rw [hs], .inl hp⟩
  | joinStalled hsup hp =>
    rw [hsup] at hs
    exact inv_supervisor h (by simp [hsup]) (List.append_nil _).symm ⟨hs, .inr hp⟩
  | joinPanicked detail hsup hp =>
    rw [hsup] at hs
    exact inv_supervisor h (by simp [hsup]) (List.append_nil _).symm ⟨hs, .inl ⟨hp, rfl⟩⟩
  | report hsup hc hroom =>
    rw [hsup] at hs
    exact inv_supervisor h (by simp [hsup]) rfl ⟨by rw [hs.1], hs.2⟩
  | unreported hsup hc =>
    rw [hsup] at hs
    exact inv_supervisor h (by simp [hsup]) (List.append_nil _).symm ⟨by rw [hs.1], .inr ⟨hc, _, hs.2⟩⟩
  | take hc hq => exact inv_take h hc hq
  | leave hc => exact inv_leave h hc
  | seeEnd hc hq hsup => exact inv_seeEnd h hc hq hsup

theorem reached_inv {stale : Option Status} (hb : Stops body) (h : Reached body stale s) : Inv body s :=
  Transition.invariant (inv_start hb stale) inv_step h

end steps

/-! ## Every run ends -/

/-- How many sends a program has left at most. -/
def depth : Stream T Unit → Nat
  | .done _ => 0
  | .send _ k => 1 + max (depth (k true)) (depth (k false))

def Parser.remaining : Parser T → Nat
  | .entering p => 3 * depth p + 4
  | .running p => 3 * depth p + 3
  | .waiting _ k => 3 * max (depth (k true)) (depth (k false)) + 5
  | .returned _ | .panicked => 0

def Supervisor.remaining : Supervisor → Nat
  | .joining => 4
  | .sending _ => 3
  | .released _ => 0

def Consumer.remaining : Consumer → Nat
  | .reading => 1
  | _ => 0

/-- What is left of a run: each step uses some of it up. -/
def Served.remaining (s : Served T) : Nat :=
  s.parser.remaining + s.supervisor.remaining + s.queue.length + s.consumer.remaining

theorem Consumer.remaining_after (i : Item T) : (Consumer.after i).remaining ≤ 1 := by
  cases i <;> simp [after, remaining]

theorem step_remaining (s s' : Served T) (h : Step s s') : s'.remaining < s.remaining := by
  cases h with
  | enter hp => simp [Served.remaining, hp, Parser.remaining]
  | accept hp =>
    simp only [Served.remaining, hp, Parser.remaining, depth, List.length_append, List.length_singleton]
    omega
  | acceptLate hp =>
    simp only [Served.remaining, hp, Parser.remaining, List.length_append, List.length_singleton]
    omega
  | refuse hp => simp only [Served.remaining, hp, Parser.remaining, depth]; omega
  | refuseLate hp => simp only [Served.remaining, hp, Parser.remaining]; omega
  | timeout hp => simp only [Served.remaining, hp, Parser.remaining]; omega
  | block hp => simp only [Served.remaining, hp, Parser.remaining, depth]; omega
  | finish hp => simp [Served.remaining, hp, Parser.remaining]
  | panicRunning hp => simp only [Served.remaining, hp, Parser.remaining]; omega
  | panicWaiting hp => simp only [Served.remaining, hp, Parser.remaining]; omega
  | join hs => simp only [Served.remaining, hs, Supervisor.remaining]; omega
  | joinStalled hs => simp [Served.remaining, hs, Supervisor.remaining]
  | joinPanicked detail hs => simp [Served.remaining, hs, Supervisor.remaining]
  | report hs =>
    simp only [Served.remaining, hs, Supervisor.remaining, List.length_append, List.length_singleton]
    omega
  | unreported hs => simp only [Served.remaining, hs, Supervisor.remaining]; omega
  | @take i rest hc hq =>
    have := Consumer.remaining_after i
    have hread : s.consumer.remaining = 1 := by rw [hc]; rfl
    simp only [Served.remaining, hread, hq, List.length_cons]
    omega
  | leave hc => simp [Served.remaining, hc, Consumer.remaining]
  | seeEnd hc => simp [Served.remaining, hc, Consumer.remaining]

/-! ## A consumer that keeps reading -/

/-- Any step but the consumer's leaving. -/
def Stays (s s' : Served T) : Prop := Step s s' ∧ (s'.consumer = .left → s.consumer = .left)

theorem stays_of_eq {s s' : Served T} (h : Step s s') (hc : s'.consumer = s.consumer) : Stays s s' :=
  ⟨h, fun hl => hc.symm.trans hl⟩

/-- While the consumer reads, something can happen other than its leaving. -/
theorem exists_stays_of_reading {s : Served T} (hc : s.consumer = .reading) : ∃ s', Stays s s' := by
  have htake : s.queue ≠ [] → ∃ s', Stays s s' := by
    intro hq
    obtain ⟨i, rest, hq⟩ := List.exists_cons_of_ne_nil hq
    exact ⟨_, .take hc hq, by cases i <;> nofun⟩
  have hclose : ∀ sent, s.supervisor = .released sent → ∃ s', Stays s s' := by
    intro sent hs
    by_cases hq : s.queue = []
    · exact ⟨_, .seeEnd hc hq hs, nofun⟩
    · exact htake hq
  -- with the channel full, there is something to take
  by_cases hroom : s.queue.length < STREAM_CHANNEL_CAPACITY
  swap
  · apply htake
    intro hq
    apply hroom
    simp [hq, STREAM_CHANNEL_CAPACITY]
  cases hp : s.parser with
  | entering p => exact ⟨_, stays_of_eq (.enter hp) rfl⟩
  | running p => cases p with
    | done u => exact ⟨_, stays_of_eq (.finish hp) rfl⟩
    | send i k => exact ⟨_, stays_of_eq (.accept hp hc hroom) rfl⟩
  | waiting i k => exact ⟨_, stays_of_eq (.acceptLate hp hc hroom) rfl⟩
  | returned stalled => cases hs : s.supervisor with
    | joining => cases stalled with
      | none => exact ⟨_, stays_of_eq (.join hs hp) rfl⟩
      | some st => exact ⟨_, stays_of_eq (.joinStalled hs hp) rfl⟩
    | sending st => exact ⟨_, stays_of_eq (.report hs hc hroom) rfl⟩
    | released sent => exact hclose sent hs
  | panicked => cases hs : s.supervisor with
    | joining => exact ⟨_, stays_of_eq (.joinPanicked "" hs hp) rfl⟩
    | sending st => exact ⟨_, stays_of_eq (.report hs hc hroom) rfl⟩
    | released sent => exact hclose sent hs

/-- Once the consumer reads no more, the parser or the supervisor can go on
until the slot is given back. -/
theorem exists_stays_of_joining {s : Served T} (hc : s.consumer ≠ .reading)
    (hs : ∀ sent, s.supervisor ≠ .released sent) : ∃ s', Stays s s' := by
  cases hsup : s.supervisor with
  | released sent => exact absurd hsup (hs sent)
  | sending st => exact ⟨_, stays_of_eq (.unreported hsup hc) rfl⟩
  | joining => cases hp : s.parser with
    | entering p => exact ⟨_, stays_of_eq (.enter hp) rfl⟩
    | running p => cases p with
      | done u => exact ⟨_, stays_of_eq (.finish hp) rfl⟩
      | send i k => exact ⟨_, stays_of_eq (.refuse hp hc) rfl⟩
    | waiting i k => exact ⟨_, stays_of_eq (.refuseLate hp hc) rfl⟩
    | returned stalled => cases stalled with
      | none => exact ⟨_, stays_of_eq (.join hsup hp) rfl⟩
      | some st => exact ⟨_, stays_of_eq (.joinStalled hsup hp) rfl⟩
    | panicked => exact ⟨_, stays_of_eq (.joinPanicked "" hsup hp) rfl⟩

/-- The slot is free, and the consumer has its answer or has gone. -/
def Over (s : Served T) : Prop := s.slots = 1 ∧ s.consumer ≠ .reading

theorem over_of_stuck {body : Stream T Unit} (s : Served T) (h : Inv body s) (hstuck : Transition.Stuck Stays s) :
    Over s := by
  have hno : ¬ ∃ s', Stays s s' := by
    rintro ⟨s', hs⟩
    exact hstuck s' hs
  have hc : s.consumer ≠ .reading := by
    intro hc
    exact hno (exists_stays_of_reading hc)
  refine ⟨?_, hc⟩
  have hs := h.supervisor
  unfold SupervisorInv at hs
  cases hsup : s.supervisor with
  | released sent =>
    rw [hsup] at hs
    cases sent <;> exact hs.1
  | joining => exact absurd (exists_stays_of_joining hc (by simp [hsup])) hno
  | sending st => exact absurd (exists_stays_of_joining hc (by simp [hsup])) hno

/-! ## What the client sees -/

/-- The bodies `spawn_blocking_stream` is given. -/
inductive ServedBody : {T : Type} → Stream T Unit → Prop where
  | worksheetRange (rt : Runtime) (entry : EntryView) (req : RangeRequest) (maxDenseCells : Nat) :
      ServedBody (runStreamWorksheetRange rt entry req maxDenseCells)
  | worksheetFormula (fmt : Fmt) (entry : EntryView) (selector : Option (Option Pb.SheetSelector))
      (maxDenseCells maxFormulaBytes : Nat) :
      ServedBody (runStreamWorksheetFormula fmt entry selector maxDenseCells maxFormulaBytes)
  | vbaProject (fmt : Fmt) (encodedLen : Pb.VbaEvent → Nat) (entry : EntryView) :
      ServedBody (runStreamVbaProject fmt encodedLen entry)
  | pictures (fmt : Fmt) (encodedLen : Pb.PictureEvent → Nat) (entry : EntryView) :
      ServedBody (runGetPictures fmt encodedLen entry)

theorem ServedBody.stops {body : Stream T Unit} (h : ServedBody body) : Stops body := by
  cases h with
  | worksheetRange rt entry req maxDenseCells => exact runStreamWorksheetRange_stops rt entry req maxDenseCells
  | worksheetFormula fmt entry selector maxDenseCells maxFormulaBytes =>
    exact runStreamWorksheetFormula_stops fmt entry selector maxDenseCells maxFormulaBytes
  | vbaProject fmt encodedLen entry => exact runStreamVbaProject_stops fmt encodedLen entry
  | pictures fmt encodedLen entry => exact runGetPictures_stops fmt encodedLen entry

/-- Where `st`, after `evs`, comes from: the body, its panic, or a stall of
this stream's consumer. -/
def Accounted (s : Served T) (evs : List (Item T)) (st : Status) : Prop :=
  evs ++ [.status st] <+: s.tried ∨ (s.parser = .panicked ∧ st.code = .internal) ∨
    (s.timedOut = true ∧ st = stallStatus)

/-- What the client of a stream has received, and when its slot was given
back. -/
structure Honest (body : Stream T Unit) (s : Served T) : Prop where
  /-- A stream that ends with no status is whole. -/
  whole : s.consumer = .ended → s.received = s.tried ∧ s.tried = body.events ∧ ∀ i ∈ s.received, i.isEvent = true
  /-- Any other ends with its one status, after a prefix of the events. -/
  cut : s.consumer = .answered → ∃ evs st, s.received = evs ++ [.status st] ∧ (∀ i ∈ evs, i.isEvent = true) ∧
    evs <+: s.tried ∧ Accounted s evs st
  unfinished : s.consumer = .reading ∨ s.consumer = .left →
    (∀ i ∈ s.received, i.isEvent = true) ∧ s.received <+: s.tried
  once : s.slots ≤ 1
  /-- The slot is given back with the last item on the channel, or with nobody
  to take it. -/
  last : s.slots = 1 → (s.consumer = .left ∨ s.consumer = .answered) ∨ s.received ++ s.queue = body.events ∨
    ∃ evs st, s.received ++ s.queue = evs ++ [.status st]

section honest
variable {body : Stream T Unit} {s : Served T}

/-- A refused body leaves a reason unless the consumer is gone. -/
theorem accounted_of_due (h : Inv body s) {st : Status} (hd : Due s st) (evs : List (Item T)) : Accounted s evs st := by
  rcases hd with hp | hp
  · exact .inr (.inl hp)
  · obtain ⟨acc, -, -, hpi⟩ := h.parser
    unfold ParserInv at hpi
    rw [hp] at hpi
    rcases hpi with ⟨-, hn⟩ | ⟨ht, hr⟩ | ⟨-, hn, -⟩
    · cases hn
    · exact .inr (.inr ⟨ht, Option.some.inj hr⟩)
    · cases hn

/-- What the consumer has is what the channel took of the body's items, and
after all of them the supervisor's status. -/
theorem received_cases (h : Inv body s) : s.received <+: s.tried ∨
    ∃ acc st, acc <+: s.tried ∧ s.received = acc ++ [.status st] ∧ Due s st := by
  obtain ⟨acc, hacc, hlog, -⟩ := h.parser
  have hpre : s.received <+: acc ++ s.supervisor.delivered := ⟨s.queue, hlog⟩
  have hsilent : s.supervisor.delivered = ([] : List (Item T)) → s.received <+: s.tried := by
    intro hnone
    rw [hnone, List.append_nil] at hpre
    exact hpre.trans hacc
  have hs := h.supervisor
  unfold SupervisorInv at hs
  cases hsup : s.supervisor with
  | joining => exact .inl (hsilent (by rw [hsup]; rfl))
  | sending st => exact .inl (hsilent (by rw [hsup]; rfl))
  | released sent => cases sent with
    | none => exact .inl (hsilent (by rw [hsup]; rfl))
    | some st =>
      rw [hsup] at hpre hs
      rcases List.prefix_concat_iff.1 hpre with heq | hpre
      · exact .inr ⟨acc, st, hacc, heq, hs.2⟩
      · exact .inl (hpre.trans hacc)

theorem honest_cut (h : Inv body s) (hc : s.consumer = .answered) :
    ∃ evs st, s.received = evs ++ [.status st] ∧ (∀ i ∈ evs, i.isEvent = true) ∧ evs <+: s.tried ∧
      Accounted s evs st := by
  have hcons := h.consumer
  unfold ConsumerInv at hcons
  rw [hc] at hcons
  obtain ⟨evs, st, hrec, hev⟩ := hcons
  refine ⟨evs, st, hrec, hev, ?_⟩
  rcases received_cases h with hpre | ⟨acc, st', hacc, heq, hd⟩
  · rw [hrec] at hpre
    exact ⟨(List.prefix_append _ _).trans hpre, .inl hpre⟩
  · obtain ⟨rfl, hst⟩ := List.append_inj' (hrec.symm.trans heq) rfl
    obtain rfl : st = st' := by simpa using hst
    exact ⟨hacc, accounted_of_due h hd _⟩

theorem honest_unfinished (h : Inv body s) (hc : s.consumer = .reading ∨ s.consumer = .left) :
    (∀ i ∈ s.received, i.isEvent = true) ∧ s.received <+: s.tried := by
  have hev : ∀ i ∈ s.received, i.isEvent = true := by
    have hcons := h.consumer
    unfold ConsumerInv at hcons
    rcases hc with hc | hc <;> rw [hc] at hcons <;> exact hcons
  refine ⟨hev, ?_⟩
  rcases received_cases h with hpre | ⟨acc, st, -, heq, -⟩
  · exact hpre
  · have := hev (.status st) (by simp [heq])
    cases this

theorem honest_last (h : Inv body s) (hslots : s.slots = 1) :
    (s.consumer = .left ∨ s.consumer = .answered) ∨ s.received ++ s.queue = body.events ∨
      ∃ evs st, s.received ++ s.queue = evs ++ [.status st] := by
  obtain ⟨acc, -, hlog, hp⟩ := h.parser
  have hs := h.supervisor
  have hcons := h.consumer
  -- a consumer that reads no more has left, been answered, or seen everything
  have hgone : s.consumer ≠ .reading → (s.consumer = .left ∨ s.consumer = .answered) ∨
      s.received ++ s.queue = body.events := by
    intro hne
    unfold ConsumerInv at hcons
    cases hc : s.consumer with
    | reading => exact absurd hc hne
    | left => exact .inl (.inl rfl)
    | answered => exact .inl (.inr rfl)
    | ended =>
      rw [hc] at hcons
      exact .inr (by rw [hcons.2.2.2.2.2, List.append_nil, hcons.2.1])
  unfold SupervisorInv at hs
  cases hsup : s.supervisor with
  | joining =>
    rw [hsup] at hs
    rw [hs] at hslots
    cases hslots
  | sending st =>
    rw [hsup] at hs
    rw [hs.1] at hslots
    cases hslots
  | released sent =>
    rw [hsup] at hs hlog
    cases sent with
    | some st => exact .inr (.inr ⟨acc, st, hlog⟩)
    | none =>
      rcases hs.2 with hret | ⟨hne, -⟩
      · rcases hp.returned hret with ht | hne
        · right
          left
          rw [hlog, ← ht.whole]
          exact List.append_nil _
        · exact (hgone hne).imp id .inl
      · exact (hgone hne).imp id .inl

theorem Inv.honest (h : Inv body s) : Honest body s where
  whole hc := by
    have hcons := h.consumer
    unfold ConsumerInv at hcons
    rw [hc] at hcons
    exact ⟨hcons.2.1.trans hcons.2.2.1.symm, hcons.2.2.1, hcons.1⟩
  cut := honest_cut h
  unfinished := honest_unfinished h
  once := by
    have hs := h.supervisor
    unfold SupervisorInv at hs
    cases hsup : s.supervisor with
    | joining =>
      rw [hsup] at hs
      omega
    | sending st =>
      rw [hsup] at hs
      omega
    | released sent =>
      rw [hsup] at hs
      cases sent <;> exact hs.1.le
  last := honest_last h

end honest

/-- A stream of the service, in any state that any interleaving takes it to:
its body sends nothing after a refused send, a response that ends without a
status has all of it and any other one status as its last item, and whatever
happens from there, short of the consumer's leaving, it comes to its end with
its slot given back. -/
theorem cut_short_never_looks_complete {body : Stream T Unit} (hb : ServedBody body) {stale : Option Status}
    {s : Served T} (h : Reached body stale s) :
    Stops body ∧ Honest body s ∧ Transition.Inevitable Stays Over s := by
  have hinv := reached_inv hb.stops h
  exact ⟨hb.stops, hinv.honest, Transition.inevitable Served.remaining (fun s s' hs => step_remaining s s' hs.1)
    (fun s s' hs h' => inv_step s s' hs h'.1) over_of_stuck hinv⟩

/-- A workbook with nothing in it and no reader to spare. -/
def busyEntry : EntryView where
  format := .xlsx
  sheetNames := []
  tables _ := none
  numberFormats := []
  is1904 := false
  headerRow := none
  reader := .error (.limit "busy")

/-- A body that panics before it sends anything ends its stream with INTERNAL,
on a thread whose last stream stalled. -/
theorem cut_short_never_looks_complete_panicked :
    Honest (runGetPictures ⟨fun _ => true⟩ (fun _ => 0) busyEntry)
      { parser := .panicked, reason := none, queue := [], supervisor := .released (some (panicStatus "boom")),
        consumer := .answered, received := [.status (panicStatus "boom")], slots := 1, tried := [],
        timedOut := false } := by
  have h : Reached (runGetPictures ⟨fun _ => true⟩ (fun _ => 0) busyEntry) (some stallStatus) _ :=
    .tail (.tail (.tail (.tail (.tail .refl (.enter rfl)) (.panicRunning rfl)) (.joinPanicked "boom" rfl rfl))
      (.report rfl rfl (by decide))) (.take rfl rfl)
  exact (cut_short_never_looks_complete (.pictures ⟨fun _ => true⟩ (fun _ => 0) busyEntry) h).2.1

end GrpcCalamine
