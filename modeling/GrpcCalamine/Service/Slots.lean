import GrpcCalamine.Service.Served
import GrpcCalamine.Service.Uploads
/-!
# Slots come back

`admit` of `src/service.rs` and the streams it lets in, any number of them and
each with its parser thread, supervisor and consumer. The streams share nothing
but their slots, so each is what it would be by itself, and no more parsers are
at work than the service has slots.

Uploads have their own slots, and no client keeps one for ever, with or without
a deadline: a frame brings at least one byte.
-/

namespace GrpcCalamine

/-- The calls that stream. -/
inductive StreamCall where
  | worksheetRange | worksheetFormula | vbaProject | pictures
  deriving DecidableEq

def StreamCall.Event : StreamCall → Type
  | worksheetRange => Pb.RangeEvent
  | worksheetFormula => Pb.FormulaEvent
  | vbaProject => Pb.VbaEvent
  | pictures => Pb.PictureEvent

/-- A stream the service has started: its body, what the thread it runs on held
in `STALL_REASON`, and how far it is. -/
structure Started where
  call : StreamCall
  body : Stream call.Event Unit
  served : ServedBody body
  stale : Option Status
  state : Served call.Event

/-- What `admit` refuses a stream with. -/
def tooManyStreams : Status :=
  ⟨.resourceExhausted,
    "too many concurrent streaming reads; retry shortly or raise GRPC_CALAMINE_MAX_CONCURRENT_STREAMS"⟩

/-- `admit`, of the permits `stream_slots` has left: those it leaves. -/
def admitStream : Nat → Except Status Nat
  | 0 => .error tooManyStreams
  | free + 1 => .ok free

theorem admitStream_error_iff {n : Nat} {status : Status} :
    admitStream n = .error status ↔ n = 0 ∧ status = tooManyStreams := by
  cases n with
  | zero => simp [admitStream, eq_comm]
  | succ n => simp [admitStream]

namespace Started

/-- A step of the stream that is one of `R`. -/
inductive Moves (R : ∀ {T : Type}, Served T → Served T → Prop) : Started → Started → Prop where
  | move {m state} : R m.state state → Moves R m { m with state := state }

/-- The stream has its slot. -/
def inUse (m : Started) : Bool := m.state.slots = 0

/-- The stream has a parser thread, or waits for one. -/
def parsing (m : Started) : Bool := m.state.parser.atWork

end Started

/-- A slot is given back, never taken again. -/
theorem step_slots {T : Type} {s s' : Served T} (h : Step s s') : s.slots ≤ s'.slots := by
  cases h with
  | join | report | unreported => exact Nat.le_succ _
  | _ => exact Nat.le_refl _

/-- Streams, as members of the pool `stream_slots`. -/
def streamKind : Slots.Kind Started where
  Fresh m := m.state = Served.start m.body m.stale
  Step := Started.Moves @Step
  Ok m := Inv m.body m.state
  held m := 1 - m.state.slots
  fresh m h := by
    rw [h]
    exact ⟨inv_start m.served.stops m.stale, rfl⟩
  step m m' hinv h := by
    cases h with
    | move h => exact ⟨inv_step _ _ hinv h, Nat.sub_le_sub_left (step_slots h) 1⟩

/-- A state of the service's streams, whatever the interleaving. -/
abbrev Streams.Reached (slots : Nat) (s : Slots.Pool Started) : Prop := streamKind.Reached slots s

/-- In the pool a stream is what it is by itself. -/
theorem reached_of_alone {m : Started} (h : streamKind.Alone m) : Reached m.body m.stale m.state := by
  obtain ⟨m₀, hfresh, hrun⟩ := h
  refine Transition.invariant (I := fun m : Started => Reached m.body m.stale m.state) ?_ ?_ hrun
  · have hstart : m₀.state = Served.start m₀.body m₀.stale := hfresh
    rw [hstart]
    exact .refl
  · intro m m' hm hstep
    cases hstep with
    | move hstep => exact hm.tail hstep

theorem heldBy_streams (members : List Started) : streamKind.heldBy members = members.countP (·.inUse) := by
  induction members with
  | nil => rfl
  | cons m members ih =>
    have hheld : streamKind.held m = if m.inUse then 1 else 0 := by
      by_cases hslots : m.state.slots = 0
      · simp [streamKind, Started.inUse, hslots]
      · simp [streamKind, Started.inUse, hslots, Nat.one_le_iff_ne_zero]
    rw [List.countP_cons, ← ih, ← hheld]
    exact Nat.add_comm _ _

/-- A parser at work has a slot. -/
theorem Inv.inUse {m : Started} (h : Inv m.body m.state) (hp : m.parsing = true) : m.inUse = true := by
  have hs := h.supervisor
  unfold SupervisorInv at hs
  rw [h.joining hp] at hs
  simp [Started.inUse, hs]

/-- The service's streams, in any state that any interleaving of any requests
takes them to: a request is refused when and only when every slot is with some
stream that is not over, which bounds the parsers at work; each stream is as it
would be with the service to itself, so what its client has received is honest;
and whatever the streams do from there, short of consumers leaving, all slots
come back. -/
theorem streams_share_slots {slots : Nat} {s : Slots.Pool Started} (h : Streams.Reached slots s) :
    (admitStream s.free = .error tooManyStreams ↔ s.members.countP (·.inUse) = slots) ∧
      s.members.countP (·.parsing) ≤ s.members.countP (·.inUse) ∧ s.free + s.members.countP (·.inUse) = slots ∧
      (∀ m ∈ s.members, Reached m.body m.stale m.state ∧ Honest m.body m.state) ∧
      Transition.Inevitable (streamKind.Moves (Started.Moves @Stays))
        (fun s' => s'.free = slots ∧ ∀ m ∈ s'.members, Over m.state) s := by
  have hinv := Slots.Kind.reached_inv h
  have hcount := hinv.slots
  rw [heldBy_streams] at hcount
  refine ⟨?_, ?_, hcount, ?_, ?_⟩
  · simp only [admitStream_error_iff, and_true]
    omega
  · apply List.countP_mono_left
    intro m hm
    exact (hinv.ok m hm).inUse
  · intro m hm
    exact ⟨reached_of_alone (Slots.Kind.reached_alone h m hm), (hinv.ok m hm).honest⟩
  · refine Slots.Kind.inevitable (fun m => m.state.remaining) ?_ ?_ ?_ ?_ hinv
    · rintro m m' ⟨hstays⟩
      exact .move hstays.1
    · rintro m m' ⟨hstays⟩
      exact step_remaining _ _ hstays.1
    · intro m hm hstuck
      apply over_of_stuck m.state hm
      intro state hstays
      exact hstuck _ (.move hstays)
    · intro m hover
      show 1 - m.state.slots = 0
      rw [hover.1]

/-- A stream of pictures that waits for its thread. -/
def pendingPictures : Started where
  call := .pictures
  body := runGetPictures ⟨fun _ => true⟩ (fun _ => 0) busyEntry
  served := .pictures ⟨fun _ => true⟩ (fun _ => 0) busyEntry
  stale := some stallStatus
  state := Served.start (runGetPictures ⟨fun _ => true⟩ (fun _ => 0) busyEntry) (some stallStatus)

/-- A service with one slot refuses a second stream, and will have the slot
back. -/
theorem streams_share_slots_one :
    admitStream 0 = .error tooManyStreams ∧ Transition.Inevitable (streamKind.Moves (Started.Moves @Stays))
      (fun s => s.free = 1 ∧ ∀ m ∈ s.members, Over m.state) ⟨0, [pendingPictures]⟩ := by
  have h : Streams.Reached 1 ⟨0, [pendingPictures]⟩ := .tail .refl (.letIn rfl rfl)
  have hall := streams_share_slots h
  exact ⟨hall.1.2 rfl, hall.2.2.2.2⟩

/-! ## Uploads -/

namespace Upload

variable {limits : UploadLimits} {u u' : Upload}

/-- Any step of an upload. -/
def Steps (limits : UploadLimits) (u u' : Upload) : Prop := u.Moves limits u' ∨ u.Drops u'

/-- An upload that is over: the client has its answer or has gone, and the
permit is back. -/
def Over (u : Upload) : Prop := u.permit = .free ∧ ∃ refusal, u.handler = .gone refusal

/-- What is left of an upload at most: each step uses some of it up. -/
def remaining (limits : UploadLimits) (u : Upload) : Nat :=
  (match u.handler with
    | .receiving .options => limits.maxWorkbookBytes + 6
    | .receiving (.chunks _ bytes) => limits.maxWorkbookBytes - bytes.length + 5
    | .leaving _ | .parsing => 1
    | .gone _ => 0) +
  match u.parse with
    | .queued _ => 3
    | .opening _ => 2
    | .opened => 1
    | .none | .done => 0

/-- A frame that is taken leaves less to take. -/
theorem remaining_frame {r r' : Receiving} {wait : Wait} (hr : u.handler = .receiving r)
    (hturn : r.turn limits wait = .ok r') : remaining limits { u with handler := .receiving r' } < u.remaining limits := by
  cases r with
  | options =>
    obtain ⟨frame, opts, -, -, rfl⟩ := Receiving.turn_options_iff.1 hturn
    simp only [remaining, hr, List.length_nil]
    omega
  | chunks opts bytes =>
    obtain ⟨frame, bytes', -, hframe, rfl⟩ := Receiving.turn_chunks_iff.1 hturn
    obtain ⟨chunk, -, hne, hle, -, rfl⟩ := receiveFrame_ok_iff.1 hframe
    have hpos := List.length_pos_iff.2 hne
    simp only [remaining, hr, List.length_append]
    omega

/-- An upload that is still received has steps left, whatever comes. -/
theorem five_le_remaining {r : Receiving} (hr : u.handler = .receiving r) : 5 ≤ u.remaining limits := by
  cases r <;> simp only [remaining, hr] <;> omega

theorem remaining_steps (h : u.Steps limits u') : u'.remaining limits < u.remaining limits := by
  rcases h with h | h
  · cases h with
    | frame hr hturn => exact remaining_frame hr hturn
    | refuse hr | refuseEnd hr | deadline _ hr | leave hr =>
      have hleft : 5 ≤ u.remaining limits := five_le_remaining hr
      revert hleft
      obtain ⟨handler, parse, permit⟩ := u
      obtain rfl := hr
      cases ‹Receiving› <;> simp only [remaining] <;> omega
    | spawn hr hfinish =>
      refine Nat.lt_of_lt_of_le ?_ (five_le_remaining hr)
      simp [remaining]
    | «open» hp | opened hp => simp [remaining, hp]
    | answer hr | leaveParse hr => simp [remaining, hr]
  · cases h with
    | handler hr => simp [remaining, hr]
    | parse hp => simp [remaining, hp]

/-- An upload with nothing left to do is over. -/
theorem Ok.over (h : u.Ok limits) (hstuck : Transition.Stuck (Steps limits) u) : u.Over := by
  have hmove : ∀ u', ¬ u.Moves limits u' := fun u' hmove => hstuck u' (.inl hmove)
  have hdrop : ∀ u', ¬ u.Drops u' := fun u' hdrop => hstuck u' (.inr hdrop)
  cases h with
  | receiving => exact absurd (.leave rfl) (hmove _)
  | leaving => exact absurd (.handler rfl) (hdrop _)
  | left refusal => exact ⟨rfl, refusal, rfl⟩
  | given hpast hparse =>
    rcases hparse with rfl | rfl
    · exact absurd (.open rfl) (hmove _)
    · exact absurd (.opened rfl) (hmove _)
  | opened => exact absurd (.parse rfl) (hdrop _)
  | @done handler hpast =>
    cases handler with
    | receiving | leaving => exact hpast.elim
    | parsing => exact absurd (.leaveParse rfl) (hmove _)
    | gone refusal => exact ⟨rfl, refusal, rfl⟩

end Upload

/-- Uploads, as members of the pool `upload_slots`. -/
def uploadKind (limits : UploadLimits) : Slots.Kind Upload where
  Fresh u := u = .admitted
  Step := Upload.Steps limits
  Ok := Upload.Ok limits
  held := Upload.permits
  fresh u h := h ▸ ⟨Upload.ok_admitted limits, rfl⟩
  step u u' hok h := by
    rcases h with h | h
    · obtain ⟨hok', hpermits⟩ := Upload.ok_moves hok h
      exact ⟨hok', hpermits.le⟩
    · obtain ⟨hok', hpermits⟩ := Upload.ok_drops hok h
      exact ⟨hok', by omega⟩

namespace Uploads

variable {limits : UploadLimits} {slots : Nat} {s s' : Uploads}

def pool (s : Uploads) : Slots.Pool Upload := ⟨s.free, s.uploads⟩

/-- A step of the uploads there are: no new one comes. -/
def Goes (limits : UploadLimits) (s s' : Uploads) : Prop :=
  Step limits s s' ∧ s'.uploads.length = s.uploads.length

theorem Inv.pool (h : Inv limits slots s) : (uploadKind limits).Inv slots s.pool := ⟨h.ok, h.slots⟩

theorem goes_moves (h : Inv limits slots s) (hgoes : Goes limits s s') :
    (uploadKind limits).Moves (Upload.Steps limits) s.pool s'.pool := by
  obtain ⟨hstep, hlength⟩ := hgoes
  cases hstep with
  | admission | refuse => simp at hlength
  | @move i u u' hu hmove =>
    have hpermits := (Upload.ok_moves (h.ok u (List.mem_of_getElem? hu)) hmove).2
    have hmoves : (uploadKind limits).Moves (Upload.Steps limits) s.pool _ := .move hu (.inl hmove)
    have hnone : (uploadKind limits).held u - (uploadKind limits).held u' = 0 := by
      show u.permits - u'.permits = 0
      omega
    rwa [hnone] at hmoves
  | @drop i u u' hu hdrop =>
    have hpermits := (Upload.ok_drops (h.ok u (List.mem_of_getElem? hu)) hdrop).2
    have hmoves : (uploadKind limits).Moves (Upload.Steps limits) s.pool _ := .move hu (.inr hdrop)
    have hone : (uploadKind limits).held u - (uploadKind limits).held u' = 1 := by
      show u.permits - u'.permits = 1
      omega
    rwa [hone] at hmoves

/-- While some upload can make a step, so can the service. -/
theorem exists_goes {t : Slots.Pool Upload} (h : (uploadKind limits).Moves (Upload.Steps limits) s.pool t) :
    ∃ s', Goes limits s s' := by
  cases h with
  | move hu hstep =>
    rcases hstep with hmove | hdrop
    · exact ⟨_, .move hu hmove, List.length_set⟩
    · exact ⟨_, .drop hu hdrop, List.length_set⟩

end Uploads

/-- No upload is longer than its limit allows, however the client cuts it into
frames and with no deadline; so with no more coming, and whatever the clients
send, every upload comes to its end and all slots come back. -/
theorem uploads_give_back (limits : UploadLimits) (slots : Nat) :
    (∀ steps u, Transition.Run (fun u (_ : Unit) u' => Upload.Steps limits u u') .admitted steps u →
        steps.length ≤ limits.maxWorkbookBytes + 6) ∧
      ∀ s, Uploads.Reached limits slots s →
        Transition.Inevitable (Uploads.Goes limits) (fun s' => s'.free = slots ∧ ∀ u ∈ s'.uploads, u.Over) s := by
  refine ⟨?_, ?_⟩
  · intro steps u hrun
    have hle := hrun.length_le (Upload.remaining limits) fun u _ u' h => Upload.remaining_steps h
    have hstart : Upload.admitted.remaining limits = limits.maxWorkbookBytes + 6 := rfl
    omega
  · intro s h
    have hinv := Uploads.reached_inv h
    have hpool := Slots.Kind.inevitable (K := uploadKind limits) (R := Upload.Steps limits) (P := Upload.Over)
      (Upload.remaining limits) (fun _ _ hstep => hstep) (fun _ _ hstep => Upload.remaining_steps hstep)
      (fun _ hok hstuck => hok.over hstuck) (fun u hover => if_pos hover.1) hinv.pool
    refine Transition.Inevitable.lift (I := Uploads.Inv limits slots) Uploads.pool ?_ ?_ hinv hpool
    · intro t t' hI hgoes
      exact ⟨Uploads.inv_step hI hgoes.1, Uploads.goes_moves hI hgoes⟩
    · intro t t' _ hmoves
      exact Uploads.exists_goes hmoves

end GrpcCalamine
