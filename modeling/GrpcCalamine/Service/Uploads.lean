import GrpcCalamine.Service.UploadGrammar
import GrpcCalamine.Lib.Slots
import Mathlib.Algebra.Order.BigOperators.Group.List
import Mathlib.Algebra.BigOperators.Ring.List
/-!
# Uploads in progress

`admit_upload` and `open_workbook` of `src/service.rs` with any number of
uploads at a time, one step for each thing that can happen between two
`await`s or on the blocking pool.

An upload holds its permit from `admit_upload` until its parse has ended,
whoever leaves in between (`ok_moves`, `ok_drops`), which bounds what all
uploads together have buffered.
-/

namespace GrpcCalamine

open Slots (sum_map_set)

/-- The handler of an `OpenWorkbook` call: in `receive_upload`, past it with
its buffer dropped and its permit not yet, at the parse's `await`, or gone. An
upload that is refused has a status to leave with, one whose client left has
none. -/
inductive Handler where
  | receiving (r : Receiving)
  | leaving (refusal : Option Status)
  | parsing
  | gone (refusal : Option Status)

/-- The closure on the blocking pool: none yet, waiting for a thread, in
`store.open`, past it with its permit not yet dropped, or through. -/
inductive Parse where
  | none
  | queued (bytes : List UInt8)
  | opening (bytes : List UInt8)
  | opened
  | done

/-- Where the permit of `admit_upload` is. -/
inductive Permit where
  | handler | parse | free
  deriving DecidableEq

structure Upload where
  handler : Handler
  parse : Parse
  permit : Permit

namespace Upload

def admitted : Upload := ⟨.receiving .options, .none, .handler⟩

/-- What `admit_upload` refuses an upload with. -/
def refusal : Status :=
  ⟨.resourceExhausted,
    "too many uploads in progress; retry shortly or raise GRPC_CALAMINE_MAX_CONCURRENT_UPLOADS"⟩

def refused : Upload := ⟨.gone (some refusal), .none, .free⟩

/-- What an upload is refused with that takes longer than it may as a whole. -/
def tooLong (deadline : String) : Status :=
  ⟨.deadlineExceeded, s!"the upload did not finish within {deadline}; abandoning it so its upload slot can be " ++
    "reused (GRPC_CALAMINE_UPLOAD_DEADLINE_SECS)"⟩

/-- The bytes an upload has buffered: those received so far, or those its parse
was given. -/
def buffered (u : Upload) : Nat :=
  (match u.handler with
    | .receiving r => r.bytes.length
    | _ => 0) +
  match u.parse with
    | .queued bytes | .opening bytes => bytes.length
    | _ => 0

/-- The permits an upload holds. -/
def permits (u : Upload) : Nat := if u.permit = .free then 0 else 1

/-- What an upload does while its permit stays with it. -/
inductive Moves (limits : UploadLimits) : Upload → Upload → Prop where
  | frame {u r r' wait} : u.handler = .receiving r → r.turn limits wait = .ok r' →
      Moves limits u { u with handler := .receiving r' }
  | refuse {u r wait status} : u.handler = .receiving r → r.turn limits wait = .error status →
      Moves limits u { u with handler := .leaving (some status) }
  | refuseEnd {u r status} : u.handler = .receiving r → r.finish = .error status →
      Moves limits u { u with handler := .leaving (some status) }
  | deadline {u r deadline} : limits.deadline = some deadline → u.handler = .receiving r →
      Moves limits u { u with handler := .leaving (some (tooLong deadline)) }
  /-- The client leaves, and the handler is dropped where it waits. -/
  | leave {u r} : u.handler = .receiving r → Moves limits u { u with handler := .leaving none }
  /-- The closure takes the permit and the bytes. -/
  | spawn {u r opts bytes} : u.handler = .receiving r → r.finish = .ok (opts, bytes) →
      Moves limits u ⟨.parsing, .queued bytes, .parse⟩
  | open {u bytes} : u.parse = .queued bytes → Moves limits u { u with parse := .opening bytes }
  /-- `store.open` returns or panics: the bytes are the store's or dropped. -/
  | opened {u bytes} : u.parse = .opening bytes → Moves limits u { u with parse := .opened }
  /-- The handler answers, or is dropped while the parse goes on. -/
  | answer {u} : u.handler = .parsing → u.parse = .done → Moves limits u { u with handler := .gone none }
  | leaveParse {u} : u.handler = .parsing → Moves limits u { u with handler := .gone none }

/-- The permit is dropped. -/
inductive Drops : Upload → Upload → Prop where
  | handler {u refusal} : u.handler = .leaving refusal → Drops u { u with handler := .gone refusal, permit := .free }
  | parse {u} : u.parse = .opened → Drops u { u with parse := .done, permit := .free }

end Upload

/-- The service: the permits `upload_slots` has left, and every upload there
has been. -/
structure Uploads where
  free : Nat
  uploads : List Upload

namespace Uploads

def start (slots : Nat) : Uploads := ⟨slots, []⟩

inductive Step (limits : UploadLimits) : Uploads → Uploads → Prop where
  | admission {s free} : s.free = free + 1 → Step limits s ⟨free, s.uploads ++ [.admitted]⟩
  | refuse {s} : s.free = 0 → Step limits s { s with uploads := s.uploads ++ [.refused] }
  | move {s i u u'} : s.uploads[i]? = some u → u.Moves limits u' → Step limits s { s with uploads := s.uploads.set i u' }
  | drop {s i u u'} : s.uploads[i]? = some u → u.Drops u' → Step limits s ⟨s.free + 1, s.uploads.set i u'⟩

/-- A state the service gets to, whatever the interleaving. -/
def Reached (limits : UploadLimits) (slots : Nat) (s : Uploads) : Prop :=
  Relation.ReflTransGen (Step limits) (start slots) s

/-- The bytes all uploads have buffered. -/
def buffered (s : Uploads) : Nat := (s.uploads.map Upload.buffered).sum

end Uploads

/-! ## What an upload may be -/

/-- Past `receive_upload`, with nothing left to drop. -/
def Handler.Past : Handler → Prop
  | .parsing | .gone _ => True
  | .receiving _ | .leaving _ => False

namespace Upload

variable {limits : UploadLimits} {u u' : Upload}

/-- What an upload may be: who has its permit goes by how far it is, and what
it has buffered is what it has received. -/
inductive Ok (limits : UploadLimits) : Upload → Prop where
  | receiving {r waits} (h : Receiving.Of limits waits r) : Ok limits ⟨.receiving r, .none, .handler⟩
  | leaving (refusal : Option Status) : Ok limits ⟨.leaving refusal, .none, .handler⟩
  | left (refusal : Option Status) : Ok limits ⟨.gone refusal, .none, .free⟩
  | given {handler parse waits opts bytes} (hpast : handler.Past)
      (hparse : parse = Parse.queued bytes ∨ parse = Parse.opening bytes)
      (h : receiveUpload limits waits = .ok (opts, bytes)) : Ok limits ⟨handler, parse, .parse⟩
  | opened {handler} (hpast : handler.Past) : Ok limits ⟨handler, .opened, .parse⟩
  | done {handler} (hpast : handler.Past) : Ok limits ⟨handler, .done, .free⟩

theorem ok_admitted (limits : UploadLimits) : admitted.Ok limits := by
  have hof : Receiving.Of limits [] .options := rfl
  exact .receiving hof

theorem Ok.of_receiving {r : Receiving} (h : u.Ok limits) (hr : u.handler = .receiving r) :
    u = ⟨.receiving r, .none, .handler⟩ ∧ ∃ waits, r.Of limits waits := by
  cases h with
  | receiving hof =>
    cases hr
    exact ⟨rfl, _, hof⟩
  | leaving | left => cases hr
  | given hpast | opened hpast | done hpast =>
    obtain rfl := hr
    exact hpast.elim

theorem Ok.of_leaving {refusal : Option Status} (h : u.Ok limits) (hr : u.handler = .leaving refusal) :
    u = ⟨.leaving refusal, .none, .handler⟩ := by
  cases h with
  | leaving =>
    cases hr
    rfl
  | receiving | left => cases hr
  | given hpast | opened hpast | done hpast =>
    obtain rfl := hr
    exact hpast.elim

/-- The handler goes while the parse has the permit, or has dropped it. -/
theorem Ok.gone (h : u.Ok limits) (hr : u.handler = .parsing) : Ok limits { u with handler := .gone none } := by
  cases h with
  | receiving | leaving | left => cases hr
  | given hpast hparse hreceived => exact .given trivial hparse hreceived
  | opened => exact .opened trivial
  | done => exact .done trivial

/-- An upload's moves leave its permit with it. -/
theorem ok_moves (h : u.Ok limits) (hmove : u.Moves limits u') : u'.Ok limits ∧ u'.permits = u.permits := by
  cases hmove with
  | frame hr hturn =>
    obtain ⟨rfl, waits, hof⟩ := h.of_receiving hr
    exact ⟨.receiving (Receiving.of_turn hof hturn), rfl⟩
  | refuse hr | refuseEnd hr | leave hr =>
    obtain ⟨rfl, -⟩ := h.of_receiving hr
    exact ⟨.leaving _, rfl⟩
  | deadline hlimit hr =>
    obtain ⟨rfl, -⟩ := h.of_receiving hr
    exact ⟨.leaving _, rfl⟩
  | spawn hr hfinish =>
    obtain ⟨rfl, waits, hof⟩ := h.of_receiving hr
    have hreceived : receiveUpload limits waits = _ := (receiveUpload_eq limits waits).trans
      (bind_ok_iff.2 ⟨_, Receiving.run_iff.2 hof, hfinish⟩)
    exact ⟨.given trivial (.inl rfl) hreceived, rfl⟩
  | «open» hp =>
    cases h with
    | receiving | leaving | left | opened | done => cases hp
    | given hpast hparse hreceived =>
      obtain rfl := hp
      obtain ⟨rfl⟩ : _ = _ := Parse.queued.inj (hparse.resolve_right nofun)
      exact ⟨.given hpast (.inr rfl) hreceived, rfl⟩
  | opened hp =>
    cases h with
    | receiving | leaving | left | opened | done => cases hp
    | given hpast => exact ⟨.opened hpast, rfl⟩
  | answer hr | leaveParse hr => exact ⟨h.gone hr, rfl⟩

/-- A permit that is dropped was held. -/
theorem ok_drops (h : u.Ok limits) (hdrop : u.Drops u') : u'.Ok limits ∧ u'.permits + 1 = u.permits := by
  cases hdrop with
  | handler hr =>
    obtain rfl := h.of_leaving hr
    exact ⟨.left _, rfl⟩
  | parse hp =>
    cases h with
    | receiving | leaving | left | done => cases hp
    | given hpast hparse =>
      obtain rfl := hp
      rcases hparse with hparse | hparse <;> cases hparse
    | opened hpast => exact ⟨.done hpast, rfl⟩

/-- What an upload has buffered is within the limit, and it has a permit for
it. -/
theorem Ok.buffered_le (h : u.Ok limits) : u.buffered ≤ u.permits * limits.maxWorkbookBytes := by
  cases h with
  | receiving hof => simpa [buffered, permits] using hof.bytes_le
  | @given handler parse waits opts bytes hpast hparse hreceived =>
    have hle : bytes.length ≤ limits.maxWorkbookBytes := by
      obtain ⟨chunks, ⟨-, hchunks⟩, -, rfl⟩ := receiveUpload_ok_iff.1 hreceived
      exact hchunks.flatten_le
    cases handler with
    | receiving | leaving => exact hpast.elim
    | parsing | gone => rcases hparse with rfl | rfl <;> simpa [buffered, permits] using hle
  | leaving | left => exact Nat.zero_le _
  | @opened handler hpast | @done handler hpast =>
    cases handler with
    | receiving | leaving => exact hpast.elim
    | parsing | gone => exact Nat.zero_le _

theorem permits_le (u : Upload) : u.permits ≤ 1 := by
  unfold permits
  split <;> decide

/-- Admitted, and its parse not ended yet. -/
def InFlight (u : Upload) : Prop :=
  (∃ r, u.handler = .receiving r) ∨ ∃ bytes, u.parse = .queued bytes ∨ u.parse = .opening bytes

theorem Ok.permits_of_inFlight (h : u.Ok limits) (hflight : u.InFlight) : u.permits = 1 := by
  cases h with
  | receiving | leaving | given | opened => rfl
  | left =>
    rcases hflight with ⟨r, hr⟩ | ⟨bytes, hp | hp⟩
    · cases hr
    · cases hp
    · cases hp
  | done hpast =>
    rcases hflight with ⟨r, hr⟩ | ⟨bytes, hp | hp⟩
    · obtain rfl := hr
      exact hpast.elim
    · cases hp
    · cases hp

end Upload

namespace Uploads

variable {limits : UploadLimits} {slots : Nat} {s s' : Uploads}

/-- The permits all uploads hold. -/
def permits (s : Uploads) : Nat := (s.uploads.map Upload.permits).sum

structure Inv (limits : UploadLimits) (slots : Nat) (s : Uploads) : Prop where
  ok : ∀ u ∈ s.uploads, u.Ok limits
  slots : s.free + s.permits = slots

theorem inv_start (limits : UploadLimits) (slots : Nat) : Inv limits slots (start slots) := by
  refine ⟨?_, rfl⟩
  intro u hu
  cases hu

theorem inv_step (h : Inv limits slots s) (hstep : Step limits s s') : Inv limits slots s' := by
  obtain ⟨hok, hslots⟩ := h
  unfold permits at hslots
  cases hstep with
  | @admission free hfree =>
    refine ⟨fun u hu => ?_, ?_⟩
    · rcases List.mem_append.1 hu with hu | hu
      · exact hok u hu
      · exact List.mem_singleton.1 hu ▸ Upload.ok_admitted limits
    · have hone : Upload.admitted.permits = 1 := rfl
      simp only [permits, List.map_append, List.sum_append, List.map_cons, List.map_nil, List.sum_singleton, hone]
      omega
  | refuse hfree =>
    refine ⟨fun u hu => ?_, ?_⟩
    · rcases List.mem_append.1 hu with hu | hu
      · exact hok u hu
      · exact List.mem_singleton.1 hu ▸ Upload.Ok.left _
    · have hnone : Upload.refused.permits = 0 := rfl
      simp only [permits, List.map_append, List.sum_append, List.map_cons, List.map_nil, List.sum_singleton, hnone]
      exact hslots
  | @move i u u' hu hmove =>
    obtain ⟨hok', hpermits⟩ := Upload.ok_moves (hok u (List.mem_of_getElem? hu)) hmove
    have hsum := sum_map_set Upload.permits hu u'
    refine ⟨fun v hv => ?_, ?_⟩
    · rcases List.mem_or_eq_of_mem_set hv with hv | rfl
      · exact hok v hv
      · exact hok'
    · simp only [permits]
      omega
  | @drop i u u' hu hdrop =>
    obtain ⟨hok', hpermits⟩ := Upload.ok_drops (hok u (List.mem_of_getElem? hu)) hdrop
    have hsum := sum_map_set Upload.permits hu u'
    refine ⟨fun v hv => ?_, ?_⟩
    · rcases List.mem_or_eq_of_mem_set hv with hv | rfl
      · exact hok v hv
      · exact hok'
    · simp only [permits]
      omega

theorem reached_inv (h : Reached limits slots s) : Inv limits slots s :=
  Transition.invariant (inv_start limits slots) (fun _ _ => inv_step) h

/-- All uploads together have buffered no more than their permits allow. -/
theorem Inv.buffered_le (h : Inv limits slots s) : s.buffered ≤ slots * limits.maxWorkbookBytes := by
  have hsum : s.buffered ≤ s.permits * limits.maxWorkbookBytes := by
    unfold buffered permits
    rw [← List.sum_map_mul_right]
    exact List.sum_le_sum fun u hu => (h.ok u hu).buffered_le
  have hheld : s.permits ≤ slots := by
    have := h.slots
    omega
  exact hsum.trans (Nat.mul_le_mul_right _ hheld)

end Uploads

/-- Uploads are taken exactly as the grammar says, refused where they leave it,
and never buffer more than their slots allow. -/
theorem uploads_bounded (limits : UploadLimits) (slots : Nat) :
    (∀ waits opts bytes, receiveUpload limits waits = .ok (opts, bytes) ↔
        ∃ chunks, Grammar limits waits opts chunks ∧ chunks ≠ [] ∧ bytes = chunks.flatten) ∧
      (∀ waits status, receiveUpload limits waits = .error status →
        (∃ before wait after, waits = before ++ wait :: after ∧ Begins limits before ∧
            ¬ Begins limits (before ++ [wait]) ∧
            ∀ more, receiveUpload limits (before ++ wait :: more) = .error status) ∨
          waits = [] ∨ ∃ opts, Grammar limits waits opts []) ∧
      ∀ s, Uploads.Reached limits slots s →
        (∀ u ∈ s.uploads, u.buffered ≤ limits.maxWorkbookBytes ∧ (u.InFlight → u.permits = 1)) ∧
          s.free + s.permits = slots ∧ s.buffered ≤ slots * limits.maxWorkbookBytes := by
  refine ⟨fun waits opts bytes => receiveUpload_ok_iff, fun waits status h => receiveUpload_error h, fun s h => ?_⟩
  have hinv := Uploads.reached_inv h
  refine ⟨fun u hu => ⟨?_, (hinv.ok u hu).permits_of_inFlight⟩, hinv.slots, hinv.buffered_le⟩
  calc u.buffered ≤ u.permits * limits.maxWorkbookBytes := (hinv.ok u hu).buffered_le
    _ ≤ 1 * limits.maxWorkbookBytes := Nat.mul_le_mul_right _ u.permits_le
    _ = limits.maxWorkbookBytes := Nat.one_mul _

end GrpcCalamine
