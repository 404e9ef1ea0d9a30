import GrpcCalamine.Service.Send
import GrpcCalamine.Lib.Transition
/-!
# A stream and its supervisor

`spawn_blocking_stream` of `src/service.rs`: a parser thread runs the body, a
supervisor joins it and reports how it ended, and a consumer takes what both
put on a bounded channel. Time is not modelled: a send that waits on a full
channel may time out whenever it does.

A gRPC response ends with its status, so the consumer takes nothing after one.
-/

namespace GrpcCalamine

def STREAM_CHANNEL_CAPACITY : Nat := 64

/-- What a stalled consumer gets. -/
def stallStatus : Status :=
  ⟨.deadlineExceeded,
    "the client read nothing for 30 seconds; abandoning the stream so its parser thread can be reused"⟩

/-- What `panic_detail` makes of a panic's payload. -/
def panicStatus (detail : String) : Status := ⟨.internal, s!"parser panicked: {detail}"⟩

variable {T : Type}

/-- The parser thread: at the body's entry, in it, waiting in a send on a full
channel, or through with it. -/
inductive Parser (T : Type) where
  | entering (body : Stream T Unit)
  | running (p : Stream T Unit)
  | waiting (i : Item T) (k : Bool → Stream T Unit)
  | returned (stalled : Option Status)
  | panicked

/-- The supervisor: at its `await`, sending a status, or through, having sent
one or none. -/
inductive Supervisor where
  | joining
  | sending (s : Status)
  | released (sent : Option Status)

/-- The consumer: taking items, gone, through with a status, or at the end of
a stream that had none. -/
inductive Consumer where
  | reading | left | answered | ended
  deriving DecidableEq

structure Served (T : Type) where
  parser : Parser T
  /-- `STALL_REASON` of the pool thread. -/
  reason : Option Status
  queue : List (Item T)
  supervisor : Supervisor
  consumer : Consumer
  received : List (Item T)
  /-- Permits given back. -/
  slots : Nat
  /-- What the body has tried to send, taken or not. -/
  tried : List (Item T)
  /-- Whether one of the body's sends has timed out. -/
  timedOut : Bool

/-- A stream about to start, on a thread that may hold what its last body left
in `STALL_REASON`. -/
def Served.start (body : Stream T Unit) (stale : Option Status) : Served T :=
  { parser := .entering body, reason := stale, queue := [], supervisor := .joining, consumer := .reading,
    received := [], slots := 0, tried := [], timedOut := false }

/-- Where taking an item leaves the consumer. -/
def Consumer.after : Item T → Consumer
  | .event _ => .reading
  | .status _ => .answered

inductive Step : Served T → Served T → Prop where
  /-- The thread clears `STALL_REASON` and enters the body. -/
  | enter {s body} : s.parser = .entering body → Step s { s with parser := .running body, reason := none }
  /-- A send finds room: `try_send`, or the first poll of `blocking_send`. -/
  | accept {s i k} : s.parser = .running (.send i k) → s.consumer = .reading →
      s.queue.length < STREAM_CHANNEL_CAPACITY →
      Step s { s with parser := .running (k true), queue := s.queue ++ [i], tried := s.tried ++ [i] }
  /-- The receiver is gone. -/
  | refuse {s i k} : s.parser = .running (.send i k) → s.consumer ≠ .reading →
      Step s { s with parser := .running (k false), tried := s.tried ++ [i] }
  | block {s i k} : s.parser = .running (.send i k) → s.consumer = .reading →
      STREAM_CHANNEL_CAPACITY ≤ s.queue.length → Step s { s with parser := .waiting i k }
  | acceptLate {s i k} : s.parser = .waiting i k → s.consumer = .reading →
      s.queue.length < STREAM_CHANNEL_CAPACITY →
      Step s { s with parser := .running (k true), queue := s.queue ++ [i], tried := s.tried ++ [i] }
  | refuseLate {s i k} : s.parser = .waiting i k → s.consumer ≠ .reading →
      Step s { s with parser := .running (k false), tried := s.tried ++ [i] }
  /-- `send_timeout` gives up; `blocking_send` never does. -/
  | timeout {s e k} : s.parser = .waiting (.event e) k →
      Step s { s with parser := .running (k false), tried := s.tried ++ [.event e], timedOut := true,
                      reason := some (s.reason.getD stallStatus) }
  | finish {s} : s.parser = .running (.done ()) →
      Step s { s with parser := .returned s.reason, reason := none }
  | panicRunning {s p} : s.parser = .running p → Step s { s with parser := .panicked }
  | panicWaiting {s i k} : s.parser = .waiting i k → Step s { s with parser := .panicked }
  | join {s} : s.supervisor = .joining → s.parser = .returned none →
      Step s { s with supervisor := .released none, slots := s.slots + 1 }
  | joinStalled {s st} : s.supervisor = .joining → s.parser = .returned (some st) →
      Step s { s with supervisor := .sending st }
  | joinPanicked {s} (detail : String) : s.supervisor = .joining → s.parser = .panicked →
      Step s { s with supervisor := .sending (panicStatus detail) }
  | report {s st} : s.supervisor = .sending st → s.consumer = .reading →
      s.queue.length < STREAM_CHANNEL_CAPACITY →
      Step s { s with queue := s.queue ++ [.status st], supervisor := .released (some st), slots := s.slots + 1 }
  | unreported {s st} : s.supervisor = .sending st → s.consumer ≠ .reading →
      Step s { s with supervisor := .released none, slots := s.slots + 1 }
  | take {s i rest} : s.consumer = .reading → s.queue = i :: rest →
      Step s { s with queue := rest, received := s.received ++ [i], consumer := Consumer.after i }
  | leave {s} : s.consumer = .reading → Step s { s with consumer := .left }
  /-- Every sender is dropped and the channel is drained. -/
  | seeEnd {s sent} : s.consumer = .reading → s.queue = [] → s.supervisor = .released sent →
      Step s { s with consumer := .ended }

/-- A state the stream gets to, whatever the interleaving. -/
def Reached (body : Stream T Unit) (stale : Option Status) (s : Served T) : Prop :=
  Relation.ReflTransGen Step (Served.start body stale) s

end GrpcCalamine
