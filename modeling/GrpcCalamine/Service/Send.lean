import GrpcCalamine.Lib.Emit
import GrpcCalamine.Convert
/-!
# What a stream body sends

A body sends events with `send_event`, which tells it whether to go on, and
ends some refusals by putting a status on the channel itself
(`tx.blocking_send(Err(status))`, whose outcome it ignores).
-/

namespace GrpcCalamine

/-- `Result<T, Status>`, what the channel carries. -/
inductive Item (T : Type) where
  | event (e : T)
  | status (s : Status)
  deriving DecidableEq

/-- A stream body, or a part of one, that returns an `α`. -/
abbrev Stream (T α : Type) := Emit (Item T) α

/-- The events among the items sent. -/
def eventsOf {T : Type} (items : List (Item T)) : List T :=
  items.filterMap fun
    | .event e => some e
    | .status _ => none

@[simp] theorem eventsOf_nil {T : Type} : eventsOf ([] : List (Item T)) = [] := rfl
@[simp] theorem eventsOf_event {T : Type} (e : T) (items : List (Item T)) :
    eventsOf (.event e :: items) = e :: eventsOf items := rfl
@[simp] theorem eventsOf_append {T : Type} (a b : List (Item T)) : eventsOf (a ++ b) = eventsOf a ++ eventsOf b :=
  List.filterMap_append

def sendEvent {T : Type} (e : T) : Stream T Bool := Emit.ask (.event e)

/-- `tx.blocking_send(Err(status))`. -/
def blockingSend {T : Type} (s : Status) : Stream T Unit := Emit.send (.status s) fun _ => .done ()

/-- The trait `StreamResponse`: a response that can carry an in-band error. -/
class StreamResponse (T : Type) where
  fromStreamError : Pb.StreamError → T

instance : StreamResponse Pb.RangeEvent := ⟨.error⟩
instance : StreamResponse Pb.FormulaEvent := ⟨.error⟩
instance : StreamResponse Pb.VbaEvent := ⟨.error⟩
instance : StreamResponse Pb.PictureEvent := ⟨.error⟩

section
variable {T : Type} [StreamResponse T]

def sendStreamError (error : Pb.CalamineError) (terminal : Bool) : Stream T Bool :=
  sendEvent (StreamResponse.fromStreamError { error := some error, terminal := terminal })

/-- Convert a calamine parse failure into an in-band terminal stream error. -/
def abortWith (kind : Pb.CalamineErrorKind) (err : String) : Stream T Unit := do
  let _ ← sendStreamError (Convert.calamineError kind err) true
  return ()

end

/-- The text of `abort_unsorted`. -/
def unsortedMessage (fmt : Fmt) (sheetName : String) (row col : Nat) : String :=
  s!"sheet {fmt.debug sheetName}: a cell at row {row}, column {col} arrived after " ++
  "rows past it had already been streamed. The worksheet's rows are not " ++
  "in ascending order, and this stream had committed too far to place it. " ++
  "Retry with a larger max_rows_per_message to widen the repair window."

def abortUnsorted (fmt : Fmt) (kind : Pb.CalamineErrorKind) (sheetName : String) (row col : Nat) :
    Stream Pb.RangeEvent Unit :=
  abortWith kind (unsortedMessage fmt sheetName row col)

end GrpcCalamine
