import GrpcCalamine.Convert
import GrpcCalamine.Store.Budget
/-!
# An upload

`next_frame` and `CalamineGrpc::receive_upload` of `src/service.rs`. What
`admits` answers is the store's matter and may differ each time it is asked,
so every frame comes with the store's answers at its time. A list of frames
ends where the client ends its stream.
-/

namespace GrpcCalamine

/-- The text of a refusal. -/
def LimitExceeded.display (fmt : Fmt) : LimitExceeded → String
  | openWorkbooks max =>
    s!"{max} workbooks are already open, the most this server holds at once; close handles that are no " ++
      "longer needed, retry shortly, or raise GRPC_CALAMINE_MAX_OPEN_WORKBOOKS"
  | storeBytes needed held max =>
    s!"this workbook needs {needed} bytes and open workbooks already hold {held} of the {max} this server " ++
      "keeps; close handles that are no longer needed, retry shortly, or raise GRPC_CALAMINE_MAX_STORE_BYTES"
  | readerBytes needed held max =>
    s!"another read of this workbook already holds its reader, and a second one needs {needed} bytes for its " ++
      s!"pictures and shared strings while open workbooks and their readers already hold {held} of the {max} " ++
      "this server keeps; retry once the other read ends, or raise GRPC_CALAMINE_MAX_STORE_BYTES"
  | picture name max =>
    s!"embedded picture {fmt.debug name} inflates past {max} bytes, the most one picture may " ++
      "(GRPC_CALAMINE_MAX_PICTURE_BYTES)"
  | pictureTotal max =>
    s!"the embedded pictures inflate past {max} bytes together, the most one workbook's pictures may " ++
      "(GRPC_CALAMINE_MAX_PICTURE_TOTAL_BYTES)"
  | sharedStrings name max =>
    s!"shared-string table {fmt.debug name} inflates past {max} bytes, the most this server reads " ++
      "(GRPC_CALAMINE_MAX_SHARED_STRINGS_BYTES)"

/-- The settings an upload goes by, the two durations as `{:?}` writes them. -/
structure UploadLimits where
  maxWorkbookBytes : Nat
  stall : String
  /-- None where the setting is zero. -/
  deadline : Option String
  fmt : Fmt

def HeaderRow.ofSelection (hr : Pb.HeaderRow) : HeaderRow :=
  match hr.selection with
  | some (.rowIndex i) => .row i
  | _ => .firstNonEmptyRow

/-- How a wait for a frame ends, while the client has not ended its stream. -/
inductive Arrival where
  | frame (request : Pb.OpenWorkbookRequest)
  | failed (status : Status)
  | elapsed
  deriving DecidableEq

/-- One wait for a frame, and what the store answers to `admits` then. -/
structure Wait where
  arrival : Arrival
  admits : Nat → Except LimitExceeded Unit

def nextFrame (limits : UploadLimits) : Arrival → Except Status Pb.OpenWorkbookRequest
  | .frame request => .ok request
  | .failed status => .error status
  | .elapsed => .error ⟨.deadlineExceeded, s!"the client sent nothing for {limits.stall} in the middle of an upload; " ++
      "abandoning it so its upload slot can be reused"⟩

abbrev UploadOptions := Pb.WorkbookFormat × Option HeaderRow

/-- What `receive_upload` makes of the first frame. -/
def uploadOptions (first : Pb.OpenWorkbookRequest) : Except Status UploadOptions :=
  match first.payload with
  | some (.options options) =>
    match Pb.WorkbookFormat.tryFrom options.formatHint with
    | some formatHint => .ok (formatHint, options.headerRow.map HeaderRow.ofSelection)
    | none => .error ⟨.invalidArgument, "unknown format_hint value"⟩
  | _ => .error ⟨.invalidArgument, "first upload frame must carry `options`"⟩

/-- What `receive_upload` makes of a later frame: the buffer with its bytes. -/
def receiveFrame (limits : UploadLimits) (admits : Nat → Except LimitExceeded Unit) (bytes : List UInt8)
    (frame : Pb.OpenWorkbookRequest) : Except Status (List UInt8) :=
  match frame.payload with
  | some (.chunk chunk) =>
    if chunk.isEmpty then .error ⟨.invalidArgument, "an upload chunk must carry at least one byte"⟩
    else
      let len := bytes.length + chunk.length
      if len > limits.maxWorkbookBytes then
        .error ⟨.resourceExhausted, s!"workbook exceeds the {limits.maxWorkbookBytes} byte limit"⟩
      else
        match admits len with
        | .error limit => .error ⟨.resourceExhausted, limit.display limits.fmt⟩
        | .ok () => .ok (bytes ++ chunk)
  | _ => .error ⟨.invalidArgument, "`options` frame must be the first and only options frame"⟩

/-- The rest of `receive_upload`, once the loop has ended. -/
def receiveEnd (bytes : List UInt8) : Except Status (List UInt8) :=
  if bytes.isEmpty then .error ⟨.invalidArgument, "upload contained no file bytes"⟩ else .ok bytes

def receiveFrames (limits : UploadLimits) (bytes : List UInt8) : List Wait → Except Status (List UInt8)
  | [] => receiveEnd bytes
  | wait :: waits => do
    let frame ← nextFrame limits wait.arrival
    let bytes ← receiveFrame limits wait.admits bytes frame
    receiveFrames limits bytes waits

def receiveUpload (limits : UploadLimits) : List Wait → Except Status (UploadOptions × List UInt8)
  | [] => .error ⟨.invalidArgument, "empty upload: no frames received"⟩
  | wait :: waits => do
    let first ← nextFrame limits wait.arrival
    let options ← uploadOptions first
    let bytes ← receiveFrames limits [] waits
    return (options, bytes)

/-! ## Wait by wait -/

/-- Where `receive_upload` is while it waits for a frame. -/
inductive Receiving where
  | options
  | chunks (options : UploadOptions) (bytes : List UInt8)
  deriving DecidableEq

namespace Receiving

def bytes : Receiving → List UInt8
  | .options => []
  | .chunks _ bytes => bytes

def turn (limits : UploadLimits) (r : Receiving) (wait : Wait) : Except Status Receiving := do
  let frame ← nextFrame limits wait.arrival
  match r with
  | .options => return .chunks (← uploadOptions frame) []
  | .chunks opts bytes => return .chunks opts (← receiveFrame limits wait.admits bytes frame)

/-- The client has ended its stream. -/
def finish : Receiving → Except Status (UploadOptions × List UInt8)
  | .options => .error ⟨.invalidArgument, "empty upload: no frames received"⟩
  | .chunks opts bytes => do return (opts, ← receiveEnd bytes)

end Receiving

end GrpcCalamine
