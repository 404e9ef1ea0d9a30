import GrpcCalamine.Service.Slots
import GrpcCalamine.Store.Open
import GrpcCalamine.Lib.Handles
/-!
# The RPCs between streams

`open_workbook`, `close_workbook`, `get_metadata` and `get_defined_names` of
`src/service.rs`, and how a stream gets at its workbook. `Server` has all of
them going on at a time: what a handler does between two `await`s, or its parse
on the blocking pool, is one step, and an `Exchange` is what a handler answers,
whether or not its client is still there.
-/

namespace GrpcCalamine

open Pb (WorkbookFormat)

/-! ## What is answered -/

def StoreError.display (fmt : Fmt) : StoreError → String
  | unreadable e => e.message
  | limit e => e.display fmt
  | malformed part detail => s!"{part}: {detail}"
  | formatRefused format accepted =>
    s!"this server does not accept {FormatSet.name format} workbooks; it accepts {accepted.display} " ++
      "(GRPC_CALAMINE_FORMATS)"
  | noAcceptedFormat accepted =>
    s!"the upload does not open as any format this server accepts ({accepted.display}; GRPC_CALAMINE_FORMATS)"

/-- What `open_workbook` makes of the store's error. -/
def openRefused (fmt : Fmt) (e : StoreError) : Status :=
  match e with
  | .limit limit => ⟨.resourceExhausted, limit.display fmt⟩
  | .unreadable _ | .malformed _ _ | .noAcceptedFormat _ => ⟨.invalidArgument, s!"cannot open workbook: {e.display fmt}"⟩
  | .formatRefused _ _ => ⟨.failedPrecondition, s!"cannot open workbook: {e.display fmt}"⟩

def parserFailed (detail : String) : Status := ⟨.internal, s!"parser task failed: {detail}"⟩

def uiInfo : Pb.UiInfo where
  title := "Calamine"
  path := "/ui/calamine"
  description := "Spreadsheet parsing via calamine (xls, xlsx, xlsb, ods)"

def openResponse (id : String) (entry : WorkbookEntry) : Pb.OpenWorkbookResponse :=
  { workbookId := id, detectedFormat := entry.format, metadata := some entry.metadata }

def metadataResponse (entry : WorkbookEntry) : Pb.GetMetadataResponse :=
  { detectedFormat := entry.format, metadata := some entry.metadata, ui := some uiInfo }

/-- The service-level probe. -/
def uiResponse : Pb.GetMetadataResponse := { detectedFormat := .unspecified, metadata := none, ui := some uiInfo }

def unknownWorkbook (id : String) : Status := ⟨.notFound, s!"unknown workbook_id: {id}"⟩

/-! ## All of them at once -/

structure ServerLimits where
  upload : UploadLimits
  opens : OpenLimits

/-- A parse on the blocking pool that has its room. -/
structure Parsing where
  bytes : List UInt8
  formatHint : WorkbookFormat
  headerRow : Option HeaderRow
  size : Footprint

structure Server where
  store : Store
  uploads : List Receiving
  /-- In the order of the store's reservations. -/
  parses : List Parsing
  /-- What was registered, under its id. -/
  entries : List (String × WorkbookEntry)

/-- What a handler answers. -/
inductive Exchange where
  | opened (bytes : List UInt8) (response : Pb.OpenWorkbookResponse)
  | refused (status : Status)
  | closed (id : String) (closed : Bool)
  | metadata (id : String) (response : Except Status Pb.GetMetadataResponse)
  | definedNames (id : String) (response : Except Status (List Pb.DefinedName))
  /-- A stream is refused, or set going on a workbook. -/
  | stream (id : String) (entry : Except Status WorkbookEntry)
  | quiet

/-- The id the exchange draws. -/
def Exchange.drawn : Exchange → Option String
  | .opened _ response => some response.workbookId
  | _ => none

/-- The calls made of the store by nobody who waits for an answer to them: the
reaper's, an upload's, those of an RPC that ends, and the turns of the readers
that the streams' bodies check out, drop or leave behind. -/
def Store.Call.Background : Store.Call → Prop
  | .evictIdle | .admits _ | .finish _ | .finishClosed _ | .reader _ _ | .vanish _ | .die _ => True
  | _ => False

namespace Server

def start (limits : ServerLimits) : Server := ⟨.withLimits limits.opens.store, [], [], []⟩

/-- The store when it is `now`. -/
def clock (s : Server) (now : Nat) : Store := { s.store with now := now }

/-- `get_entry`: look up a workbook or fail the RPC. -/
def getEntry (s : Server) (id : String) : Except Status WorkbookEntry :=
  match s.store.entry id, s.entries.lookup id with
  | some _, some entry => .ok entry
  | _, _ => .error (unknownWorkbook id)

def getMetadata (s : Server) (id : String) : Except Status Pb.GetMetadataResponse :=
  if id.isEmpty then .ok uiResponse else (s.getEntry id).map metadataResponse

def getDefinedNames (s : Server) (id : String) : Except Status (List Pb.DefinedName) :=
  (s.getEntry id).map (·.metadata.definedNames)

/-- What every stream starts with, of the permits `stream_slots` has left. -/
def startStream (s : Server) (id : String) (free : Nat) : Except Status WorkbookEntry := do
  let entry ← s.getEntry id
  let _ ← admitStream free
  return entry

section Step
variable (limits : ServerLimits) (zip : List UInt8 → Option (List (Option Entry))) (calamine : Calamine.Opener)

inductive Step : Server → Exchange → Server → Prop where
  /-- `admit_upload`, whose slots are counted elsewhere. -/
  | begin {s} : Step s .quiet { s with uploads := s.uploads ++ [.options] }
  | turnAway {s} : Step s (.refused Upload.refusal) s
  /-- A frame; what `admits` closes meanwhile is a step of its own. -/
  | frame {s i r r' wait now} : s.store.now ≤ now → s.uploads[i]? = some r →
      (∀ bytes, wait.admits bytes = ((s.clock now).admits limits.opens.store bytes).1) →
      r.turn limits.upload wait = .ok r' → Step s .quiet { s with uploads := s.uploads.set i r' }
  | refuse {s i r wait now status} : s.store.now ≤ now → s.uploads[i]? = some r →
      (∀ bytes, wait.admits bytes = ((s.clock now).admits limits.opens.store bytes).1) →
      r.turn limits.upload wait = .error status → Step s (.refused status) { s with uploads := s.uploads.eraseIdx i }
  | refuseEnd {s i r status} : s.uploads[i]? = some r → r.finish = .error status →
      Step s (.refused status) { s with uploads := s.uploads.eraseIdx i }
  | deadline {s i deadline} : i < s.uploads.length → limits.upload.deadline = some deadline →
      Step s (.refused (Upload.tooLong deadline)) { s with uploads := s.uploads.eraseIdx i }
  | leave {s i} : i < s.uploads.length → Step s .quiet { s with uploads := s.uploads.eraseIdx i }
  /-- An upload is whole, and `open` makes room for it. -/
  | parse {s i r opts bytes now size store} : s.store.now ≤ now → s.uploads[i]? = some r → r.finish = .ok (opts, bytes) →
      (s.clock now).admitOpen limits.opens zip bytes opts.1 = (.ok size, store) →
      Step s .quiet { s with store := store, uploads := s.uploads.eraseIdx i,
                             parses := s.parses ++ [⟨bytes, opts.1, opts.2, size⟩] }
  | refuseOpen {s i r opts bytes now e store} : s.store.now ≤ now → s.uploads[i]? = some r →
      r.finish = .ok (opts, bytes) → (s.clock now).admitOpen limits.opens zip bytes opts.1 = (.error e, store) →
      Step s (.refused (openRefused limits.upload.fmt e)) { s with store := store, uploads := s.uploads.eraseIdx i }
  /-- The zip reader panics. -/
  | panicInspect {s i r opts bytes} (detail : String) : s.uploads[i]? = some r → r.finish = .ok (opts, bytes) →
      Step s (.refused (parserFailed detail)) { s with uploads := s.uploads.eraseIdx i }
  /-- A parse ends, and its workbook is registered. -/
  | register {s j p entry now id store} : s.store.now ≤ now → s.parses[j]? = some p →
      Store.parse limits.opens calamine p.bytes p.formatHint p.headerRow p.size = .ok entry →
      (s.clock now).perform limits.opens.store (.register j id) = some store →
      Step s (.opened p.bytes (openResponse id entry))
        { s with store := store, parses := s.parses.eraseIdx j, entries := (id, entry) :: s.entries }
  | reject {s j p e now store} : s.store.now ≤ now → s.parses[j]? = some p →
      Store.parse limits.opens calamine p.bytes p.formatHint p.headerRow p.size = .error e →
      (s.clock now).perform limits.opens.store (.abandon j) = some store →
      Step s (.refused (openRefused limits.upload.fmt e)) { s with store := store, parses := s.parses.eraseIdx j }
  /-- calamine panics. -/
  | panic {s j now store} (detail : String) : s.store.now ≤ now → j < s.parses.length →
      (s.clock now).perform limits.opens.store (.abandon j) = some store →
      Step s (.refused (parserFailed detail)) { s with store := store, parses := s.parses.eraseIdx j }
  | background {s call now store} : s.store.now ≤ now → call.Background →
      (s.clock now).perform limits.opens.store call = some store → Step s .quiet { s with store := store }
  | close {s id now closed store} : s.store.now ≤ now → (s.clock now).close id = (closed, store) →
      Step s (.closed id closed) { s with store := store }
  | uiInfo {s} : Step s (.metadata "" (s.getMetadata "")) s
  | metadata {s id now store} : s.store.now ≤ now → id.isEmpty = false →
      (s.clock now).perform limits.opens.store (.get id) = some store →
      Step s (.metadata id (s.getMetadata id)) { s with store := store }
  | definedNames {s id now store} : s.store.now ≤ now →
      (s.clock now).perform limits.opens.store (.get id) = some store →
      Step s (.definedNames id (s.getDefinedNames id)) { s with store := store }
  | stream {s id now store} (free : Nat) : s.store.now ≤ now →
      (s.clock now).perform limits.opens.store (.get id) = some store →
      Step s (.stream id (s.startStream id free)) { s with store := store }

/-- A run of the server, from its start. -/
abbrev Runs (xs : List Exchange) (s : Server) : Prop := Transition.Run (Step limits zip calamine) (start limits) xs s

end Step

end Server

end GrpcCalamine
