import GrpcCalamine.Service.Stops
import GrpcCalamine.Service.Formula
/-!
# The bodies of the streaming RPCs

`run_stream_worksheet_range`, `run_stream_worksheet_formula`,
`run_stream_vba_project` and `run_get_pictures`, on what an open workbook and a
reader of it answer. Each ends as soon as a send is refused.
-/

namespace GrpcCalamine

open Emit (StopsIn Stops)

/-! ## What the bodies read -/

inductive SheetsKind where
  | xlsx | xlsb | xls | ods
  deriving DecidableEq

/-- An incremental reader of one sheet: its declared extent, and the cells of
each way to walk it with the error that ends the walk, if one does. -/
structure CellsReader where
  dimensions : Calamine.Dimensions
  cells : List ReadCell × Option String
  cellsWithFormula : List ReadCell × Option String
  formulas : List FormulaCell × Option String

inductive CellsReaderError where
  | notAWorksheet (e : String)
  | other (e : String)

def CellsReaderError.text : CellsReaderError → String
  | notAWorksheet e | other e => e

structure VbaProject where
  references : List Pb.VbaReference
  moduleNames : List String
  getModuleRaw : String → Except String (List UInt8)

/-- `calamine::Sheets`, by its answers. -/
structure Sheets where
  kind : SheetsKind
  mergeCellsBySheetName : String → Except String (List Calamine.Dimensions)
  worksheetCellsReader : String → Except CellsReaderError CellsReader
  worksheetRange : String → Except String (Calamine.Range Calamine.Data)
  worksheetFormula : String → Except String (Calamine.Range String)
  vbaProject : Except String (Option VbaProject)
  pictures : List Pb.Picture

/-- Why `WorkbookEntry::reader` gave out none. -/
inductive ReaderError where
  | limit (e : String)
  | «open» (e : String)

/-- What the bodies use of a `WorkbookEntry`: `reader` is the reader this body
is given. -/
structure EntryView where
  format : Pb.WorkbookFormat
  sheetNames : List String
  tables : String → Option (List Pb.DeclaredTable)
  numberFormats : List Pb.NumberFormat
  is1904 : Bool
  headerRow : Option HeaderRow
  reader : Except ReaderError Sheets

/-- Resolve a `SheetSelector` to a concrete sheet name. -/
def resolveSheetName (entry : EntryView) (selector : Option (Option Pb.SheetSelector)) : Except Status String :=
  match selector with
  | none => .error ⟨.invalidArgument, "sheet selector is required"⟩
  | some (some (.sheetName name)) => .ok name
  | some (some (.sheetIndex i)) =>
    match entry.sheetNames[i]? with
    | some name => .ok name
    | none => .error ⟨.notFound, s!"no sheet at index {i}"⟩
  | some none => .error ⟨.invalidArgument, "sheet selector is empty"⟩

/-- Borrow a reader of `entry` for a stream, or end the stream. -/
def checkout {T : Type} [StreamResponse T] (entry : EntryView) (kind : Pb.CalamineErrorKind) :
    Stream T (Option Sheets) :=
  match entry.reader with
  | .ok reader => return some reader
  | .error (.limit e) => do
    blockingSend ⟨.resourceExhausted, e⟩
    return none
  | .error (.open e) => do
    abortWith kind e
    return none

/-- `event` itself if it encodes within the frame limit, and otherwise a
non-terminal in-band error naming `what` was skipped. -/
def withinFrame {T : Type} [StreamResponse T] (encodedLen : T → Nat) (event : T) (kind : Pb.CalamineErrorKind)
    (what : String) : T :=
  let size := encodedLen event
  if size ≤ MAX_FRAME_BYTES then event
  else StreamResponse.fromStreamError
    { error := some (Convert.calamineError kind
        (s!"{what} encodes to {size} bytes, more than the {MAX_FRAME_BYTES} one " ++ "message may carry; skipped")),
      terminal := false }

/-! ## Ranges -/

/-- `declared_total_cells`. -/
def declaredTotalCells (dims : Calamine.Dimensions) : Nat :=
  if dims.end.1 < dims.start.1 ∨ dims.end.2 < dims.start.2 then 0
  else
    let rows := dims.end.1 - dims.start.1 + 1
    let cols := dims.end.2 - dims.start.2 + 1
    wrapMul rows cols

def declaredHeader (sheetName : String) (dims : Calamine.Dimensions) (mergedRegions : List Pb.Dimensions) :
    Pb.RangeStarted :=
  { sheetName, dimensions := some (Convert.dimensions dims), totalCells := declaredTotalCells dims, mergedRegions,
    tables := [], numberFormats := [] }

/-- The merged cell areas a sheet declares; none where reading them fails. -/
def mergedRegions (workbook : Sheets) (sheetName : String) : List Pb.Dimensions :=
  let areas := match workbook.kind with
    | .xlsx | .xls =>
      match workbook.mergeCellsBySheetName sheetName with
      | .ok areas => areas
      | .error _ => []
    | _ => []
  areas.map Convert.dimensions

/-- The rows of a dense range from row `row`, padded to start at column A;
those that hold nothing are left out. -/
def pushRangeRows (rt : Runtime) (is1904 : Bool) (pad : Nat) (b : RowBatcher) :
    (row : Nat) → List (List Calamine.Data) → Stream Pb.RangeEvent Unit
  | _, [] => do
    let _ ← b.flush rt
    return ()
  | row, data :: rows =>
    if data.all fun d => d = .empty then pushRangeRows rt is1904 pad b ((row + 1) % 2 ^ 32) rows
    else do
      let values := List.replicate pad Convert.emptyCellData ++
        data.map fun d => Convert.cellData (Convert.dataValue d is1904)
      let (ok, b) ← b.push rt ⟨row, values⟩
      if ok then pushRangeRows rt is1904 pad b ((row + 1) % 2 ^ 32) rows else return ()

/-- Emit the rows of a dense range, calamine having built it. -/
def emitRange (rt : Runtime) (sheetName : String) (range : Calamine.Range Calamine.Data)
    (mergedRegions : List Pb.Dimensions) (is1904 : Bool) (maxDenseCells : Nat) (b : RowBatcher) :
    Stream Pb.RangeEvent Unit :=
  match checkDenseRange rt.fmt sheetName range maxDenseCells with
  | .error status => blockingSend status
  | .ok () => do
    if ← sendEvent (.started (b.header (rangeHeader sheetName range mergedRegions))) then
      match range.start with
      | none => return ()
      | some start => pushRangeRows rt is1904 start.2 (b.openAt start.1) start.1 range.rows
    else return ()

/-- What a range request asks for. -/
structure RangeRequest where
  selector : Option (Option Pb.SheetSelector)
  maxRowsPerMessage : Nat
  useStringTable : Bool
  includeFormulas : Bool

/-- The sheet as a whole range, for what has no incremental reader. -/
def streamWholeRange (rt : Runtime) (entry : EntryView) (workbook : Sheets) (sheetName : String)
    (merged : List Pb.Dimensions) (kind : Pb.CalamineErrorKind) (maxDenseCells : Nat) (b : RowBatcher) :
    Stream Pb.RangeEvent Unit :=
  match workbook.worksheetRange sheetName with
  | .ok range => emitRange rt sheetName range merged entry.is1904 maxDenseCells b
  | .error e => abortWith kind e

/-- The blocking body of `StreamWorksheetRange`. -/
def runStreamWorksheetRange (rt : Runtime) (entry : EntryView) (req : RangeRequest) (maxDenseCells : Nat) :
    Stream Pb.RangeEvent Unit :=
  let table := if req.useStringTable then some StringTable.new else none
  match resolveSheetName entry req.selector with
  | .error status => blockingSend status
  | .ok sheetName => do
    let b := rangeBatcher req.maxRowsPerMessage table ((entry.tables sheetName).getD []) entry.numberFormats
    let kind := Convert.errorKindForFormat entry.format
    match ← checkout entry kind with
    | none => return ()
    | some workbook =>
      let headerRow := match entry.headerRow with
        | some (.row n) => some n
        | _ => none
      let merged := mergedRegions workbook sheetName
      let incremental (reader : CellsReader) (walk : List ReadCell × Option String) : Stream Pb.RangeEvent Unit :=
        emitIncremental rt
          { header := declaredHeader sheetName reader.dimensions merged, dims := reader.dimensions, headerRow, kind,
            is1904 := entry.is1904, cells := walk.1, failure := walk.2 } b
      let whole := streamWholeRange rt entry workbook sheetName merged kind maxDenseCells b
      match workbook.kind with
      | .xlsx =>
        match workbook.worksheetCellsReader sheetName with
        | .ok reader => incremental reader (if req.includeFormulas then reader.cellsWithFormula else reader.cells)
        | .error _ => whole
      | .xlsb =>
        match workbook.worksheetCellsReader sheetName with
        | .ok reader => incremental reader reader.cells
        | .error _ => whole
      | _ => whole

/-! ## Formulas -/

/-- `xlsx_formulas`: nothing for a sheet that is not a worksheet. -/
def xlsxFormulas (fmt : Fmt) (workbook : Sheets) (collector : FormulaCollector) :
    Except CollectError (List FormulaCell) :=
  match workbook.worksheetCellsReader collector.sheetName with
  | .ok reader => collector.collect fmt reader.formulas.1 reader.formulas.2
  | .error (.notAWorksheet _) => .ok []
  | .error (.other e) => .error (.read e)

def xlsbFormulas (fmt : Fmt) (workbook : Sheets) (collector : FormulaCollector) :
    Except CollectError (List FormulaCell) :=
  match workbook.worksheetCellsReader collector.sheetName with
  | .ok reader => collector.collect fmt reader.formulas.1 reader.formulas.2
  | .error e => .error (.read e.text)

/-- The blocking body of `StreamWorksheetFormula`. -/
def runStreamWorksheetFormula (fmt : Fmt) (entry : EntryView) (selector : Option (Option Pb.SheetSelector))
    (maxDenseCells maxFormulaBytes : Nat) : Stream Pb.FormulaEvent Unit :=
  match resolveSheetName entry selector with
  | .error status => blockingSend status
  | .ok sheetName => do
    let kind := Convert.errorKindForFormat entry.format
    match ← checkout entry kind with
    | none => return ()
    | some workbook =>
      let collector := FormulaCollector.new sheetName maxDenseCells maxFormulaBytes
      match workbook.kind with
      | .xlsx => streamSparseFormulas fmt sheetName kind (xlsxFormulas fmt workbook collector) maxDenseCells
      | .xlsb => streamSparseFormulas fmt sheetName kind (xlsbFormulas fmt workbook collector) maxDenseCells
      | _ =>
        match workbook.worksheetFormula sheetName with
        | .ok range => emitFormulaRange fmt sheetName range maxDenseCells
        | .error e => abortWith kind e

/-! ## VBA and pictures -/

/-- Send events until one is refused. -/
def sendAll {T : Type} : List T → Stream T Unit
  | [] => return ()
  | event :: events => do
    if ← sendEvent event then sendAll events else return ()

/-- The event of one VBA module: a module that cannot be read is an error the
stream survives. -/
def vbaModuleEvent (fmt : Fmt) (encodedLen : Pb.VbaEvent → Nat) (project : VbaProject) (name : String) : Pb.VbaEvent :=
  let what := s!"VBA module {fmt.debug name}"
  match project.getModuleRaw name with
  | .ok raw => withinFrame encodedLen (.module { name, rawContent := raw }) .vba what
  | .error e => .error { error := some (Convert.calamineError .vba e), terminal := false }

/-- The blocking body of `StreamVbaProject`. -/
def runStreamVbaProject (fmt : Fmt) (encodedLen : Pb.VbaEvent → Nat) (entry : EntryView) : Stream Pb.VbaEvent Unit := do
  let kind := Convert.errorKindForFormat entry.format
  match ← checkout entry kind with
  | none => return ()
  | some workbook =>
    match workbook.vbaProject with
    | .ok (some project) =>
      let info : Pb.VbaProjectInfo :=
        { present := true, references := project.references, moduleNames := project.moduleNames }
      if ← sendEvent (.info info) then sendAll (project.moduleNames.map (vbaModuleEvent fmt encodedLen project))
      else return ()
    | .ok none =>
      let _ ← sendEvent (Pb.VbaEvent.info { present := false, references := [], moduleNames := [] })
      return ()
    | .error e => abortWith kind e

def pictureEvent (fmt : Fmt) (encodedLen : Pb.PictureEvent → Nat) (kind : Pb.CalamineErrorKind) (pic : Pb.Picture) :
    Pb.PictureEvent :=
  withinFrame encodedLen (.picture pic) kind
    s!"picture {fmt.debug pic.name} at row {pic.row}, column {pic.col} of sheet {fmt.debug pic.sheetName}"

/-- The blocking body of `GetPictures`. -/
def runGetPictures (fmt : Fmt) (encodedLen : Pb.PictureEvent → Nat) (entry : EntryView) :
    Stream Pb.PictureEvent Unit := do
  let kind := Convert.errorKindForFormat entry.format
  match ← checkout entry kind with
  | none => return ()
  | some workbook => sendAll (workbook.pictures.map (pictureEvent fmt encodedLen kind))

/-! ## Every body stops at a refused send -/

theorem sendAll_stops {T : Type} (events : List T) : Stops (sendAll events) := by
  induction events with
  | nil => trivial
  | cons event events ih => exact ⟨⟨(), trivial, rfl⟩, ih⟩

theorem checkout_stops {T : Type} [StreamResponse T] (entry : EntryView) (kind : Pb.CalamineErrorKind) :
    StopsIn (· = none) (checkout entry kind : Stream T (Option Sheets)) := by
  unfold checkout
  cases entry.reader with
  | ok reader => trivial
  | error e => cases e with
    | limit e => exact (blockingSend_stops _).bind (fun _ _ => ⟨none, rfl, rfl⟩) trivial
    | «open» e => exact (abortWith_stops kind e).bind (fun _ _ => ⟨none, rfl, rfl⟩) trivial

/-- After `checkout`, whatever is done with a reader has to stop. -/
theorem checkout_bind_stops {T : Type} [StreamResponse T] (entry : EntryView) (kind : Pb.CalamineErrorKind)
    {body : Option Sheets → Stream T Unit} (hnone : body none = .done ()) (hsome : ∀ wb, Stops (body (some wb))) :
    Stops (checkout entry kind >>= body) := by
  apply (checkout_stops entry kind).bind
  · intro o ho
    rw [ho, hnone]
    exact ⟨(), trivial, rfl⟩
  · cases (checkout entry kind : Stream T (Option Sheets)).result with
    | none => rw [hnone]; trivial
    | some wb => exact hsome wb

theorem pushRangeRows_stops (rt : Runtime) (is1904 : Bool) (pad : Nat) (b : RowBatcher) (row : Nat)
    (rows : List (List Calamine.Data)) : Stops (pushRangeRows rt is1904 pad b row rows) := by
  induction rows generalizing b row with
  | nil => exact (b.flush_stops rt).stops.bind (fun _ _ => ⟨(), trivial, rfl⟩) trivial
  | cons data rows ih =>
    unfold pushRangeRows
    split
    · exact ih b _
    · apply (b.push_stops rt _).bind_flag
      · intro b'
        exact ⟨(), trivial, rfl⟩
      · intro b'
        exact ih b' _

theorem emitRange_stops (rt : Runtime) (sheetName : String) (range : Calamine.Range Calamine.Data)
    (merged : List Pb.Dimensions) (is1904 : Bool) (maxDenseCells : Nat) (b : RowBatcher) :
    Stops (emitRange rt sheetName range merged is1904 maxDenseCells b) := by
  unfold emitRange
  cases checkDenseRange rt.fmt sheetName range maxDenseCells with
  | error status => exact blockingSend_stops status
  | ok u =>
    apply (Emit.stopsIn_ask _).bind
    · intro ok hok
      rw [hok]
      exact ⟨(), trivial, rfl⟩
    simp only [Emit.ask, Emit.result_send, Emit.result_done, if_true]
    cases range.start with
    | none => trivial
    | some start => exact pushRangeRows_stops _ _ _ _ _ _

theorem streamWholeRange_stops (rt : Runtime) (entry : EntryView) (workbook : Sheets) (sheetName : String)
    (merged : List Pb.Dimensions) (kind : Pb.CalamineErrorKind) (maxDenseCells : Nat) (b : RowBatcher) :
    Stops (streamWholeRange rt entry workbook sheetName merged kind maxDenseCells b) := by
  unfold streamWholeRange
  cases workbook.worksheetRange sheetName with
  | ok range => exact emitRange_stops _ _ _ _ _ _ _
  | error e => exact abortWith_stops _ _

theorem runStreamWorksheetRange_stops (rt : Runtime) (entry : EntryView) (req : RangeRequest) (maxDenseCells : Nat) :
    Stops (runStreamWorksheetRange rt entry req maxDenseCells) := by
  unfold runStreamWorksheetRange
  cases resolveSheetName entry req.selector with
  | error status => exact blockingSend_stops status
  | ok sheetName =>
    apply checkout_bind_stops entry _ rfl
    intro wb
    simp only []
    cases wb.kind with
    | xlsx =>
      simp only []
      cases wb.worksheetCellsReader sheetName with
      | ok reader => exact emitIncremental_stops _ _ _
      | error e => exact streamWholeRange_stops _ _ _ _ _ _ _ _
    | xlsb =>
      simp only []
      cases wb.worksheetCellsReader sheetName with
      | ok reader => exact emitIncremental_stops _ _ _
      | error e => exact streamWholeRange_stops _ _ _ _ _ _ _ _
    | xls => exact streamWholeRange_stops _ _ _ _ _ _ _ _
    | ods => exact streamWholeRange_stops _ _ _ _ _ _ _ _

theorem sendSparseRows_stops (width n row : Nat) (cells : List FormulaCell) :
    Stops (sendSparseRows width n row cells) := by
  induction n generalizing row cells with
  | zero => trivial
  | succ n ih => exact ⟨⟨(), trivial, rfl⟩, ih _ _⟩

theorem emitSparseFormulas_stops (fmt : Fmt) (sheetName : String) (cells : List FormulaCell) (maxDenseCells : Nat) :
    Stops (emitSparseFormulas fmt sheetName cells maxDenseCells) := by
  unfold emitSparseFormulas
  simp only []
  split
  · split
    · exact blockingSend_stops _
    · exact ⟨⟨(), trivial, rfl⟩, sendSparseRows_stops _ _ _ _⟩
  · exact ⟨⟨(), trivial, rfl⟩, trivial⟩

theorem sendFormulaRows_stops (pad row : Nat) (rows : List (List String)) : Stops (sendFormulaRows pad row rows) := by
  induction rows generalizing row with
  | nil => trivial
  | cons formulas rows ih => exact ⟨⟨(), trivial, rfl⟩, ih _⟩

theorem emitFormulaRange_stops (fmt : Fmt) (sheetName : String) (range : Calamine.Range String) (maxDenseCells : Nat) :
    Stops (emitFormulaRange fmt sheetName range maxDenseCells) := by
  unfold emitFormulaRange
  cases checkDenseRange fmt sheetName range maxDenseCells with
  | error status => exact blockingSend_stops status
  | ok u =>
    refine ⟨⟨(), trivial, rfl⟩, ?_⟩
    simp only []
    cases range.start with
    | none => trivial
    | some start => exact sendFormulaRows_stops _ _ _

theorem streamSparseFormulas_stops (fmt : Fmt) (sheetName : String) (kind : Pb.CalamineErrorKind)
    (sparse : Except CollectError (List FormulaCell)) (maxDenseCells : Nat) :
    Stops (streamSparseFormulas fmt sheetName kind sparse maxDenseCells) := by
  unfold streamSparseFormulas
  split
  · exact emitSparseFormulas_stops _ _ _ _
  · exact abortWith_stops _ _
  · exact blockingSend_stops _

theorem runStreamWorksheetFormula_stops (fmt : Fmt) (entry : EntryView) (selector : Option (Option Pb.SheetSelector))
    (maxDenseCells maxFormulaBytes : Nat) :
    Stops (runStreamWorksheetFormula fmt entry selector maxDenseCells maxFormulaBytes) := by
  unfold runStreamWorksheetFormula
  cases resolveSheetName entry selector with
  | error status => exact blockingSend_stops status
  | ok sheetName =>
    apply checkout_bind_stops entry _ rfl
    intro wb
    -- xls and ods go through the whole range
    have hrange : Stops (match wb.worksheetFormula sheetName with
        | .ok range => emitFormulaRange fmt sheetName range maxDenseCells
        | .error e => abortWith (Convert.errorKindForFormat entry.format) e) := by
      cases wb.worksheetFormula sheetName with
      | ok range => exact emitFormulaRange_stops _ _ _ _
      | error e => exact abortWith_stops _ _
    simp only []
    cases wb.kind with
    | xlsx => exact streamSparseFormulas_stops _ _ _ _ _
    | xlsb => exact streamSparseFormulas_stops _ _ _ _ _
    | xls => exact hrange
    | ods => exact hrange

theorem runStreamVbaProject_stops (fmt : Fmt) (encodedLen : Pb.VbaEvent → Nat) (entry : EntryView) :
    Stops (runStreamVbaProject fmt encodedLen entry) := by
  apply checkout_bind_stops entry _ rfl
  intro wb
  simp only []
  cases wb.vbaProject with
  | error e => exact abortWith_stops _ _
  | ok project => cases project with
    | none => exact ⟨⟨(), trivial, rfl⟩, trivial⟩
    | some project => exact ⟨⟨(), trivial, rfl⟩, sendAll_stops _⟩

theorem runGetPictures_stops (fmt : Fmt) (encodedLen : Pb.PictureEvent → Nat) (entry : EntryView) :
    Stops (runGetPictures fmt encodedLen entry) :=
  checkout_bind_stops entry _ rfl fun _ => sendAll_stops _

end GrpcCalamine
