import GrpcCalamine.Service.Send
import GrpcCalamine.Lib.Saturating
import GrpcCalamine.Lib.Grid
/-!
# The formula stream

`FormulaCollector`, `emit_sparse_formulas` and the dense branch of
`run_stream_worksheet_formula`: an xlsx or xlsb sheet's formulas are collected
cell by cell under two budgets and leave row by row; those of the other formats
come as a range calamine has already built.
-/

namespace GrpcCalamine

/-- `calamine::Range`: its corners and size, and its rows from the top, each
from the range's first column. -/
structure Calamine.Range (α : Type) where
  start : Option (Nat × Nat)
  «end» : Option (Nat × Nat)
  size : Nat × Nat
  rows : List (List α)

/-- Refuse a range that, streamed densely from column A, is more than `max`
cells. -/
def checkDense (fmt : Fmt) (sheetName : String) (rows columns max : Nat) : Except Status Unit :=
  let cells := satMul rows columns
  if cells ≤ max then .ok ()
  else .error ⟨.resourceExhausted,
    s!"sheet {fmt.debug sheetName} spans {rows} rows by {columns} columns counted from " ++
    s!"column A, {cells} cells, more than the {max} one stream may densify " ++
    "(GRPC_CALAMINE_MAX_DENSE_CELLS)"⟩

/-- `checkDense` for a range calamine has already built. -/
def checkDenseRange {α : Type} (fmt : Fmt) (sheetName : String) (range : Calamine.Range α) (max : Nat) :
    Except Status Unit :=
  match range.start with
  | none => .ok ()
  | some start => checkDense fmt sheetName range.size.1 (start.2 + range.size.2) max

/-- The `RangeStarted` header for a parsed range. -/
def rangeHeader {α : Type} (sheetName : String) (range : Calamine.Range α) (mergedRegions : List Pb.Dimensions) :
    Pb.RangeStarted :=
  match range.start, range.end with
  | some start, some last =>
    { sheetName, dimensions := some ⟨some (Convert.cellPosition start), some (Convert.cellPosition last)⟩,
      totalCells := wrapMul range.size.1 range.size.2, mergedRegions, tables := [], numberFormats := [] }
  | _, _ =>
    { sheetName, dimensions := none, totalCells := 0, mergedRegions, tables := [], numberFormats := [] }

/-- One formula, at its absolute row and column. -/
abbrev FormulaCell := Grid.Write String

/-- `size_of::<FormulaCell>()`, two `u32` and a `String`, on a 64-bit target. -/
def FORMULA_CELL_SIZE : Nat := 32

/-- Why collecting a sheet's formulas stopped short. -/
inductive CollectError where
  | read (e : String)
  | refused (status : Status)

structure FormulaCollector where
  sheetName : String
  maxDenseCells : Nat
  maxBytes : Nat
  cells : List FormulaCell
  rows : Option (Nat × Nat)
  lastCol : Nat
  bytes : Nat

namespace FormulaCollector

def new (sheetName : String) (maxDenseCells maxBytes : Nat) : FormulaCollector :=
  { sheetName, maxDenseCells, maxBytes, cells := [], rows := none, lastCol := 0, bytes := 0 }

def bytesMessage (fmt : Fmt) (c : FormulaCollector) : String :=
  s!"the formulas of sheet {fmt.debug c.sheetName} come to more than the {c.maxBytes} bytes one formula " ++
  "stream may collect (GRPC_CALAMINE_MAX_FORMULA_BYTES); calamine expands " ++
  "every cell of a shared formula into its own copy of the text"

/-- The rows from first to last, with `row` among them. -/
def extent : Option (Nat × Nat) → Nat → Nat × Nat
  | some (lo, hi), row => (min lo row, max hi row)
  | none, row => (row, row)

/-- Take one cell, or refuse the sheet once it passes a budget. -/
def push (fmt : Fmt) (c : FormulaCollector) (cell : FormulaCell) : Except CollectError FormulaCollector :=
  if cell.val.isEmpty then .ok c
  else
    let (first, last) := extent c.rows cell.row
    let lastCol := max c.lastCol cell.col
    match checkDense fmt c.sheetName (last - first + 1) (lastCol + 1) c.maxDenseCells with
    | .error status => .error (.refused status)
    | .ok () =>
      let bytes := satAdd c.bytes (satAdd cell.val.utf8ByteSize FORMULA_CELL_SIZE)
      if bytes > c.maxBytes then .error (.refused ⟨.resourceExhausted, bytesMessage fmt c⟩)
      else .ok { c with rows := some (first, last), lastCol, bytes, cells := c.cells ++ [cell] }

/-- The loop of `xlsx_formulas` and `xlsb_formulas`: cells until the reader has
no more, or fails. -/
def collect (fmt : Fmt) (c : FormulaCollector) : List FormulaCell → (failure : Option String) →
    Except CollectError (List FormulaCell)
  | [], some e => .error (.read e)
  | [], none => .ok c.cells
  | cell :: cells, failure => do
    let c ← c.push fmt cell
    collect fmt c cells failure

end FormulaCollector

def formulaStarted (header : Pb.RangeStarted) : Pb.FormulaEvent := .started header

/-- `cells.sort_by_key(|&(row, col, _)| (row, col))`, which is stable. -/
def sortByPosition (cells : List FormulaCell) : List FormulaCell := Grid.byPosition cells

/-- The inner loop of `emit_sparse_formulas`: the cells of `row`, written over
`formulas`, and the cells after them. -/
def takeRow (row : Nat) : (formulas : List String) → List FormulaCell → List String × List FormulaCell
  | formulas, [] => (formulas, [])
  | formulas, cell :: cells =>
    if cell.row = row then takeRow row (formulas.set cell.col cell.val) cells else (formulas, cell :: cells)

/-- The outer loop, over `n` rows from `row`. -/
def sendSparseRows (width : Nat) : (n row : Nat) → List FormulaCell → Stream Pb.FormulaEvent Unit
  | 0, _, _ => return ()
  | n + 1, row, cells => do
    let (formulas, cells) := takeRow row (List.replicate width "") cells
    if ← sendEvent (.row row formulas) then sendSparseRows width n (row + 1) cells else return ()

/-- Stream formula cells as the rows `Range::from_sparse` would give them,
building one row at a time instead of the whole range. -/
def emitSparseFormulas (fmt : Fmt) (sheetName : String) (cells : List FormulaCell) (maxDenseCells : Nat) :
    Stream Pb.FormulaEvent Unit :=
  let cells := sortByPosition cells
  match cells.head?, cells.getLast? with
  | some first, some last =>
    let firstRow := first.row
    let lastRow := last.row
    let firstCol := ((cells.map (·.col)).min?).getD 0
    let lastCol := ((cells.map (·.col)).max?).getD 0
    let rows := lastRow - firstRow + 1
    match checkDense fmt sheetName rows (lastCol + 1) maxDenseCells with
    | .error status => blockingSend status
    | .ok () => do
      let header : Pb.RangeStarted :=
        { sheetName,
          dimensions := some ⟨some (Convert.cellPosition (firstRow, firstCol)),
            some (Convert.cellPosition (lastRow, lastCol))⟩,
          totalCells := wrapMul rows (lastCol - firstCol + 1), mergedRegions := [], tables := [], numberFormats := [] }
      if ← sendEvent (formulaStarted header) then sendSparseRows (lastCol + 1) rows firstRow cells
      else return ()
  | _, _ => do
    let header : Pb.RangeStarted :=
      { sheetName, dimensions := none, totalCells := 0, mergedRegions := [], tables := [], numberFormats := [] }
    let _ ← sendEvent (formulaStarted header)
    return ()

/-- The rows of a range, each padded to start at column A. -/
def sendFormulaRows (pad : Nat) : (row : Nat) → List (List String) → Stream Pb.FormulaEvent Unit
  | _, [] => return ()
  | row, formulas :: rows => do
    if ← sendEvent (.row row (List.replicate pad "" ++ formulas)) then sendFormulaRows pad (row + 1) rows
    else return ()

/-- The end of `run_stream_worksheet_formula`, on a range. -/
def emitFormulaRange (fmt : Fmt) (sheetName : String) (range : Calamine.Range String) (maxDenseCells : Nat) :
    Stream Pb.FormulaEvent Unit :=
  match checkDenseRange fmt sheetName range maxDenseCells with
  | .error status => blockingSend status
  | .ok () => do
    if ← sendEvent (formulaStarted (rangeHeader sheetName range [])) then
      match range.start with
      | none => return ()
      | some start => sendFormulaRows start.2 start.1 range.rows
    else return ()

/-- What `run_stream_worksheet_formula` does with the cells of an xlsx or xlsb
sheet. -/
def streamSparseFormulas (fmt : Fmt) (sheetName : String) (kind : Pb.CalamineErrorKind)
    (sparse : Except CollectError (List FormulaCell)) (maxDenseCells : Nat) : Stream Pb.FormulaEvent Unit :=
  match sparse with
  | .ok cells => emitSparseFormulas fmt sheetName cells maxDenseCells
  | .error (.read e) => abortWith kind e
  | .error (.refused status) => blockingSend status

end GrpcCalamine
