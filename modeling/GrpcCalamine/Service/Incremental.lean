import GrpcCalamine.Service.Batcher
/-!
# The incremental range stream

`emit_incremental` of `src/service.rs`: the cells an xlsx or xlsb reader
yields, in the order it yields them, densified into rows as they arrive. A row
that arrives late is queued like any other as long as no row at or past it has
been sent, and ends the stream otherwise.
-/

namespace GrpcCalamine

/-- A cell as calamine's reader yields it, with the formula of
`next_cell_with_formula` and the reader's `style_id()` at that point. -/
structure ReadCell where
  row : Nat
  col : Nat
  value : Calamine.DataRef
  formula : Option String
  styleId : Option Nat
  deriving DecidableEq

/-- `cell_tuple`'s value: shared strings become ids when there is a table. -/
def cellValue (value : Calamine.DataRef) (is1904 : Bool) (table : Option StringTable) :
    Pb.Value × Option StringTable :=
  match value, table with
  | .sharedString s, some t =>
    let (id, t) := t.intern s
    (.sharedStringId id, some t)
  | value, table => (Convert.dataRefValue value is1904, table)

/-- The `next_cell` closure of `run_stream_worksheet_range`, on one cell. -/
def nextCell (is1904 : Bool) (table : Option StringTable) (cell : ReadCell) :
    (Nat × Nat × Pb.CellData) × Option StringTable :=
  let (value, table) := cellValue cell.value is1904 table
  ((cell.row, cell.col, { Convert.cellData value with formula := cell.formula, styleId := cell.styleId }), table)

/-- What one incremental read is given: its header and declared extent, the
header row selected, and what the reader yields (`failure` is the error that
ends it, if one does). -/
structure IncrementalRead where
  header : Pb.RangeStarted
  dims : Calamine.Dimensions
  headerRow : Option Nat
  kind : Pb.CalamineErrorKind
  is1904 : Bool
  cells : List ReadCell
  failure : Option String

/-- The row under construction, and whether a cell has opened it yet. -/
structure Walk where
  batcher : RowBatcher
  currentRow : Nat
  isOpen : Bool
  values : List Pb.CellData

/-- Grow the row to hold column `idx` and write there. -/
def place (values : List Pb.CellData) (idx : Nat) (value : Pb.CellData) : List Pb.CellData :=
  (values ++ List.replicate (idx + 1 - values.length) Convert.emptyCellData).set idx value

/-- Whether the value is the blank `emit_incremental` drops. -/
def Pb.CellData.isBlank (value : Pb.CellData) : Bool := value.value = some .empty && value.formula = none

/-- Whether the walk keeps a cell: at or below the header row, and not blank. -/
def keeps (headerRow : Option Nat) (cell : Nat × Nat × Pb.CellData) : Bool :=
  !(headerRow.any fun n => cell.1 < n) && !cell.2.2.isBlank

/-- One turn of the loop of `emit_incremental`; `none` when it returns. -/
def walkCell (rt : Runtime) (r : IncrementalRead) (w : Walk) (cell : Nat × Nat × Pb.CellData) :
    Stream Pb.RangeEvent (Option Walk) :=
  let (row, idx, value) := cell
  -- Rows above the header row and blank cells are not part of the sheet.
  if !keeps r.headerRow cell then return some w
  else if w.isOpen ∧ row < w.currentRow then
    -- A late row: repairable as long as nothing at or past it has been sent.
    if !w.batcher.accepts row then do
      abortUnsorted rt.fmt r.kind r.header.sheetName row idx
      return none
    else do
      let late := (List.replicate (idx + 1) Convert.emptyCellData).set idx value
      let (ok, b) ← w.batcher.push rt ⟨row, late⟩
      return if ok then some { w with batcher := b } else none
  else if w.isOpen ∧ row ≠ w.currentRow then
    -- Close the row under construction and jump to the new one.
    if !w.batcher.accepts w.currentRow then do
      abortUnsorted rt.fmt r.kind r.header.sheetName w.currentRow 0
      return none
    else do
      let (ok, b) ← w.batcher.push rt ⟨w.currentRow, w.values⟩
      return if ok then some { batcher := b, currentRow := row, isOpen := true, values := place [] idx value }
        else none
  else return some { w with currentRow := row, isOpen := true, values := place w.values idx value }

/-! ### What a turn does -/

section turns
variable (rt : Runtime) (r : IncrementalRead) {w : Walk} {row idx : Nat} {value : Pb.CellData}

/-- A cell that is not part of the sheet. -/
theorem walkCell_dropped_eq (hk : keeps r.headerRow (row, idx, value) = false) :
    walkCell rt r w (row, idx, value) = .done (some w) := by
  simp [walkCell, hk]

/-- The first cell of the walk, or a cell of the row under construction. -/
theorem walkCell_placed_eq (hk : keeps r.headerRow (row, idx, value) = true)
    (hrow : w.isOpen = true → row = w.currentRow) :
    walkCell rt r w (row, idx, value) =
      .done (some { w with currentRow := row, isOpen := true, values := place w.values idx value }) := by
  have hlate : ¬ (w.isOpen = true ∧ row < w.currentRow) := by
    rintro ⟨ho, hlt⟩
    have := hrow ho
    omega
  have hnext : ¬ (w.isOpen = true ∧ row ≠ w.currentRow) := fun h => h.2 (hrow h.1)
  simp only [walkCell, hk, hlate, hnext, Bool.not_true, Bool.false_eq_true, if_false]
  rfl

/-- A late row that is still in time. -/
theorem walkCell_late_eq (hk : keeps r.headerRow (row, idx, value) = true) (ho : w.isOpen = true)
    (hlt : row < w.currentRow) (ha : w.batcher.accepts row = true) :
    walkCell rt r w (row, idx, value) = w.batcher.push rt ⟨row, place [] idx value⟩ >>= fun ok =>
      .done (if ok.1 then some { w with batcher := ok.2 } else none) := by
  have hplace : (List.replicate (idx + 1) Convert.emptyCellData).set idx value = place [] idx value := by simp [place]
  simp [walkCell, hk, ho, hlt, ha, hplace]

/-- A late row at or below one already sent. -/
theorem walkCell_lateRefused_eq (hk : keeps r.headerRow (row, idx, value) = true) (ho : w.isOpen = true)
    (hlt : row < w.currentRow) (ha : w.batcher.accepts row = false) :
    walkCell rt r w (row, idx, value) =
      (abortUnsorted rt.fmt r.kind r.header.sheetName row idx >>= fun _ => .done none) := by
  simp [walkCell, hk, ho, hlt, ha]

/-- A row past the one under construction, which is delivered. -/
theorem walkCell_next_eq (hk : keeps r.headerRow (row, idx, value) = true) (ho : w.isOpen = true)
    (hgt : w.currentRow < row) (ha : w.batcher.accepts w.currentRow = true) :
    walkCell rt r w (row, idx, value) = w.batcher.push rt ⟨w.currentRow, w.values⟩ >>= fun ok =>
      .done (if ok.1 then some ⟨ok.2, row, true, place [] idx value⟩ else none) := by
  have h₁ : ¬ row < w.currentRow := by omega
  have h₂ : row ≠ w.currentRow := by omega
  simp [walkCell, hk, ho, h₁, h₂, ha]

/-- A row past the one under construction, which comes too late itself. -/
theorem walkCell_nextRefused_eq (hk : keeps r.headerRow (row, idx, value) = true) (ho : w.isOpen = true)
    (hgt : w.currentRow < row) (ha : w.batcher.accepts w.currentRow = false) :
    walkCell rt r w (row, idx, value) =
      (abortUnsorted rt.fmt r.kind r.header.sheetName w.currentRow 0 >>= fun _ => .done none) := by
  have h₁ : ¬ row < w.currentRow := by omega
  have h₂ : row ≠ w.currentRow := by omega
  simp [walkCell, hk, ho, h₁, h₂, ha]

end turns

/-- Read a cell, and walk it. -/
def turn (rt : Runtime) (r : IncrementalRead) (w : Walk) (cell : ReadCell) : Stream Pb.RangeEvent (Option Walk) :=
  let (tuple, table) := nextCell r.is1904 w.batcher.strings cell
  walkCell rt r { w with batcher := { w.batcher with strings := table } } tuple

/-- The loop of `emit_incremental` over the cells still to come. -/
def walkCells (rt : Runtime) (r : IncrementalRead) (w : Walk) : List ReadCell → Stream Pb.RangeEvent (Option Walk)
  | [] => return some w
  | cell :: cells => do
    match ← turn rt r w cell with
    | some w => walkCells rt r w cells
    | none => return none

/-- Complete the final row and flush. -/
def finish (rt : Runtime) (r : IncrementalRead) (w : Walk) : Stream Pb.RangeEvent Unit :=
  if w.isOpen then
    if !w.batcher.accepts w.currentRow then abortUnsorted rt.fmt r.kind r.header.sheetName w.currentRow 0
    else do
      let (ok, b) ← w.batcher.push rt ⟨w.currentRow, w.values⟩
      if ok then do
        let _ ← b.flush rt
        return ()
      else return ()
  else do
    let _ ← w.batcher.flush rt
    return ()

/-- The batcher `run_stream_worksheet_range` sets up. -/
def rangeBatcher (maxRowsPerMessage : Nat) (strings : Option StringTable) (tables : List Pb.DeclaredTable)
    (numberFormats : List Pb.NumberFormat) : RowBatcher :=
  { RowBatcher.new maxRowsPerMessage strings with tables, numberFormats }

/-- The walk before its first cell. -/
def Walk.start (r : IncrementalRead) (b : RowBatcher) : Walk :=
  { batcher := match r.headerRow with
      | some n => b.openAt n
      | none => b,
    currentRow := r.dims.start.1, isOpen := false, values := [] }

def emitIncremental (rt : Runtime) (r : IncrementalRead) (b : RowBatcher) : Stream Pb.RangeEvent Unit := do
  if ← sendEvent (.started (b.header r.header)) then
    match ← walkCells rt r (Walk.start r b) r.cells with
    | some w =>
      match r.failure with
      | some e => abortWith r.kind e
      | none => finish rt r w
    | none => return ()
  else return ()

end GrpcCalamine
