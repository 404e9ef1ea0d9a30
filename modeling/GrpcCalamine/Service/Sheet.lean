import GrpcCalamine.Service.Agreement
import GrpcCalamine.Service.SortedStream
/-!
# What a range stream is answered from

A request is answered from the cells of its sheet or from its range read whole
(`Reading`), and the body sends one of the two, a status, or the error of a
workbook that has neither (`runStreamWorksheetRange_cases`). A stream that ends
with no status tells all of what it was answered from, or ends with a terminal
error because the sheet cannot be read to its end in order (`Answered`,
`runStreamWorksheetRange_answers`).
-/

namespace GrpcCalamine

open Grid (announce rowsIn)
open RowBatcher (AllCarried Carried)

/-! ## The incremental stream -/

section incremental

variable (rt : Runtime) (r : IncrementalRead) (maxRows : Nat) (strings : Option StringTable)
  (tables : List Pb.DeclaredTable) (formats : List Pb.NumberFormat)

/-- The rows of the sheet come in order. -/
def IncrementalRead.Sorted : Prop := r.cells.Pairwise fun c c' => c.row ≤ c'.row

instance : Decidable r.Sorted := inferInstanceAs (Decidable (List.Pairwise _ _))

/-- Rows in order are all got through. -/
theorem walkCells_through (hrows : ∀ c ∈ r.cells, c.row < 2 ^ 32) (hsorted : r.Sorted) :
    (walkCells rt r (startWalk r maxRows strings tables formats) r.cells).result ≠ none := by
  obtain ⟨w, -, hw, -⟩ := walkCells_sorted rt r (startWalk_sorted r maxRows strings tables formats) hrows hsorted
    (List.forall_mem_nil _)
  rw [hw]
  exact nofun

/-- The header, and every kept cell at its place; for rows in order, the
reference to the letter. -/
structure IncrementalRead.Told (items : List (Item Pb.RangeEvent)) : Prop where
  unfailed : r.failure = none
  header : items.head? = some (startedEvent r maxRows strings tables formats)
  holds : Holds (kept r.headerRow (yields r.is1904 strings r.cells)) (rowsIn (flatten items))
  inOrder : r.Sorted → flatten items = reference r strings

/-- The stream of a reader is whole, or ends with the error of a reader that
failed or of a cell that came too late. -/
theorem rangeEvents_ends (hrows : ∀ c ∈ r.cells, c.row < 2 ^ 32 - 1) :
    (∃ before err, rangeEvents rt r maxRows strings tables formats =
        before ++ [.event (.error { error := some err, terminal := true })] ∧ (r.failure.isSome ∨ ¬ r.Sorted)) ∨
      (r.Told maxRows strings tables formats (rangeEvents rt r maxRows strings tables formats) ∧
        ∀ e, .event (.error e) ∉ rangeEvents rt r maxRows strings tables formats) := by
  cases hw : (walkCells rt r (startWalk r maxRows strings tables formats) r.cells).result with
  | none =>
    left
    obtain ⟨pre, c, post, w, hsplit, hreach, hlate⟩ := stops_tooLate hrows hw
    obtain ⟨-, hev⟩ := rangeEvents_tooLate hrows hsplit hreach hlate
    refine ⟨startedEvent r maxRows strings tables formats ::
      (walkCells rt r (startWalk r maxRows strings tables formats) pre).events, _, hev, .inr fun hsorted => ?_⟩
    exact walkCells_through rt r maxRows strings tables formats
      (fun c hc => Nat.lt_of_lt_of_le (hrows c hc) (Nat.sub_le _ _)) hsorted hw
  | some w =>
    cases hfail : r.failure with
    | some e =>
      left
      refine ⟨startedEvent r maxRows strings tables formats ::
        (walkCells rt r (startWalk r maxRows strings tables formats) r.cells).events,
        Convert.calamineError r.kind e, ?_, .inl rfl⟩
      rw [rangeEvents_eq, hw, hfail]
      rfl
    | none =>
      right
      obtain ⟨rest, all, hev, hc, hflat, -, hholds, -⟩ := rangeEvents_through hrows hfail hw
      have hitems : flatten (rangeEvents rt r maxRows strings tables formats) = flatten rest := by
        rw [hev]
        rfl
      refine ⟨⟨hfail, by rw [hev]; rfl, ?_, fun hsorted => ?_⟩, ?_⟩
      · rw [hitems, hflat, Grid.rowsIn_announce]
        exact hholds
      · exact rangeEvents_inOrder rt r maxRows strings tables formats
          (fun c hc => Nat.lt_of_lt_of_le (hrows c hc) (Nat.sub_le _ _)) hsorted hfail
      · intro e he
        rw [hev] at he
        rcases List.mem_cons.1 he with hstart | hrest
        · cases hstart
        · obtain ⟨e', he', hcarried⟩ := hc _ hrest
          cases he'
          exact hcarried

end incremental

/-! ## The buffered stream -/

/-- Room in the queue, and no row in it that is `u32::MAX`. -/
structure RowBatcher.Roomy (b : RowBatcher) : Prop where
  rows : RowsBelow b.rows
  room : b.rows.length < b.cap

section buffered

variable (rt : Runtime) {b : RowBatcher}

/-- A push carries what it sends, and leaves room for the next. -/
theorem push_carried (h : b.Roomy) (row : Pb.WorksheetRow) (hrow : row.rowIndex < 2 ^ 32 - 1) :
    AllCarried b (b.push rt row).events ∧
      ∃ b', (b.push rt row).result = (true, b') ∧ b'.Roomy ∧ b'.single = b.single ∧ b'.cap = b.cap := by
  have hlen := RowBatcher.length_queue b.rows row
  have hroom := h.room
  have hbelow : RowsBelow (RowBatcher.queue b.rows row) := by
    intro x hx
    have hmem := (RowBatcher.mem_queue_index b.rows row x.rowIndex).1 (List.mem_map_of_mem hx)
    rcases hmem with hmem | heq
    · obtain ⟨y, hy, he⟩ := List.mem_map.1 hmem
      exact he ▸ h.rows y hy
    · exact heq ▸ hrow
  obtain ⟨o, p, n, ⟨hpush, hsmall⟩ | hpush⟩ := b.push_eq rt row
  · rw [hpush]
    exact ⟨.nil b, _, rfl, ⟨hbelow, hsmall⟩, rfl, rfl⟩
  · have hne : (b.queued row o p n).rows ≠ [] := List.length_pos_iff.1 hlen.1
    have hfull : (b.queued row o p n).rows.length ≤ (b.queued row o p n).cap := by
      simp only [RowBatcher.queued]
      omega
    obtain ⟨hr, -⟩ := RowBatcher.flush_spec rt _ hne hbelow
    rw [hpush]
    refine ⟨RowBatcher.flush_carried rt _ hbelow hfull, _, hr, ⟨?_, ?_⟩, ?_, ?_⟩
    · unfold RowBatcher.past
      split <;> exact List.forall_mem_nil _
    · unfold RowBatcher.past
      split <;> exact Nat.zero_lt_of_lt hroom
    · rw [RowBatcher.past_single]
      rfl
    · rw [RowBatcher.past_cap]
      rfl

theorem pushRangeRows_carried (is1904 : Bool) (pad : Nat) (h : b.Roomy) {row : Nat} {rows : List (List Calamine.Data)}
    (hrows : row + rows.length ≤ 2 ^ 32 - 1) : AllCarried b (pushRangeRows rt is1904 pad b row rows).events := by
  induction rows generalizing b row with
  | nil => simpa [pushRangeRows] using RowBatcher.flush_carried rt b h.rows (Nat.le_of_lt h.room)
  | cons data rows ih =>
    rw [List.length_cons] at hrows
    have hnext : (row + 1) % 2 ^ 32 = row + 1 := Nat.mod_eq_of_lt (by omega)
    rw [pushRangeRows, hnext]
    split
    · exact ih h (by omega)
    · obtain ⟨hc, b', hr, hroomy, hs, hcap⟩ := push_carried rt h ⟨row,
        List.replicate pad Convert.emptyCellData ++ data.map fun d => Convert.cellData (Convert.dataValue d is1904)⟩
        (by simp only []; omega)
      rw [Emit.events_bind, hr]
      exact hc.append ((ih hroomy (by omega)).congr hs.symm hcap.symm)

end buffered

/-- A range calamine builds, none of its rows `u32::MAX`. -/
structure Calamine.Range.Readable {α : Type} (range : Calamine.Range α) : Prop where
  built : range.Built
  rows : ∀ last ∈ range.end, last.1 < 2 ^ 32 - 1

/-- The rows of a range that hold something, from column A. -/
def Calamine.Range.readRows (range : Calamine.Range Calamine.Data) (is1904 : Bool) : List Pb.WorksheetRow :=
  match range.start with
  | none => []
  | some start => denseRows is1904 start.2 start.1 range.rows

/-- A buffered stream: a status, or the header and the rows announced from the
first of them. -/
theorem emitRange_cases (s : Setup) (sheetName : String) {range : Calamine.Range Calamine.Data} (h : range.Readable)
    (merged : List Pb.Dimensions) (is1904 : Bool) (maxDenseCells : Nat) :
    (∃ status, s.buffered sheetName range merged is1904 maxDenseCells = [.status status]) ∨
      ∃ rest, s.buffered sheetName range merged is1904 maxDenseCells =
          .event (.started (s.batcher.header (rangeHeader sheetName range merged))) :: rest ∧
        AllCarried s.batcher rest ∧ (∀ i ∈ rest, RowItem i) ∧ InOrder (range.readRows is1904) ∧
        flatten rest = announce (·.rowIndex) (range.start.map (·.1)) (range.readRows is1904) := by
  unfold Setup.buffered emitRange
  cases hcheck : checkDenseRange s.rt.fmt sheetName range maxDenseCells with
  | error status => exact .inl ⟨status, rfl⟩
  | ok u =>
    right
    rcases h.built with ⟨hnone, -⟩ | ⟨lo, hi, hd⟩
    · -- a range without cells is its header
      refine ⟨[], ?_, .nil _, List.forall_mem_nil _, ?_, ?_⟩
      · simp only [hnone, sendEvent, Emit.ask_bind, Emit.events_send, if_true, Emit.pure_eq, Emit.events_done]
      · simp only [Calamine.Range.readRows, hnone]
        exact ⟨.nil, List.forall_mem_nil _⟩
      · simp only [Calamine.Range.readRows, hnone]
        rfl
    · have hlast := h.rows hi hd.last
      have hheight : lo.1 + range.rows.length ≤ 2 ^ 32 - 1 := by
        rw [hd.height]
        have := hd.ordered.1
        omega
      have hin : InOrder (denseRows is1904 lo.2 lo.1 range.rows) := denseRows_inOrder is1904 lo.2 hd.within
      have hroomy : (s.batcher.openAt lo.1).Roomy := by
        refine ⟨List.forall_mem_nil _, ?_⟩
        show 0 < s.batcher.cap
        rw [Setup.batcher, rangeBatcher_cap]
        have := allowedRows_pos s.maxRowsPerMessage
        split
        · exact Nat.succ_pos _
        · exact this
      have hdelivers := pushRangeRows_delivers s.rt is1904 lo.2 hd.within (s.ready_openAt lo.1 hin)
      have hcarried := pushRangeRows_carried s.rt is1904 lo.2 hroomy hheight
      refine ⟨_, ?_, hcarried, hdelivers.rowItems, ?_, ?_⟩
      · simp only [hd.start, sendEvent, Emit.ask_bind, Emit.events_send, if_true]
      · simpa only [Calamine.Range.readRows, hd.start] using hin
      · simp only [Calamine.Range.readRows, hd.start]
        exact hdelivers.flat

/-! ## The body -/

/-- The table a request starts with. -/
def tableOf (dictionary : Bool) : Option StringTable := if dictionary then some .new else none

/-- The header row the workbook was opened with, if it was one by index. -/
def EntryView.selectedRow (entry : EntryView) : Option Nat :=
  match entry.headerRow with
  | some (.row n) => some n
  | _ => none

/-- The setup of a request's stream. -/
def RangeRequest.setup (rt : Runtime) (req : RangeRequest) (entry : EntryView) (name : String) : Setup :=
  ⟨rt, req.maxRowsPerMessage, req.useStringTable, (entry.tables name).getD [], entry.numberFormats⟩

/-- What a request is answered from: the cells of its sheet, or its range
whole. -/
inductive Reading where
  | cells (read : IncrementalRead)
  | dense (merged : List Pb.Dimensions) (range : Calamine.Range Calamine.Data)

/-- The cells a request walks: with their formulas, if it asks for them and
calamine has them. -/
def CellsReader.walk (reader : CellsReader) (kind : SheetsKind) (includeFormulas : Bool) :
    List ReadCell × Option String :=
  match kind with
  | .xlsx => if includeFormulas then reader.cellsWithFormula else reader.cells
  | _ => reader.cells

/-- The reader of a sheet's cells, where calamine has one. -/
def Sheets.cellsReader (workbook : Sheets) (name : String) : Option CellsReader :=
  match workbook.kind with
  | .xlsx | .xlsb => (workbook.worksheetCellsReader name).toOption
  | .xls | .ods => none

/-- What the sheet called `name` is read from, if it can be read: its cells,
and its range where there is no reader of them. -/
def Sheets.reading (workbook : Sheets) (entry : EntryView) (includeFormulas : Bool) (name : String) : Option Reading :=
  match workbook.cellsReader name with
  | some reader =>
    let walk := reader.walk workbook.kind includeFormulas
    some (.cells {
      header := declaredHeader name reader.dimensions (mergedRegions workbook name)
      dims := reader.dimensions
      headerRow := entry.selectedRow
      kind := Convert.errorKindForFormat entry.format
      is1904 := entry.is1904
      cells := walk.1
      failure := walk.2 })
  | none => (workbook.worksheetRange name).toOption.map (.dense (mergedRegions workbook name))

/-- The sheet a request asks for, and what it is read from. -/
def RangeRequest.reading (req : RangeRequest) (entry : EntryView) : Option (String × Reading) :=
  match resolveSheetName entry req.selector, entry.reader with
  | .ok name, .ok workbook => (workbook.reading entry req.includeFormulas name).map (name, ·)
  | _, _ => none

theorem RangeRequest.reading_headerRow {req : RangeRequest} {entry : EntryView} {name : String} {read : IncrementalRead}
    (h : req.reading entry = some (name, .cells read)) : read.headerRow = entry.selectedRow := by
  unfold RangeRequest.reading at h
  split at h
  · obtain ⟨reading, hreading, heq⟩ := Option.map_eq_some_iff.1 h
    cases heq
    unfold Sheets.reading at hreading
    split at hreading
    · cases hreading
      rfl
    · obtain ⟨range, -, hcells⟩ := Option.map_eq_some_iff.1 hreading
      cases hcells
  · cases h

/-- What the body sends of it. -/
def Reading.stream (entry : EntryView) (maxDenseCells : Nat) (s : Setup) (name : String) :
    Reading → List (Item Pb.RangeEvent)
  | .cells read => s.incremental read
  | .dense merged range => s.buffered name range merged entry.is1904 maxDenseCells

/-- The reader fails, or yields rows out of order. -/
def Reading.Broken : Reading → Prop
  | .cells read => read.failure.isSome ∨ ¬ read.Sorted
  | .dense _ _ => False

/-- No row of it is `u32::MAX`, and a range is one calamine builds. -/
def Reading.Counted : Reading → Prop
  | .cells read => ∀ c ∈ read.cells, c.row < 2 ^ 32 - 1
  | .dense _ range => range.Readable

/-- All of it: the header and the rows. -/
def Reading.Told (entry : EntryView) (s : Setup) (name : String) (items : List (Item Pb.RangeEvent)) : Reading → Prop
  | .cells read =>
    read.Told s.maxRowsPerMessage (tableOf s.useStringTable) s.tables s.numberFormats items
  | .dense merged range =>
    items.head? = some (.event (.started (s.batcher.header (rangeHeader name range merged)))) ∧
      rowsIn (flatten items) = range.readRows entry.is1904

/-- How a range stream that ends with no status has ended. -/
inductive Answered (entry : EntryView) (req : RangeRequest) (rt : Runtime) (items : List (Item Pb.RangeEvent)) : Prop
  /-- With a terminal error: what there is to read cannot be read through. -/
  | failed {before : List (Item Pb.RangeEvent)} {err : Pb.CalamineError}
      (hlast : items = before ++ [.event (.error { error := some err, terminal := true })])
      (h : ∀ name reading, req.reading entry = some (name, reading) → reading.Broken)
  /-- With all of it, and no error. -/
  | whole {name : String} {reading : Reading} (h : req.reading entry = some (name, reading))
      (htold : reading.Told entry (req.setup rt entry name) name items)
      (hclean : ∀ e, Item.event (Pb.RangeEvent.error e) ∉ items)

section body

variable (rt : Runtime) {entry : EntryView} {req : RangeRequest}

variable (entry req) in
/-- What the body sends: a status, the error of a workbook that cannot be
read, or what the request is answered from. -/
theorem runStreamWorksheetRange_cases (maxDenseCells : Nat) :
    (∃ status, (runStreamWorksheetRange rt entry req maxDenseCells).events = [.status status]) ∨
      (∃ kind err, (runStreamWorksheetRange rt entry req maxDenseCells).events =
          (abortWith kind err : Stream Pb.RangeEvent Unit).events ∧ req.reading entry = none) ∨
      ∃ name reading, req.reading entry = some (name, reading) ∧
        (runStreamWorksheetRange rt entry req maxDenseCells).events =
          reading.stream entry maxDenseCells (req.setup rt entry name) name := by
  unfold runStreamWorksheetRange
  cases hname : resolveSheetName entry req.selector with
  | error status => exact .inl ⟨status, rfl⟩
  | ok name =>
    unfold checkout
    cases hbook : entry.reader with
    | error e => cases e with
      | limit e => exact .inl ⟨_, rfl⟩
      | «open» e => exact .inr (.inl ⟨_, e, rfl, by simp [RangeRequest.reading, hname, hbook]⟩)
    | ok workbook =>
      have hreading : req.reading entry = (workbook.reading entry req.includeFormulas name).map (name, ·) := by
        simp [RangeRequest.reading, hname, hbook]
      rw [hreading]
      right
      -- what has no reader of cells is read whole
      have hwhole (hno : workbook.cellsReader name = none) :
          (∃ kind err, (streamWholeRange rt entry workbook name (mergedRegions workbook name)
              (Convert.errorKindForFormat entry.format) maxDenseCells (req.setup rt entry name).batcher).events =
              (abortWith kind err : Stream Pb.RangeEvent Unit).events ∧
              (workbook.reading entry req.includeFormulas name).map (name, ·) = none) ∨
            ∃ name' reading, (workbook.reading entry req.includeFormulas name).map (name, ·) = some (name', reading) ∧
              (streamWholeRange rt entry workbook name (mergedRegions workbook name)
                (Convert.errorKindForFormat entry.format) maxDenseCells (req.setup rt entry name).batcher).events =
              reading.stream entry maxDenseCells (req.setup rt entry name') name' := by
        unfold streamWholeRange Sheets.reading
        rw [hno]
        cases workbook.worksheetRange name with
        | ok range => exact .inr ⟨name, .dense (mergedRegions workbook name) range, rfl, rfl⟩
        | error e => exact .inl ⟨_, e, rfl, rfl⟩
      cases hk : workbook.kind with
      | xlsx | xlsb => cases hr : workbook.worksheetCellsReader name with
        | error e =>
          simp only [Emit.pure_eq, Emit.done_bind, hk, hr]
          exact hwhole (by simp [Sheets.cellsReader, hk, hr, Except.toOption])
        | ok reader =>
          have hcells : workbook.cellsReader name = some reader := by simp [Sheets.cellsReader, hk, hr, Except.toOption]
          refine .inr ⟨name, _, by rw [Sheets.reading, hcells]; rfl, ?_⟩
          simp only [Emit.pure_eq, Emit.done_bind, hk, hr]
          rfl
      | xls | ods =>
        simp only [Emit.pure_eq, Emit.done_bind, hk]
        exact hwhole (by simp [Sheets.cellsReader, hk])

/-- The body sends a status, or it answers. -/
theorem runStreamWorksheetRange_answers (maxDenseCells : Nat)
    (h : ∀ name reading, req.reading entry = some (name, reading) → reading.Counted) :
    (∃ status, (runStreamWorksheetRange rt entry req maxDenseCells).events = [.status status]) ∨
      Answered entry req rt (runStreamWorksheetRange rt entry req maxDenseCells).events := by
  rcases runStreamWorksheetRange_cases rt entry req maxDenseCells with
    hstatus | ⟨kind, err, hev, hno⟩ | ⟨name, reading, hreading, hev⟩
  · exact .inl hstatus
  · exact .inr (@Answered.failed _ _ _ _ [] _ (hev.trans rfl) fun name reading h => absurd (hno.symm.trans h) nofun)
  · have hcounted := h name reading hreading
    cases reading with
    | cells read =>
      right
      rcases rangeEvents_ends rt read req.maxRowsPerMessage (tableOf req.useStringTable) ((entry.tables name).getD [])
        entry.numberFormats hcounted with ⟨before, err, hread, hbroken⟩ | ⟨htold, hclean⟩
      · refine .failed (hev.trans hread) fun name' reading' h' => ?_
        cases hreading.symm.trans h'
        exact hbroken
      · rw [hev]
        exact .whole hreading htold hclean
    | dense merged range =>
      rcases emitRange_cases (req.setup rt entry name) name hcounted merged entry.is1904 maxDenseCells with
        ⟨status, hstatus⟩ | ⟨rest, hrange, -, hitems, -, hflat⟩
      · exact .inl ⟨status, hev.trans hstatus⟩
      · right
        rw [hev.trans hrange]
        refine .whole hreading ⟨rfl, ?_⟩ fun e he => ?_
        · show rowsIn (flatten rest) = _
          rw [hflat, Grid.rowsIn_announce]
        · rcases List.mem_cons.1 he with hstart | hrest
          · cases hstart
          · exact hitems _ hrest

end body

end GrpcCalamine
