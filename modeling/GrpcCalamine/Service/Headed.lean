import GrpcCalamine.Service.Contract
import GrpcCalamine.Service.FormulaSpec
/-!
# Formula and VBA streams keep their contract

A formula stream is its header and then the rows it declares: every one of
them, in order, each as wide as the declared extent counted from column A. A
VBA stream is its header and then one event for each module it names, the
module or the reason it was left out. `formula_contract` and `vba_contract` say
so of what a consumer has received at any moment, and that a stream that ends
with no status has told what the workbook holds (`FormulasTold`, `ProjectTold`).
-/

namespace GrpcCalamine

open Emit (Stops)
open Receiver (Takes)

/-! ## Formulas -/

structure FormulaClient where
  header : Option Pb.RangeStarted
  /-- The row due next. -/
  due : Nat
  failed : Bool

def FormulaClient.fresh : FormulaClient := { header := none, due := 0, failed := false }

/-- The corners a header declares, if it declares any. -/
def Pb.RangeStarted.corners (header : Pb.RangeStarted) : Option (Pb.CellPosition × Pb.CellPosition) :=
  header.dimensions.bind fun d => d.start.bind fun lo => d.end.map fun hi => (lo, hi)

/-- An event received; `none` if it breaks the contract. -/
def FormulaClient.take (c : FormulaClient) : Pb.FormulaEvent → Option FormulaClient
  | .error e =>
    if c.header.isNone ∧ c.failed = false ∧ e.error.isSome ∧ e.terminal = true then some { c with failed := true } else none
  | .started header =>
    if c.header.isNone ∧ c.failed = false ∧ header.mergedRegions = [] ∧ header.tables = [] ∧ header.numberFormats = [] then
      some { c with header := some header, due := (header.corners.map fun x => x.1.row).getD 0 }
    else none
  | .row rowIndex formulas =>
    match c.header.bind (·.corners) with
    | some (_, hi) =>
      if rowIndex = c.due ∧ rowIndex ≤ hi.row ∧ formulas.length = hi.col + 1 then some { c with due := c.due + 1 } else none
    | none => none

/-- Every row declared has come, or the stream has been ended otherwise. -/
def FormulaClient.Whole (r : Receipt FormulaClient) : Prop :=
  r.client.failed = true ∨ r.ended = true ∨ ∃ header, r.client.header = some header ∧
    ∀ lo hi, header.corners = some (lo, hi) → r.client.due = hi.row + 1

/-- Rows from `row` on, each this wide. -/
def RowsFrom (width : Nat) : (row : Nat) → List (Item Pb.FormulaEvent) → Prop
  | _, [] => True
  | row, i :: items =>
    (∃ formulas, i = .event (.row row formulas) ∧ formulas.length = width) ∧ RowsFrom width (row + 1) items

/-- The rows a header declares are taken, to the last. -/
theorem FormulaClient.takes_rows {header : Pb.RangeStarted} {lo hi : Pb.CellPosition} (hc : header.corners = some (lo, hi))
    {row : Nat} {items : List (Item Pb.FormulaEvent)} (hrows : RowsFrom (hi.col + 1) row items)
    (hlast : row + items.length = hi.row + 1) :
    Takes (Receipt.take FormulaClient.take) ⟨⟨some header, row, false⟩, false⟩ items FormulaClient.Whole := by
  induction items generalizing row with
  | nil =>
    refine .nil (.inr (.inr ⟨header, rfl, ?_⟩))
    intro lo' hi' hc'
    rw [hc] at hc'
    cases hc'
    simpa using hlast
  | cons i items ih =>
    obtain ⟨⟨formulas, rfl, hwidth⟩, hrest⟩ := hrows
    rw [List.length_cons] at hlast
    have hle : row ≤ hi.row := by omega
    have htake : Receipt.take FormulaClient.take ⟨⟨some header, row, false⟩, false⟩ (.event (.row row formulas)) =
        some ⟨⟨some header, row + 1, false⟩, false⟩ := by
      simp [Receipt.take, FormulaClient.take, hc, hle, hwidth]
    exact .cons htake (ih hrest (by omega))

theorem length_takeRow (row : Nat) (formulas : List String) (cells : List FormulaCell) :
    (takeRow row formulas cells).1.length = formulas.length := by
  induction cells generalizing formulas with
  | nil => rfl
  | cons cell cells ih =>
    unfold takeRow
    split
    · rw [ih, List.length_set]
    · rfl

theorem sendSparseRows_rows (width n row : Nat) (cells : List FormulaCell) :
    RowsFrom width row (sendSparseRows width n row cells).events ∧
      (sendSparseRows width n row cells).events.length = n := by
  induction n generalizing row cells with
  | zero => exact ⟨trivial, rfl⟩
  | succ n ih =>
    obtain ⟨hrows, hlen⟩ := ih (row + 1) (takeRow row (List.replicate width "") cells).2
    refine ⟨⟨⟨_, rfl, ?_⟩, hrows⟩, congrArg (· + 1) hlen⟩
    rw [length_takeRow, List.length_replicate]

theorem sendFormulaRows_rows (pad row : Nat) {width : Nat} {rows : List (List String)}
    (h : ∀ x ∈ rows, x.length = width) :
    RowsFrom (pad + width) row (sendFormulaRows pad row rows).events ∧
      (sendFormulaRows pad row rows).events.length = rows.length := by
  induction rows generalizing row with
  | nil => exact ⟨trivial, rfl⟩
  | cons formulas rows ih =>
    obtain ⟨hw, hrest⟩ := List.forall_mem_cons.1 h
    obtain ⟨hrows, hlen⟩ := ih (row + 1) hrest
    refine ⟨⟨⟨_, rfl, ?_⟩, hrows⟩, congrArg (· + 1) hlen⟩
    rw [List.length_append, List.length_replicate, hw]

/-- A header and the rows it declares. -/
theorem FormulaClient.takes_declared {header : Pb.RangeStarted} {lo hi : Pb.CellPosition}
    (hbare : header.mergedRegions = [] ∧ header.tables = [] ∧ header.numberFormats = [])
    (hc : header.corners = some (lo, hi)) {items : List (Item Pb.FormulaEvent)}
    (hrows : RowsFrom (hi.col + 1) lo.row items) (hlast : lo.row + items.length = hi.row + 1) :
    Takes (Receipt.take FormulaClient.take) ⟨.fresh, false⟩ (.event (.started header) :: items) FormulaClient.Whole := by
  have htake : Receipt.take FormulaClient.take ⟨.fresh, false⟩ (.event (.started header)) =
      some ⟨⟨some header, lo.row, false⟩, false⟩ := by
    simp [Receipt.take, FormulaClient.take, FormulaClient.fresh, hc, hbare]
  exact .cons htake (takes_rows hc hrows hlast)

/-- A header that declares no rows. -/
theorem FormulaClient.takes_empty {header : Pb.RangeStarted}
    (hbare : header.mergedRegions = [] ∧ header.tables = [] ∧ header.numberFormats = []) (hc : header.corners = none) :
    Takes (Receipt.take FormulaClient.take) ⟨.fresh, false⟩ [.event (.started header)] FormulaClient.Whole := by
  have htake : Receipt.take FormulaClient.take ⟨.fresh, false⟩ (.event (.started header)) =
      some ⟨⟨some header, 0, false⟩, false⟩ := by
    simp [Receipt.take, FormulaClient.take, FormulaClient.fresh, hc, hbare]
  refine .cons htake (.nil (.inr (.inr ⟨header, rfl, ?_⟩)))
  intro lo hi hsome
  rw [hc] at hsome
  cases hsome

theorem FormulaClient.takes_failed (kind : Pb.CalamineErrorKind) (err : String) :
    Takes (Receipt.take FormulaClient.take) ⟨.fresh, false⟩ (abortWith kind err : Stream Pb.FormulaEvent Unit).events
      FormulaClient.Whole :=
  .cons rfl (.nil (.inl rfl))

section formulas

variable (fmt : Fmt) (sheetName : String) (maxDenseCells : Nat)

theorem emitSparseFormulas_takes (cells : List FormulaCell) :
    Takes (Receipt.take FormulaClient.take) ⟨.fresh, false⟩ (emitSparseFormulas fmt sheetName cells maxDenseCells).events
      FormulaClient.Whole := by
  cases hc : Grid.corners cells with
  | none =>
    obtain rfl := (Grid.corners_eq_none_iff cells).1 hc
    exact FormulaClient.takes_empty ⟨rfl, rfl, rfl⟩ rfl
  | some b =>
    obtain ⟨lo, hi⟩ := b
    obtain ⟨⟨first, last, hfirst, hlast, hrow₀, hrow₁⟩, hcol₀, hcol₁⟩ := sorted_corners hc
    obtain ⟨x, hx, -⟩ := (Grid.corners_bounds hc).top
    have hin := (Grid.corners_bounds hc).within x hx
    simp only [emitSparseFormulas, hfirst, hlast, hrow₀, hrow₁, hcol₀, hcol₁, Option.getD_some]
    cases checkDense fmt sheetName (hi.1 - lo.1 + 1) (hi.2 + 1) maxDenseCells with
    | error status => exact takes_refused status (.inr (.inl rfl))
    | ok u =>
      obtain ⟨hrows, hlen⟩ := sendSparseRows_rows (hi.2 + 1) (hi.1 - lo.1 + 1) lo.1 (sortByPosition cells)
      have hend : lo.1 + (sendSparseRows (hi.2 + 1) (hi.1 - lo.1 + 1) lo.1 (sortByPosition cells)).events.length =
          hi.1 + 1 := by
        rw [hlen]
        omega
      exact FormulaClient.takes_declared ⟨rfl, rfl, rfl⟩ rfl hrows hend

theorem emitFormulaRange_takes {range : Calamine.Range String} (h : range.Built) :
    Takes (Receipt.take FormulaClient.take) ⟨.fresh, false⟩ (emitFormulaRange fmt sheetName range maxDenseCells).events
      FormulaClient.Whole := by
  unfold emitFormulaRange
  cases checkDenseRange fmt sheetName range maxDenseCells with
  | error status => exact takes_refused status (.inr (.inl rfl))
  | ok u =>
    rcases h with ⟨hnone, -⟩ | ⟨lo, hi, hd⟩
    · have hcorners : (rangeHeader sheetName range []).corners = none := by
        simp [Pb.RangeStarted.corners, rangeHeader, hnone]
      have hempty := FormulaClient.takes_empty (by simp [rangeHeader, hnone]) hcorners
      simpa only [sendEvent, Emit.ask_bind, Emit.events_send, if_true, hnone, Emit.pure_eq, Emit.events_done,
        formulaStarted] using hempty
    · obtain ⟨hrows, hlen⟩ := sendFormulaRows_rows lo.2 lo.1 hd.width
      have hord := hd.ordered
      have hwidth : lo.2 + (hi.2 - lo.2 + 1) = hi.2 + 1 := by omega
      rw [hwidth] at hrows
      have hcorners : (rangeHeader sheetName range []).corners = some (Convert.cellPosition lo, Convert.cellPosition hi) := by
        simp [Pb.RangeStarted.corners, rangeHeader, hd.start, hd.last]
      have hend : lo.1 + (sendFormulaRows lo.2 lo.1 range.rows).events.length = hi.1 + 1 := by
        rw [hlen, hd.height]
        omega
      have hdeclared := FormulaClient.takes_declared (by simp [rangeHeader, hd.start, hd.last]) hcorners hrows hend
      simpa only [sendEvent, Emit.ask_bind, Emit.events_send, if_true, hd.start, formulaStarted] using hdeclared

end formulas

/-! ### What the workbook holds -/

/-- The rows of a range from row `row`, each from column A. -/
def formulaRows (pad row : Nat) (rows : List (List String)) : List (Item Pb.FormulaEvent) :=
  rows.mapIdx fun i formulas => .event (.row (row + i) (List.replicate pad "" ++ formulas))

theorem sendFormulaRows_events (pad row : Nat) (rows : List (List String)) :
    (sendFormulaRows pad row rows).events = formulaRows pad row rows := by
  induction rows generalizing row with
  | nil => rfl
  | cons formulas rows ih =>
    have hrest := ih (row + 1)
    simp only [formulaRows, List.mapIdx_cons, Nat.add_zero, Nat.add_assoc, Nat.add_comm 1] at hrest ⊢
    rw [sendFormulaRows, ← hrest]
    rfl

/-- The header of a range of formulas, and every row of it. -/
def Calamine.Range.told (range : Calamine.Range String) (name : String) : List (Item Pb.FormulaEvent) :=
  .event (.started (rangeHeader name range [])) ::
    match range.start with
    | none => []
    | some start => formulaRows start.2 start.1 range.rows

theorem emitFormulaRange_events (fmt : Fmt) (name : String) (range : Calamine.Range String) (maxDenseCells : Nat) :
    (∃ status, (emitFormulaRange fmt name range maxDenseCells).events = [.status status]) ∨
      (emitFormulaRange fmt name range maxDenseCells).events = range.told name := by
  unfold emitFormulaRange Calamine.Range.told
  cases checkDenseRange fmt name range maxDenseCells with
  | error status => exact .inl ⟨status, rfl⟩
  | ok u =>
    right
    cases hstart : range.start with
    | none => simp [sendEvent, formulaStarted]
    | some start => simp [sendEvent, formulaStarted, sendFormulaRows_events]

/-- The formulas a reader yields, in the smallest range around them. -/
def CellsReader.formulaRange (reader : CellsReader) : Option (Calamine.Range String) :=
  if reader.formulas.2 = none then some (boundingRange (formulasOf reader.formulas.1)) else none

/-- The formulas of a sheet, if they can be read: those its reader yields, none
for a sheet that is not a worksheet, or the range calamine gives. -/
def Sheets.formulaRange (workbook : Sheets) (name : String) : Option (Calamine.Range String) :=
  match workbook.kind with
  | .xlsx => match workbook.worksheetCellsReader name with
    | .ok reader => reader.formulaRange
    | .error (.notAWorksheet _) => some (boundingRange [])
    | .error (.other _) => none
  | .xlsb => match workbook.worksheetCellsReader name with
    | .ok reader => reader.formulaRange
    | .error _ => none
  | .xls | .ods => (workbook.worksheetFormula name).toOption

/-- The sheet a request asks for, and its formulas. -/
def EntryView.formulas (entry : EntryView) (selector : Option (Option Pb.SheetSelector)) :
    Option (String × Calamine.Range String) :=
  match resolveSheetName entry selector, entry.reader with
  | .ok name, .ok workbook => (workbook.formulaRange name).map (name, ·)
  | _, _ => none

/-- How a formula stream that ends with no status has ended. -/
inductive FormulasTold (entry : EntryView) (selector : Option (Option Pb.SheetSelector))
    (items : List (Item Pb.FormulaEvent)) : Prop
  /-- With a terminal error alone: the formulas cannot be read. -/
  | failed {err : Pb.CalamineError} (hlast : items = [.event (.error { error := some err, terminal := true })])
      (h : entry.formulas selector = none)
  | whole {name : String} {range : Calamine.Range String} (h : entry.formulas selector = some (name, range))
      (htold : items = range.told name)

section body

variable (fmt : Fmt)

/-- What is sent for formulas held as `held`: a status, the error of what
cannot be read, or the range. -/
def FormulasSent (maxDenseCells : Nat) (held : Option (String × Calamine.Range String))
    (events : List (Item Pb.FormulaEvent)) : Prop :=
  (∃ status, events = [.status status]) ∨
    (∃ kind err, events = (abortWith kind err : Stream Pb.FormulaEvent Unit).events ∧ held = none) ∨
    ∃ name range, held = some (name, range) ∧ events = (emitFormulaRange fmt name range maxDenseCells).events

theorem streamSparseFormulas_sent (name : String) (kind : Pb.CalamineErrorKind) (maxDenseCells maxFormulaBytes : Nat)
    (reader : CellsReader) :
    FormulasSent fmt maxDenseCells (reader.formulaRange.map (name, ·))
      (streamSparseFormulas fmt name kind ((FormulaCollector.new name maxDenseCells maxFormulaBytes).collect fmt
        reader.formulas.1 reader.formulas.2) maxDenseCells).events := by
  unfold CellsReader.formulaRange
  cases hc : (FormulaCollector.new name maxDenseCells maxFormulaBytes).collect fmt reader.formulas.1
    reader.formulas.2 with
  | ok cells =>
    obtain ⟨hall, rfl⟩ := collect_ok hc
    rw [if_pos hall]
    refine .inr (.inr ⟨name, _, rfl, ?_⟩)
    rw [streamSparseFormulas, emitSparseFormulas_eq boundingRange_fromSparse]
    rfl
  | error err => cases err with
    | read e => exact .inr (.inl ⟨kind, e, rfl, by rw [collect_read hc]; rfl⟩)
    | refused status => exact .inl ⟨status, rfl⟩

theorem runStreamWorksheetFormula_sent (entry : EntryView) (selector : Option (Option Pb.SheetSelector))
    (maxDenseCells maxFormulaBytes : Nat) :
    FormulasSent fmt maxDenseCells (entry.formulas selector)
      (runStreamWorksheetFormula fmt entry selector maxDenseCells maxFormulaBytes).events := by
  unfold runStreamWorksheetFormula
  cases hname : resolveSheetName entry selector with
  | error status => exact .inl ⟨status, rfl⟩
  | ok name =>
    unfold checkout
    cases hbook : entry.reader with
    | error e => cases e with
      | limit e => exact .inl ⟨_, rfl⟩
      | «open» e => exact .inr (.inl ⟨_, e, rfl, by simp [EntryView.formulas, hname, hbook]⟩)
    | ok workbook =>
      have hformulas : entry.formulas selector = (workbook.formulaRange name).map (name, ·) := by
        simp [EntryView.formulas, hname, hbook]
      have hsparse := streamSparseFormulas_sent fmt name (Convert.errorKindForFormat entry.format) maxDenseCells
        maxFormulaBytes
      rw [hformulas]
      simp only [Emit.pure_eq, Emit.done_bind]
      cases hk : workbook.kind with
      | xlsx =>
        simp only [Sheets.formulaRange, xlsxFormulas, FormulaCollector.new, hk]
        cases workbook.worksheetCellsReader name with
        | ok reader => exact hsparse reader
        | error e => cases e with
          | notAWorksheet e => exact .inr (.inr ⟨name, boundingRange [], rfl, rfl⟩)
          | other e => exact .inr (.inl ⟨_, e, rfl, rfl⟩)
      | xlsb =>
        simp only [Sheets.formulaRange, xlsbFormulas, FormulaCollector.new, hk]
        cases workbook.worksheetCellsReader name with
        | ok reader => exact hsparse reader
        | error e => exact .inr (.inl ⟨_, e.text, rfl, rfl⟩)
      | xls | ods =>
        simp only [Sheets.formulaRange, hk]
        cases workbook.worksheetFormula name with
        | ok range => exact .inr (.inr ⟨name, range, rfl, rfl⟩)
        | error e => exact .inr (.inl ⟨_, e, rfl, rfl⟩)

/-- The range of a sheet is the one around what its reader yields, or the one
calamine gives. -/
theorem formulaRange_cases {workbook : Sheets} {name : String} {range : Calamine.Range String}
    (h : workbook.formulaRange name = some range) :
    (∃ cells, range = boundingRange cells) ∨ workbook.worksheetFormula name = .ok range := by
  have hreader : ∀ reader : CellsReader, reader.formulaRange = some range → ∃ cells, range = boundingRange cells := by
    intro reader hr
    obtain ⟨-, heq⟩ := Option.ite_none_right_eq_some.1 hr
    exact ⟨_, (Option.some.inj heq).symm⟩
  unfold Sheets.formulaRange at h
  cases hk : workbook.kind with
  | xlsx =>
    rw [hk] at h
    cases hr : workbook.worksheetCellsReader name with
    | ok reader =>
      rw [hr] at h
      exact .inl (hreader reader h)
    | error e => cases e with
      | notAWorksheet e =>
        rw [hr] at h
        exact .inl ⟨[], (Option.some.inj h).symm⟩
      | other e =>
        rw [hr] at h
        cases h
  | xlsb =>
    rw [hk] at h
    cases hr : workbook.worksheetCellsReader name with
    | ok reader =>
      rw [hr] at h
      exact .inl (hreader reader h)
    | error e =>
      rw [hr] at h
      cases h
  | xls | ods =>
    rw [hk] at h
    cases hr : workbook.worksheetFormula name with
    | ok range' =>
      rw [hr] at h
      exact .inr (congrArg Except.ok (Option.some.inj h))
    | error e =>
      rw [hr] at h
      cases h

variable {entry : EntryView} {selector : Option (Option Pb.SheetSelector)} {maxDenseCells : Nat}

/-- What is sent of the formulas is taken. -/
theorem FormulasSent.takes
    (hbuilt : ∀ workbook, entry.reader = .ok workbook → ∀ name range, workbook.worksheetFormula name = .ok range →
      range.Built)
    {events : List (Item Pb.FormulaEvent)} (h : FormulasSent fmt maxDenseCells (entry.formulas selector) events) :
    Takes (Receipt.take FormulaClient.take) ⟨.fresh, false⟩ events FormulaClient.Whole := by
  rcases h with ⟨status, rfl⟩ | ⟨kind, err, rfl, -⟩ | ⟨name, range, hheld, rfl⟩
  · exact takes_refused status (.inr (.inl rfl))
  · exact FormulaClient.takes_failed kind err
  · unfold EntryView.formulas at hheld
    split at hheld
    · next hbook =>
      obtain ⟨range', hrange, heq⟩ := Option.map_eq_some_iff.1 hheld
      cases heq
      rcases formulaRange_cases hrange with ⟨cells, rfl⟩ | hread
      · rw [← emitSparseFormulas_eq boundingRange_fromSparse]
        exact emitSparseFormulas_takes fmt name maxDenseCells cells
      · exact emitFormulaRange_takes fmt name maxDenseCells (hbuilt _ hbook name range hread)
    · cases hheld

/-- What is sent of the formulas, unless it is a status, tells them. -/
theorem FormulasSent.told {events : List (Item Pb.FormulaEvent)}
    (h : FormulasSent fmt maxDenseCells (entry.formulas selector) events) :
    (∃ status, events = [.status status]) ∨ FormulasTold entry selector events := by
  rcases h with hstatus | ⟨kind, err, hev, hnone⟩ | ⟨name, range, hheld, hev⟩
  · exact .inl hstatus
  · exact .inr (.failed (hev.trans rfl) hnone)
  · rcases emitFormulaRange_events fmt name range maxDenseCells with ⟨status, hstatus⟩ | htold
    · exact .inl ⟨status, hev.trans hstatus⟩
    · exact .inr (.whole hheld (hev.trans htold))

/-- Whatever the interleaving, what the consumer of a formula stream has
received is a header, declaring no more than its extent, and the first of the
rows that extent has, each from column A to its last column. A stream that ends
with no status tells the formulas of the sheet, or with a terminal error that
they cannot be read. -/
theorem formula_contract {maxFormulaBytes : Nat} {stale : Option Status} {s : Served Pb.FormulaEvent}
    (hreach : Reached (runStreamWorksheetFormula fmt entry selector maxDenseCells maxFormulaBytes) stale s)
    (hbuilt : ∀ workbook, entry.reader = .ok workbook → ∀ name range, workbook.worksheetFormula name = .ok range →
      range.Built) :
    (Takes (Receipt.take FormulaClient.take) ⟨.fresh, false⟩ s.received fun r =>
        s.consumer = .ended → FormulaClient.Whole r) ∧
      (s.consumer = .ended → FormulasTold entry selector s.received) := by
  have hstops := runStreamWorksheetFormula_stops fmt entry selector maxDenseCells maxFormulaBytes
  have hsent := runStreamWorksheetFormula_sent fmt entry selector maxDenseCells maxFormulaBytes
  exact ⟨served_takes hstops (hsent.takes fmt hbuilt) hreach, served_ends hstops (hsent.told fmt) hreach⟩

end body

/-- A workbook with two formulas and a macro module that cannot be read. -/
def macroEntry : EntryView where
  format := .xlsx
  sheetNames := ["Sheet1"]
  tables _ := none
  numberFormats := []
  is1904 := false
  headerRow := none
  reader := .ok {
    kind := .xlsx
    mergeCellsBySheetName _ := .ok []
    worksheetCellsReader _ := .ok {
      dimensions := ⟨(0, 0), (3, 1)⟩
      cells := ([], none)
      cellsWithFormula := ([], none)
      formulas := ([⟨3, 0, "B2"⟩, ⟨1, 1, "A1"⟩], none) }
    worksheetRange _ := .error "no such sheet"
    worksheetFormula _ := .error "no such sheet"
    vbaProject := .ok (some ⟨[], ["Module1", "Module2"], fun name =>
      if name = "Module1" then .ok [79, 107] else .error "no such module"⟩)
    pictures := [] }

theorem formula_contract_sparse :
    ∃ s, Reached (runStreamWorksheetFormula ⟨fun _ => true⟩ macroEntry (some (some (.sheetIndex 0))) 100 1000) none s ∧
      s.consumer = .ended ∧ FormulasTold macroEntry (some (some (.sheetIndex 0))) s.received ∧
      Takes (Receipt.take FormulaClient.take) ⟨.fresh, false⟩ s.received FormulaClient.Whole := by
  obtain ⟨s, hreach, hended, -⟩ := reached_end
    (runStreamWorksheetFormula ⟨fun _ => true⟩ macroEntry (some (some (.sheetIndex 0))) 100 1000) (by decide) none
  obtain ⟨htakes, htold⟩ := formula_contract ⟨fun _ => true⟩ hreach (by rintro workbook ⟨⟩ name range ⟨⟩)
  exact ⟨s, hreach, hended, htold hended, htakes.mono fun r hr => hr hended⟩

/-! ## VBA modules -/

structure VbaClient where
  /-- The modules still to come, once the header is there. -/
  due : Option (List String)
  failed : Bool

def VbaClient.fresh : VbaClient := { due := none, failed := false }

/-- An event received; `none` if it breaks the contract. An error that does not
end the stream stands for the module due. -/
def VbaClient.take (encodedLen : Pb.VbaEvent → Nat) (c : VbaClient) : Pb.VbaEvent → Option VbaClient
  | .info info =>
    if c.due.isNone ∧ c.failed = false ∧ (info.present = false → info.moduleNames = [] ∧ info.references = []) then
      some { c with due := some info.moduleNames }
    else none
  | .module m =>
    match c.due with
    | some (name :: rest) =>
      if m.name = name ∧ encodedLen (.module m) ≤ MAX_FRAME_BYTES then some { c with due := some rest } else none
    | _ => none
  | .error e =>
    match c.due with
    | none => if c.failed = false ∧ e.terminal = true then some { c with failed := true } else none
    | some (_ :: rest) => if e.terminal = false ∧ e.error.isSome then some { c with due := some rest } else none
    | some [] => none

/-- No module is missing, or the stream has been ended otherwise. -/
def VbaClient.Whole (r : Receipt VbaClient) : Prop :=
  r.client.failed = true ∨ r.ended = true ∨ r.client.due = some []

section vba

variable (fmt : Fmt) (encodedLen : Pb.VbaEvent → Nat)

/-- Each module due is answered by one event. -/
theorem VbaClient.takes_modules (project : VbaProject) (names : List String) :
    Takes (Receipt.take (VbaClient.take encodedLen)) ⟨⟨some names, false⟩, false⟩
      (sendAll (names.map (vbaModuleEvent fmt encodedLen project))).events VbaClient.Whole := by
  induction names with
  | nil => exact .nil (.inr (.inr rfl))
  | cons name names ih =>
    have htake : Receipt.take (VbaClient.take encodedLen) ⟨⟨some (name :: names), false⟩, false⟩
        (.event (vbaModuleEvent fmt encodedLen project name)) = some ⟨⟨some names, false⟩, false⟩ := by
      unfold vbaModuleEvent
      cases project.getModuleRaw name with
      | error e => rfl
      | ok raw =>
        simp only [withinFrame]
        split
        · next hfits => simp [Receipt.take, VbaClient.take, hfits]
        · rfl
    exact .cons htake ih

/-- A module of the project, as it is sent: its content, or the reason it was
left out. -/
inductive ModuleTold (project : VbaProject) (name : String) : Item Pb.VbaEvent → Prop
  | sent {raw : List UInt8} (hraw : project.getModuleRaw name = .ok raw)
      (hfits : encodedLen (.module { name, rawContent := raw }) ≤ MAX_FRAME_BYTES) :
      ModuleTold project name (.event (.module { name, rawContent := raw }))
  | unread {e : String} {err : Pb.CalamineError} (hraw : project.getModuleRaw name = .error e) :
      ModuleTold project name (.event (.error { error := some err, terminal := false }))
  | tooLarge {raw : List UInt8} {err : Pb.CalamineError} (hraw : project.getModuleRaw name = .ok raw)
      (hlarge : MAX_FRAME_BYTES < encodedLen (.module { name, rawContent := raw })) :
      ModuleTold project name (.event (.error { error := some err, terminal := false }))

theorem vbaModuleEvent_told (project : VbaProject) (name : String) :
    ModuleTold encodedLen project name (.event (vbaModuleEvent fmt encodedLen project name)) := by
  unfold vbaModuleEvent
  cases hraw : project.getModuleRaw name with
  | error e => exact .unread hraw
  | ok raw =>
    simp only [withinFrame]
    split
    · next hfits => exact .sent hraw hfits
    · next hlarge => exact .tooLarge hraw (Nat.lt_of_not_le hlarge)

theorem events_sendAll {T : Type} (events : List T) : (sendAll events).events = events.map .event := by
  induction events with
  | nil => rfl
  | cons event events ih => exact congrArg (Item.event event :: ·) ih

/-- How a VBA stream that ends with no status has ended. -/
inductive ProjectTold (entry : EntryView) (items : List (Item Pb.VbaEvent)) : Prop
  /-- With a terminal error alone: the project cannot be read. -/
  | failed {err : Pb.CalamineError} (hlast : items = [.event (.error { error := some err, terminal := true })])
      (h : ∀ workbook, entry.reader = .ok workbook → ∃ e, workbook.vbaProject = .error e)
  | none {workbook : Sheets} (hbook : entry.reader = .ok workbook) (hproject : workbook.vbaProject = .ok none)
      (htold : items = [.event (.info ⟨false, [], []⟩)])
  | whole {workbook : Sheets} {project : VbaProject} {modules : List (Item Pb.VbaEvent)}
      (hbook : entry.reader = .ok workbook) (hproject : workbook.vbaProject = .ok (some project))
      (htold : items = .event (.info ⟨true, project.references, project.moduleNames⟩) :: modules)
      (hmodules : List.Forall₂ (ModuleTold encodedLen project) project.moduleNames modules)

/-- The body sends a status, or tells the project. -/
theorem runStreamVbaProject_told (entry : EntryView) :
    (∃ status, (runStreamVbaProject fmt encodedLen entry).events = [.status status]) ∨
      ProjectTold encodedLen entry (runStreamVbaProject fmt encodedLen entry).events := by
  unfold runStreamVbaProject checkout
  cases hbook : entry.reader with
  | error e => cases e with
    | limit e => exact .inl ⟨_, rfl⟩
    | «open» e => exact .inr (.failed rfl fun workbook h => absurd (h.symm.trans hbook) nofun)
  | ok workbook =>
    right
    simp only [Emit.pure_eq, Emit.done_bind]
    cases hproject : workbook.vbaProject with
    | error e =>
      refine .failed rfl fun workbook' h => ?_
      obtain rfl := Except.ok.inj (hbook.symm.trans h)
      exact ⟨e, hproject⟩
    | ok project => cases project with
      | none => exact .none hbook hproject rfl
      | some project =>
        refine .whole hbook hproject rfl ?_
        show List.Forall₂ _ _ (sendAll (project.moduleNames.map (vbaModuleEvent fmt encodedLen project))).events
        rw [events_sendAll, List.map_map, List.forall₂_map_right_iff, List.forall₂_same]
        exact fun name _ => vbaModuleEvent_told fmt encodedLen project name

/-- Whatever the interleaving, what the consumer of a VBA stream has received
is a header and, module by module in the order it names them, each module or
the reason it was left out, none of them past a frame. A stream that ends with
no status tells the project of the workbook, or with a terminal error that it
cannot be read. -/
theorem vba_contract {entry : EntryView} {stale : Option Status} {s : Served Pb.VbaEvent}
    (hreach : Reached (runStreamVbaProject fmt encodedLen entry) stale s) :
    (Takes (Receipt.take (VbaClient.take encodedLen)) ⟨.fresh, false⟩ s.received fun r =>
        s.consumer = .ended → VbaClient.Whole r) ∧
      (s.consumer = .ended → ProjectTold encodedLen entry s.received) := by
  have hstops := runStreamVbaProject_stops fmt encodedLen entry
  refine ⟨served_takes hstops ?_ hreach, served_ends hstops (runStreamVbaProject_told fmt encodedLen entry) hreach⟩
  have hfailed : ∀ kind err, Takes (Receipt.take (VbaClient.take encodedLen)) ⟨.fresh, false⟩
      (abortWith kind err : Stream Pb.VbaEvent Unit).events VbaClient.Whole :=
    fun kind err => .cons rfl (.nil (.inl rfl))
  unfold runStreamVbaProject checkout
  cases entry.reader with
  | error e => cases e with
    | limit e => exact takes_refused _ (.inr (.inl rfl))
    | «open» e => exact hfailed _ e
  | ok workbook =>
    simp only [Emit.pure_eq, Emit.done_bind]
    cases workbook.vbaProject with
    | error e => exact hfailed _ e
    | ok project => cases project with
      | none => exact .cons rfl (.nil (.inr (.inr rfl)))
      | some project => exact .cons rfl (VbaClient.takes_modules fmt encodedLen project project.moduleNames)

end vba

theorem vba_contract_unreadable :
    ∃ s, Reached (runStreamVbaProject ⟨fun _ => true⟩ (fun _ => 0) macroEntry) none s ∧ s.consumer = .ended ∧
      ProjectTold (fun _ => 0) macroEntry s.received ∧
      Takes (Receipt.take (VbaClient.take fun _ => 0)) ⟨.fresh, false⟩ s.received VbaClient.Whole := by
  obtain ⟨s, hreach, hended, -⟩ := reached_end
    (runStreamVbaProject ⟨fun _ => true⟩ (fun _ => 0) macroEntry) (by decide) none
  obtain ⟨htakes, htold⟩ := vba_contract ⟨fun _ => true⟩ (fun _ => 0) hreach
  exact ⟨s, hreach, hended, htold hended, htakes.mono fun r hr => hr hended⟩

end GrpcCalamine
