import GrpcCalamine.Service.Buffered
import GrpcCalamine.Service.RangeStream
/-!
# One contract for both range streams

A range within the dense-cell budget streams the same rows and gaps buffered
and incremental, one over it is refused, and what is accepted sends no more
cells than the budget (`OneContract`). `check_dense` saturates, but no range
calamine builds reaches 2^64 cells, so it refuses exactly what is over.
-/

namespace GrpcCalamine

open Grid (announce rowsIn)

/-- What calamine builds: a range without cells, or a dense one. -/
def Calamine.Range.Built {α : Type} (range : Calamine.Range α) : Prop :=
  (range.start = none ∧ range.rows = []) ∨ ∃ lo hi, range.Dense lo hi

/-- The cells of a range streamed densely from column A. -/
def Calamine.Range.denseCells {α : Type} (range : Calamine.Range α) : Nat :=
  match range.start with
  | none => 0
  | some start => range.size.1 * (start.2 + range.size.2)

/-- The runtime of one stream, what its request asks for, and what its workbook
declares. -/
structure Setup where
  rt : Runtime
  maxRowsPerMessage : Nat
  useStringTable : Bool
  tables : List Pb.DeclaredTable
  numberFormats : List Pb.NumberFormat

/-- The batcher `run_stream_worksheet_range` makes. -/
def Setup.batcher (s : Setup) : RowBatcher :=
  rangeBatcher s.maxRowsPerMessage (if s.useStringTable then some StringTable.new else none) s.tables s.numberFormats

/-- The buffered stream of a range, every send taken. -/
def Setup.buffered (s : Setup) (sheetName : String) (range : Calamine.Range Calamine.Data)
    (merged : List Pb.Dimensions) (is1904 : Bool) (maxDenseCells : Nat) : List (Item Pb.RangeEvent) :=
  (emitRange s.rt sheetName range merged is1904 maxDenseCells s.batcher).events

/-- A reader of the range's non-empty cells, from its first row on. -/
def rangeRead (header : Pb.RangeStarted) (dims : Calamine.Dimensions) (kind : Pb.CalamineErrorKind)
    (range : Calamine.Range Calamine.Data) (is1904 : Bool) : IncrementalRead :=
  { header, dims, headerRow := range.start.map Prod.fst, kind, is1904,
    cells := match range.start with
      | none => []
      | some start => usedCells start.2 start.1 range.rows,
    failure := none }

/-- The incremental stream of a reader, every send taken. -/
def Setup.incremental (s : Setup) (r : IncrementalRead) : List (Item Pb.RangeEvent) :=
  (emitIncremental s.rt r s.batcher).events

/-- How many cells the rows sent hold. -/
def cellsSent (items : List (Item Pb.RangeEvent)) : Nat :=
  ((rowsIn (flatten items)).map fun row => row.values.length).sum

/-- A header, and after it nothing but rows and gaps: these. -/
def Streams (items : List (Item Pb.RangeEvent)) (as : List (Grid.Announced Pb.WorksheetRow)) : Prop :=
  ∃ header rest, items = .event (.started header) :: rest ∧ flatten rest = as ∧ ∀ i ∈ rest, RowItem i

/-! ## The budget -/

theorem denseCells_dense {α : Type} {range : Calamine.Range α} {lo hi : Nat × Nat} (h : range.Dense lo hi) :
    range.denseCells = (hi.1 - lo.1 + 1) * (hi.2 + 1) := by
  have hcols : lo.2 + (hi.2 - lo.2 + 1) = hi.2 + 1 := by
    have := h.ordered.2
    omega
  simp only [Calamine.Range.denseCells, h.start, h.size, hcols]

/-- Fewer than 2^32 rows of at most 2^32 cells. -/
theorem denseCells_le {α : Type} {range : Calamine.Range α} (h : range.Built) : range.denseCells ≤ U64_MAX := by
  rcases h with ⟨hnone, -⟩ | ⟨lo, hi, hd⟩
  · simp [Calamine.Range.denseCells, hnone]
  · rw [denseCells_dense hd]
    have hrows : hi.1 - lo.1 + 1 ≤ 2 ^ 32 - 1 := Nat.le_pred_of_lt hd.sides.1
    have hcols : hi.2 + 1 ≤ 2 ^ 32 := hd.u32.2
    calc (hi.1 - lo.1 + 1) * (hi.2 + 1) ≤ (2 ^ 32 - 1) * 2 ^ 32 := Nat.mul_le_mul hrows hcols
      _ ≤ U64_MAX := by decide

section

variable (fmt : Fmt) (sheetName : String) {range : Calamine.Range Calamine.Data} {max : Nat}

theorem checkDenseRange_within (h : range.denseCells ≤ max) : checkDenseRange fmt sheetName range max = .ok () := by
  unfold checkDenseRange
  unfold Calamine.Range.denseCells at h
  cases hs : range.start with
  | none => rfl
  | some start =>
    rw [hs] at h
    exact if_pos (Nat.le_trans (Nat.min_le_left _ _) h)

theorem checkDenseRange_over (hb : range.Built) (h : max < range.denseCells) :
    ∃ message, checkDenseRange fmt sheetName range max = .error ⟨.resourceExhausted, message⟩ := by
  have hle := denseCells_le hb
  unfold Calamine.Range.denseCells at h hle
  unfold checkDenseRange
  cases hs : range.start with
  | none =>
    rw [hs] at h
    cases h
  | some start =>
    rw [hs] at h hle
    have hover : ¬ satMul range.size.1 (start.2 + range.size.2) ≤ max := by
      rw [satMul, Nat.min_eq_left hle]
      exact Nat.not_le.2 h
    exact ⟨_, if_neg hover⟩

end

/-! ## The two streams -/

section

variable (s : Setup) {range : Calamine.Range Calamine.Data} {lo hi : Nat × Nat}

/-- A stream that starts at row `n` is ready for rows in order. -/
theorem Setup.ready_openAt (n : Nat) {todo : List Pb.WorksheetRow} (h : InOrder todo) :
    (s.batcher.openAt n).Ready todo := by
  refine ⟨h, nofun, ?_⟩
  intro t ht
  have ht' : t ∈ if s.useStringTable then some StringTable.new else none := ht
  split at ht'
  · obtain rfl : StringTable.new = t := by simpa using ht'
    rfl
  · cases ht'

theorem Calamine.Range.Dense.within (h : range.Dense lo hi) : lo.1 + range.rows.length ≤ 2 ^ 32 := by
  have hord := h.ordered.1
  have hlast := h.u32.1
  rw [h.height]
  omega

theorem buffered_streams (sheetName : String) (h : range.Dense lo hi) (merged : List Pb.Dimensions) (is1904 : Bool)
    {maxDenseCells : Nat} (hok : checkDenseRange s.rt.fmt sheetName range maxDenseCells = .ok ()) :
    Streams (s.buffered sheetName range merged is1904 maxDenseCells)
      (announce (·.rowIndex) (some lo.1) (denseRows is1904 lo.2 lo.1 range.rows)) := by
  have hready := s.ready_openAt lo.1 (denseRows_inOrder is1904 lo.2 h.within)
  have hd := pushRangeRows_delivers s.rt is1904 lo.2 h.within hready
  refine ⟨s.batcher.header (rangeHeader sheetName range merged),
    (pushRangeRows s.rt is1904 lo.2 (s.batcher.openAt lo.1) lo.1 range.rows).events, ?_, hd.flat, hd.rowItems⟩
  simp only [Setup.buffered, emitRange, hok, h.start]
  rfl

/-- A reader of the non-empty cells of some rows, from the header row on. -/
theorem Setup.incremental_streams {r : IncrementalRead} {n pad : Nat} {rows : List (List Calamine.Data)}
    (hheader : r.headerRow = some n) (hcells : r.cells = usedCells pad n rows) (hfail : r.failure = none)
    (h : InOrder (grownRows r.is1904 pad n rows)) :
    Streams (s.incremental r) (announce (·.rowIndex) (some n) (grownRows r.is1904 pad n rows)) := by
  have hstart : Walk.start r s.batcher = ⟨s.batcher.openAt n, r.dims.start.1, false, []⟩ := by
    rw [Walk.start, hheader]
  have hready : (⟨s.batcher.openAt n, r.dims.start.1, false, []⟩ : Walk).Ready (grownRows r.is1904 pad n rows) :=
    ⟨s.ready_openAt n h, fun _ => rfl⟩
  have hd := walkThrough_delivers s.rt (r := r) (by simp [hheader]) hready
  refine ⟨s.batcher.header r.header, _, ?_, hd.flat, hd.rowItems⟩
  simp only [Setup.incremental, emitIncremental, hstart, hcells, hfail]
  rfl

theorem rangeRead_streams (h : range.Dense lo hi) (header : Pb.RangeStarted) (dims : Calamine.Dimensions)
    (kind : Pb.CalamineErrorKind) (is1904 : Bool) :
    Streams (s.incremental (rangeRead header dims kind range is1904))
      (announce (·.rowIndex) (some lo.1) (grownRows is1904 lo.2 lo.1 range.rows)) := by
  have horder : InOrder (grownRows is1904 lo.2 lo.1 range.rows) := by
    obtain ⟨hasc, hu⟩ := denseRows_inOrder is1904 lo.2 h.within
    exact ⟨List.pairwise_map.2 hasc, List.forall_mem_map.2 hu⟩
  exact s.incremental_streams (r := rangeRead header dims kind range is1904) (by simp [rangeRead, h.start])
    (by simp [rangeRead, h.start]) rfl horder

end

/-! ## The contract -/

section

/-- What both streams promise for one range, each with its own runtime, request
and declarations. -/
structure OneContract (s s' : Setup) (sheetName : String) (range : Calamine.Range Calamine.Data)
    (merged : List Pb.Dimensions) (is1904 : Bool) (maxDenseCells : Nat) (r : IncrementalRead) : Prop where
  agree : range.denseCells ≤ maxDenseCells → ∃ as as',
    Streams (s.buffered sheetName range merged is1904 maxDenseCells) as ∧ Streams (s'.incremental r) as' ∧
      trimmed as = trimmed as'
  refused : maxDenseCells < range.denseCells → ∃ message,
    s.buffered sheetName range merged is1904 maxDenseCells = [.status ⟨.resourceExhausted, message⟩]
  bounded : (∀ status, .status status ∉ s.buffered sheetName range merged is1904 maxDenseCells) →
    cellsSent (s.buffered sheetName range merged is1904 maxDenseCells) ≤ maxDenseCells

theorem Streams.cellsSent {items : List (Item Pb.RangeEvent)} {start : Option Nat} {rows : List Pb.WorksheetRow}
    (h : Streams items (announce (·.rowIndex) start rows)) :
    cellsSent items = (rows.map fun row => row.values.length).sum := by
  obtain ⟨header, rest, rfl, hflat, -⟩ := h
  rw [GrpcCalamine.cellsSent, flatten_event, hflat]
  simp only [rowEvents, List.nil_append, Grid.rowsIn_announce]

/-- Each row sent is one of the range's, padded to column A. -/
theorem denseRows_cells (is1904 : Bool) (pad row width : Nat) {rows : List (List Calamine.Data)}
    (hwidth : ∀ data ∈ rows, data.length = width) :
    ((denseRows is1904 pad row rows).map fun row => row.values.length).sum ≤ rows.length * (pad + width) := by
  induction rows generalizing row with
  | nil => exact Nat.zero_le _
  | cons data rows ih =>
    obtain ⟨hd, hrest⟩ := List.forall_mem_cons.1 hwidth
    have := ih (row + 1) hrest
    rw [denseRows, List.length_cons, Nat.succ_mul]
    split
    · omega
    · simp only [List.map_cons, List.sum_cons, List.length_append, List.length_replicate, List.length_map, hd]
      omega

variable (s s' : Setup) (sheetName : String) {range : Calamine.Range Calamine.Data} (merged : List Pb.Dimensions)
  (is1904 : Bool) (maxDenseCells : Nat) (header : Pb.RangeStarted) (dims : Calamine.Dimensions)
  (kind : Pb.CalamineErrorKind)

variable {maxDenseCells} in
/-- What an accepted range streams, and how its cells compare with its size. -/
theorem accepted_streams (h : range.Built) (hok : checkDenseRange s.rt.fmt sheetName range maxDenseCells = .ok ()) :
    ∃ start rows,
      Streams (s.buffered sheetName range merged is1904 maxDenseCells) (announce (·.rowIndex) start rows) ∧
      Streams (s'.incremental (rangeRead header dims kind range is1904))
        (announce (·.rowIndex) start (rows.map trimRow)) ∧
      (rows.map fun row => row.values.length).sum ≤ range.denseCells := by
  rcases h with ⟨hnone, -⟩ | ⟨lo, hi, hd⟩
  · -- no cells: each stream is its header
    refine ⟨none, [], ⟨s.batcher.header (rangeHeader sheetName range merged), [], ?_, rfl, nofun⟩,
      ⟨s'.batcher.header header, [], ?_, rfl, nofun⟩, Nat.zero_le _⟩
    · simp only [Setup.buffered, emitRange, hok, hnone]
      rfl
    · simp only [Setup.incremental, rangeRead, hnone]
      rfl
  · refine ⟨some lo.1, denseRows is1904 lo.2 lo.1 range.rows, buffered_streams s sheetName hd merged is1904 hok,
      rangeRead_streams s' hd header dims kind is1904, ?_⟩
    have hcells := denseRows_cells is1904 lo.2 lo.1 (hi.2 - lo.2 + 1) hd.width
    simpa only [Calamine.Range.denseCells, hd.start, hd.size, hd.height] using hcells

/-- Both streams keep the contract, whatever calamine built. -/
theorem one_contract (h : range.Built) :
    OneContract s s' sheetName range merged is1904 maxDenseCells (rangeRead header dims kind range is1904) := by
  refine ⟨?_, ?_, ?_⟩
  · intro hwithin
    obtain ⟨start, rows, hb, hi, -⟩ := accepted_streams s s' sheetName merged is1904 header dims kind h
      (checkDenseRange_within s.rt.fmt sheetName hwithin)
    refine ⟨_, _, hb, hi, ?_⟩
    rw [trimmed_announce, trimmed_announce, List.map_map]
    congr 1
    exact List.map_congr_left fun row _ => (trimRow_trimRow row).symm
  · intro hover
    obtain ⟨message, he⟩ := checkDenseRange_over s.rt.fmt sheetName h hover
    refine ⟨message, ?_⟩
    simp only [Setup.buffered, emitRange, he]
    rfl
  · intro hno
    by_cases hwithin : range.denseCells ≤ maxDenseCells
    · obtain ⟨start, rows, hb, -, hcells⟩ := accepted_streams s s' sheetName merged is1904 header dims kind h
        (checkDenseRange_within s.rt.fmt sheetName hwithin)
      rw [hb.cellsSent]
      exact hcells.trans hwithin
    · obtain ⟨message, he⟩ := checkDenseRange_over s.rt.fmt sheetName h (Nat.lt_of_not_le hwithin)
      refine absurd ?_ (hno ⟨.resourceExhausted, message⟩)
      simp only [Setup.buffered, emitRange, he]
      exact List.mem_singleton_self _

end

/-- A stream of `maxRowsPerMessage` rows a message, from a workbook that
declares nothing. -/
def plainSetup (maxRowsPerMessage : Nat) : Setup := ⟨insertionRuntime, maxRowsPerMessage, false, [], []⟩

def plainHeader : Pb.RangeStarted :=
  { sheetName := "Sheet1", dimensions := none, totalCells := 0, mergedRegions := [], tables := [], numberFormats := [] }

theorem gapRange_built : gapRange.Built := .inr ⟨(0, 0), (4, 3), gapRange_dense⟩

theorem one_contract_gap : gapRange.denseCells = 20 ∧
    OneContract (plainSetup 1) (plainSetup 0) "Sheet1" gapRange [] false 20
      (rangeRead plainHeader ⟨(0, 0), (4, 3)⟩ .ods gapRange false) :=
  ⟨rfl, one_contract (plainSetup 1) (plainSetup 0) "Sheet1" [] false 20 plainHeader ⟨(0, 0), (4, 3)⟩ .ods
    gapRange_built⟩

end GrpcCalamine
