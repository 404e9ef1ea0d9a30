import GrpcCalamine.Service.StringTable
import Mathlib.Data.List.Perm.Basic
import Mathlib.Algebra.BigOperators.Group.List.Basic
/-!
# The row batcher

`RowBatcher` of `src/service.rs`: rows wait in a queue until a row cap, a byte
cap or the linger deadline closes the batch; `flush` sorts the queue, splits it
into contiguous runs and announces the space between two runs as a gap.
-/

namespace GrpcCalamine

def DEFAULT_MAX_ROWS_PER_MESSAGE : Nat := 256
def MAX_ROWS_PER_MESSAGE_CEILING : Nat := 65536
def LINGER_CHECK_EVERY : Nat := 32
def MAX_FRAME_BYTES : Nat := 32 * 1024 * 1024
def MAX_BATCH_BYTES : Nat := MAX_FRAME_BYTES / 4

/-- 5 ms, in nanoseconds. -/
def DEFAULT_LINGER : Nat := 5000000

/-- What the server takes from its runtime and knows only by documentation:
the clock's readings in nanoseconds, one after another, and
`sort_unstable_by_key`, which may order rows of one index either way. -/
structure Runtime where
  fmt : Fmt
  now : Nat → Nat
  sort : List Pb.WorksheetRow → List Pb.WorksheetRow
  sort_perm : ∀ rows, (sort rows).Perm rows
  sort_sorted : ∀ rows, ((sort rows).map (·.rowIndex)).Pairwise (· ≤ ·)

/-- Rough encoded size of one cell: its tag and headers, and what it carries. -/
def approxCellBytes (cell : Pb.CellData) : Nat :=
  6 + (match cell.formula with
      | some s => s.utf8ByteSize + 6
      | none => 0) + (if cell.styleId.isSome then 6 else 0) +
    match cell.value with
    | some (.stringValue s) | some (.sharedStringValue s) | some (.dateTimeIso s) | some (.durationIso s) =>
      s.utf8ByteSize
    | _ => 8

/-- Rough encoded size of one row, used only to decide when to close a batch. -/
def approxRowBytes (values : List Pb.CellData) : Nat := (values.map approxCellBytes).sum

/-- Whether a value is one a merge lets win: it carries a formula or is not
blank. -/
def Pb.CellData.carries (cell : Pb.CellData) : Bool :=
  cell.formula.isSome || !(cell.value = some .empty || cell.value = none)

/-- Fold a second set of values for the same row into the first, which grows
with blanks to hold it. -/
def mergeRowValues : (into late : List Pb.CellData) → List Pb.CellData
  | into, [] => into
  | [], value :: late => (if value.carries then value else Convert.emptyCellData) :: mergeRowValues [] late
  | slot :: into, value :: late => (if value.carries then value else slot) :: mergeRowValues into late

structure RowBatcher where
  rows : List Pb.WorksheetRow
  cap : Nat
  pendingBytes : Nat
  linger : Nat
  openedAt : Option Nat
  single : Bool
  nextExpected : Option Nat
  highestSent : Option Nat
  strings : Option StringTable
  tables : List Pb.DeclaredTable
  numberFormats : List Pb.NumberFormat
  /-- How often the clock has been read. -/
  reads : Nat

namespace RowBatcher

def header (b : RowBatcher) (h : Pb.RangeStarted) : Pb.RangeStarted :=
  { h with tables := b.tables, numberFormats := b.numberFormats }

def new (maxRowsPerMessage : Nat) (strings : Option StringTable) : RowBatcher :=
  let requested :=
    if maxRowsPerMessage = 0 then DEFAULT_MAX_ROWS_PER_MESSAGE
    else min maxRowsPerMessage MAX_ROWS_PER_MESSAGE_CEILING
  let single := requested == 1
  { rows := [], cap := if single then DEFAULT_MAX_ROWS_PER_MESSAGE else requested, pendingBytes := 0,
    linger := DEFAULT_LINGER, openedAt := none, single, nextExpected := none, highestSent := none,
    strings, tables := [], numberFormats := [], reads := 0 }

/-- Put every string-table entry interned since the last row event on the
wire. -/
def sendNewStrings (b : RowBatcher) : Stream Pb.RangeEvent (Bool × RowBatcher) :=
  match b.strings with
  | none => return (true, b)
  | some table => do
    let (ok, table) ← table.sendChunks table.pending.length
    return (ok, { b with strings := some table })

/-- Declare that the sheet starts at `row`. -/
def openAt (b : RowBatcher) (row : Nat) : RowBatcher := { b with nextExpected := some row }

/-- Whether a row at this index can still be delivered in order. -/
def accepts (b : RowBatcher) (rowIndex : Nat) : Bool := b.highestSent.all fun sent => rowIndex > sent

/-- The rows of a run, each as its own `row` event. -/
def sendRows : List Pb.WorksheetRow → Stream Pb.RangeEvent Bool
  | [] => return true
  | row :: run => do
    if ← sendEvent (.row row) then sendRows run else return false

/-- Announce the empty rows before `first`, if a gap is due there. -/
def sendGap (b : RowBatcher) (first : Nat) : Stream Pb.RangeEvent Bool :=
  match b.nextExpected with
  | some expected => if first > expected then sendEvent (.rowGap expected (first - expected)) else return true
  | none => return true

/-- The carrier of a run: row by row in single mode, as one batch otherwise. -/
def sendCarrier (b : RowBatcher) (run : List Pb.WorksheetRow) : Stream Pb.RangeEvent Bool :=
  if b.single then sendRows run else sendEvent (.rows run)

/-- Announce any empty rows before `run`, then send the run itself. -/
def sendRun (b : RowBatcher) (run : List Pb.WorksheetRow) : Stream Pb.RangeEvent (Bool × RowBatcher) :=
  match run.head?, run.getLast? with
  | some first, some last => do
    if ← b.sendGap first.rowIndex then
      let b := { b with nextExpected := some ((last.rowIndex + 1) % 2 ^ 32), highestSent := some last.rowIndex }
      let ok ← b.sendCarrier run
      return (ok, b)
    else return (false, b)
  | _, _ => return (true, b)

/-- The loop of `flush`: split the sorted queue into runs and send each. -/
def sendRuns (b : RowBatcher) : (queued run : List Pb.WorksheetRow) → Stream Pb.RangeEvent (Bool × RowBatcher)
  | [], run => b.sendRun run
  | row :: queued, run =>
    let breaksRun := run.getLast?.any fun last => row.rowIndex ≠ (last.rowIndex + 1) % 2 ^ 32
    if breaksRun then do
      let (ok, b) ← b.sendRun run
      if ok then sendRuns b queued [row] else return (false, b)
    else sendRuns b queued (run ++ [row])

/-- Send whatever has accumulated. Returns false once the client is gone. -/
def flush (rt : Runtime) (b : RowBatcher) : Stream Pb.RangeEvent (Bool × RowBatcher) :=
  if b.rows.isEmpty then return (true, b)
  else do
    let b := { b with openedAt := none, pendingBytes := 0 }
    let (ok, b) ← b.sendNewStrings
    if ok then sendRuns { b with rows := [] } (rt.sort b.rows) [] else return (false, b)

/-- The scan of `push`: merge into the queued row of the same index, or queue
the row at the end. -/
def mergeQueued : List Pb.WorksheetRow → Pb.WorksheetRow → List Pb.WorksheetRow
  | [], row => [row]
  | existing :: rows, row =>
    if existing.rowIndex = row.rowIndex then
      { existing with values := mergeRowValues existing.values row.values } :: rows
    else existing :: mergeQueued rows row

/-- The first half of `push`: put the row into the queue. -/
def enqueue (rt : Runtime) (b : RowBatcher) (row : Pb.WorksheetRow) : RowBatcher :=
  let b := if b.rows.isEmpty then { b with openedAt := some (rt.now b.reads), reads := b.reads + 1 } else b
  if b.rows.getLast?.all fun last => row.rowIndex > last.rowIndex then
    { b with pendingBytes := b.pendingBytes + approxRowBytes row.values, rows := b.rows ++ [row] }
  else
    let rows := mergeQueued b.rows row
    { b with rows, pendingBytes := (rows.map fun row => approxRowBytes row.values).sum }

/-- The second half of `push`: whether the batch closes now, on rows, on bytes
or on the linger deadline. The clock is read on every row of a small batch and
sampled on a large one. -/
def flushDue (rt : Runtime) (b : RowBatcher) : Bool × RowBatcher :=
  if b.rows.length ≥ b.cap ∨ b.pendingBytes ≥ MAX_BATCH_BYTES then (true, b)
  else if b.rows.length < LINGER_CHECK_EVERY ∨ b.rows.length % LINGER_CHECK_EVERY = 0 then
    match b.openedAt with
    | some t => (rt.now b.reads - t ≥ b.linger, { b with reads := b.reads + 1 })
    | none => (false, b)
  else (false, b)

/-- Queue one row, flushing on the row cap, the byte cap or the linger
deadline. Returns false once the client has gone away. -/
def push (rt : Runtime) (b : RowBatcher) (row : Pb.WorksheetRow) : Stream Pb.RangeEvent (Bool × RowBatcher) :=
  let (due, b) := (b.enqueue rt row).flushDue rt
  if due then b.flush rt else return (true, b)

end RowBatcher

end GrpcCalamine
