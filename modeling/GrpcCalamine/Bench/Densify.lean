import GrpcCalamine.Service.Incremental
import GrpcCalamine.Service.Prost
/-!
# The benchmark's arms

`Digest`, `walk_dense`, `Owned` and the arms of `bench/src/main.rs` that have
to come to one digest. An arm is the calls it makes on its digest, in order;
one that panics is `none`. The clock plays no part.
-/

namespace GrpcCalamine.Bench

open Layout (leBytes)

/-! ## The digest -/

def asBytes (s : String) : List UInt8 := s.toUTF8.data.toList

/-- A call on a digest. -/
inductive DigestCall where
  | row (rowIndex : Nat)
  | cell (tag : UInt8) (payload : List UInt8)
  deriving DecidableEq

/-- Order-sensitive FNV-1a over the cell stream. -/
structure Digest where
  hash : UInt64
  cells : Nat
  rows : Nat
  deriving DecidableEq

namespace Digest

def new : Digest := ⟨0xcbf29ce484222325, 0, 0⟩

def write (d : Digest) (bytes : List UInt8) : Digest :=
  { d with hash := bytes.foldl (fun hash b => (hash ^^^ b.toUInt64) * 0x100000001b3) d.hash }

def row (d : Digest) (rowIndex : Nat) : Digest := { d with rows := d.rows + 1 }.write (leBytes 4 rowIndex)

def cell (d : Digest) (tag : UInt8) (payload : List UInt8) : Digest :=
  ({ d with cells := d.cells + 1 }.write [tag]).write payload

def call (d : Digest) : DigestCall → Digest
  | .row rowIndex => d.row rowIndex
  | .cell tag payload => d.cell tag payload

@[simp] theorem cells_write (d : Digest) (bytes : List UInt8) : (d.write bytes).cells = d.cells := rfl

@[simp] theorem cells_row (d : Digest) (rowIndex : Nat) : (d.row rowIndex).cells = d.cells := by
  rw [row, cells_write]

@[simp] theorem cells_cell (d : Digest) (tag : UInt8) (payload : List UInt8) :
    (d.cell tag payload).cells = d.cells + 1 := by
  rw [cell, cells_write, cells_write]

/-- The digest of an arm. -/
def ofCalls (calls : List DigestCall) : Digest := calls.foldl call new

end Digest

def boolByte (b : Bool) : UInt8 := if b then 1 else 0

def intBytes (v : Int) : List UInt8 := leBytes 8 (v % 2 ^ 64).toNat

/-- `Digest::push_pb`. An id that is not resolved is not digested. -/
def pushPb : Option Pb.Value → Option DigestCall
  | some (.intValue v) => some (.cell 1 (intBytes v))
  | some (.floatValue v) => some (.cell 2 (leBytes 8 v.toNat))
  | some (.stringValue v) => some (.cell 3 (asBytes v))
  | some (.sharedStringValue v) => some (.cell 4 (asBytes v))
  | some (.boolValue v) => some (.cell 5 [boolByte v])
  | some (.dateTime d) => some (.cell 6 (leBytes 8 d.value.toNat))
  | some (.dateTimeIso v) => some (.cell 7 (asBytes v))
  | some (.durationIso v) => some (.cell 8 (asBytes v))
  | some (.error _) => some (.cell 9 [])
  | some .empty | none => some (.cell 0 [])
  | some (.sharedStringId _) => none

/-! ## The dense walk -/

/-- Where `walk_dense` is, and the rows it has handed to `on_row`. -/
structure DenseWalk (T : Type) where
  width : Nat
  currentRow : Nat
  values : List T
  isOpen : Bool
  rowHasValue : Bool
  started : Bool
  pendingEmpty : Nat
  rows : List (Nat × List T)

namespace DenseWalk

variable {T : Type} (empty : T)

def start (dims : Calamine.Dimensions) : DenseWalk T :=
  { width := dims.end.2 + 1, currentRow := dims.start.1, values := List.replicate (dims.end.2 + 1) empty,
    isOpen := false, rowHasValue := false, started := false, pendingEmpty := 0, rows := [] }

/-- The blank rows that are pending, and the row under construction. -/
def release (w : DenseWalk T) : List (Nat × List T) :=
  (List.range' 1 w.pendingEmpty).reverse.map (fun back => (w.currentRow - back, List.replicate w.width empty)) ++
    [(w.currentRow, w.values)]

/-- One turn of the loop that walks down to a later row. -/
def nextRow (w : DenseWalk T) : DenseWalk T :=
  let done :=
    if w.rowHasValue then { w with rows := w.rows ++ w.release empty, pendingEmpty := 0, started := true }
    else if w.started then { w with pendingEmpty := w.pendingEmpty + 1 }
    else w
  { done with values := List.replicate w.width empty, rowHasValue := false, currentRow := w.currentRow + 1 }

def advance : (count : Nat) → DenseWalk T → DenseWalk T
  | 0, w => w
  | count + 1, w => advance count (w.nextRow empty)

/-- A value written in the row under construction. -/
def put (w : DenseWalk T) (idx : Nat) (value : T) (isEmpty : Bool) : DenseWalk T :=
  let values := w.values ++ List.replicate (idx + 1 - w.values.length) empty
  { w with width := max w.width values.length, values := values.set idx value,
           rowHasValue := w.rowHasValue || !isEmpty }

/-- A cell: its row, its column, its value, and whether that is empty. -/
def next (w : DenseWalk T) (cell : Nat × Nat × T × Bool) : DenseWalk T :=
  let (row, idx, value, isEmpty) := cell
  let w := if w.isOpen then w.advance empty (row - w.currentRow) else { w with currentRow := row, isOpen := true }
  w.put empty idx value isEmpty

end DenseWalk

/-- `walk_dense`: the rows it hands to `on_row`. -/
def walkDense {T : Type} (empty : T) (dims : Calamine.Dimensions) (cells : List (Nat × Nat × T × Bool)) :
    List (Nat × List T) :=
  let w := cells.foldl (DenseWalk.next empty) (.start empty dims)
  if w.isOpen && w.rowHasValue then w.rows ++ w.release empty else w.rows

/-! ## The native arms -/

/-- An owned cell value. -/
inductive Owned where
  | int (v : Int)
  | float (bits : UInt64)
  | str (s : String)
  | shared (s : String)
  | bool (b : Bool)
  | dateTime (bits : UInt64)
  | dateTimeIso (s : String)
  | durationIso (s : String)
  | error
  | empty
  deriving DecidableEq

namespace Owned

def fromRef : Calamine.DataRef → Owned
  | .int v => int v
  | .float v => float v
  | .string v => str v
  | .sharedString v => shared v.text
  | .bool v => bool v
  | .dateTime v => dateTime v.value
  | .dateTimeIso v => dateTimeIso v
  | .durationIso v => durationIso v
  | .error _ => error
  | .empty => empty

def digestInto : Owned → DigestCall
  | int v => .cell 1 (intBytes v)
  | float v => .cell 2 (leBytes 8 v.toNat)
  | str v => .cell 3 (asBytes v)
  | shared v => .cell 4 (asBytes v)
  | bool v => .cell 5 [boolByte v]
  | dateTime v => .cell 6 (leBytes 8 v.toNat)
  | dateTimeIso v => .cell 7 (asBytes v)
  | durationIso v => .cell 8 (asBytes v)
  | error => .cell 9 []
  | empty => .cell 0 []

end Owned

/-- What a reader hands to `walk_dense`, each value made by `f`. -/
def readCells {T : Type} (f : Calamine.DataRef → T) (cells : List ReadCell) : List (Nat × Nat × T × Bool) :=
  cells.map fun c => (c.row, c.col, f c.value, c.value = .empty)

def armNativeDense (dims : Calamine.Dimensions) (cells : List ReadCell) : List DigestCall :=
  (walkDense Owned.empty dims (readCells Owned.fromRef cells)).flatMap fun (row, values) =>
    .row row :: values.map Owned.digestInto

def armNativeEncode (dims : Calamine.Dimensions) (is1904 : Bool) (cells : List ReadCell) : Option (List DigestCall) := do
  let rows := walkDense Convert.emptyCellData dims
    (readCells (fun v => Convert.cellData (Convert.dataRefValue v is1904)) cells)
  let calls ← rows.mapM fun (row, values) => do
    return .row row :: (← values.mapM fun c => pushPb c.value)
  return calls.flatten

/-! ## The gRPC arm -/

/-- What `arm_grpc` has while it takes the stream. -/
structure GrpcArm where
  calls : List DigestCall
  table : List String
  width : Nat
  messages : Nat

namespace GrpcArm

/-- A cell, its id looked up in the table received so far. -/
def feedCell (table : List String) (c : Pb.CellData) : Option DigestCall :=
  match c.value with
  | some (.sharedStringId id) => table[id]?.map fun s => .cell 4 (asBytes s)
  | v => pushPb v

def feed (a : GrpcArm) (r : Pb.WorksheetRow) : Option GrpcArm := do
  let cells ← r.values.mapM (feedCell a.table)
  return { a with calls := a.calls ++ .row r.rowIndex :: cells, width := r.values.length }

/-- The blank rows a gap stands for, each as wide as the row before. -/
def gapCalls (width first count : Nat) : List DigestCall :=
  (List.range count).flatMap fun offset => .row (first + offset) :: List.replicate width (.cell 0 [])

def event (a : GrpcArm) : Pb.RangeEvent → Option GrpcArm
  | .rows batch => batch.foldlM feed { a with messages := a.messages + 1 }
  | .row r => feed { a with messages := a.messages + 1 } r
  | .rowGap first count =>
    some { a with messages := a.messages + 1, calls := a.calls ++ gapCalls a.width first count }
  | .stringTable chunk =>
    if chunk.firstId = a.table.length then some { a with table := a.table ++ chunk.entries } else none
  | _ => some a

/-- A message, as its bytes are read; one without an event is passed over. -/
def message (a : GrpcArm) (bytes : List UInt8) : Option GrpcArm := do
  match ← Pb.RangeEvent.decode bytes with
  | some e => a.event e
  | none => return a

/-- An event arrives encoded. A stream that ends with an error has none to
give. -/
def item (a : GrpcArm) : Item Pb.RangeEvent → Option GrpcArm
  | .event e => a.message e.encode
  | .status _ => none

theorem item_event (a : GrpcArm) (e : Pb.RangeEvent) : a.item (.event e) = a.event e.received := by
  rw [item, message, Pb.RangeEvent.decode_encode]
  rfl

end GrpcArm

def armGrpc (items : List (Item Pb.RangeEvent)) : Option GrpcArm := items.foldlM GrpcArm.item ⟨[], [], 0, 0⟩

end GrpcCalamine.Bench
