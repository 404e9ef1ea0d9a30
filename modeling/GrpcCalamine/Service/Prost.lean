import GrpcCalamine.Service.Frames
import GrpcCalamine.Lib.Protobuf
/-!
# What arrives of a message

How prost writes the messages of the range stream, and how it reads them: the
fields in the order of their numbers, a scalar outside a `oneof` only where it
is not its default, a nested message read on top of what is there. What arrives
is what was sent (`RangeEvent.decode_encode`), but for one value: a double is
its default where it equals 0.0, so a date serial of -0.0 is left out and
arrives as 0.0. A number is carried whole; it is below 2^32 in a `uint32`.
-/

namespace GrpcCalamine.Pb

open Protobuf

/-! ## Scalars -/

/-- The bits of -0.0. -/
def minusZero : UInt64 := 0x8000000000000000

/-- The double equals 0.0. -/
def isZero (bits : UInt64) : Bool := bits = 0 ∨ bits = minusZero

/-- A double that is left out at its default. -/
def doubleReceived (bits : UInt64) : UInt64 := if isZero bits then 0 else bits

theorem doubleReceived_eq_iff {bits : UInt64} : doubleReceived bits = bits ↔ bits ≠ minusZero := by
  unfold doubleReceived
  split
  · rename_i hzero
    have hcases : bits = 0 ∨ bits = minusZero := of_decide_eq_true hzero
    constructor
    · rintro rfl
      decide
    · exact fun hne => (hcases.resolve_right hne).symm
  · rename_i hother
    refine ⟨fun _ hminus => hother ?_, fun _ => rfl⟩
    rw [isZero, hminus]
    decide

/-- An `i64` by its two's complement. -/
def toTwos (v : Int) : Nat := (v % 2 ^ 64).toNat

def fromTwos (n : Nat) : Int := if n < 2 ^ 63 then n else n - 2 ^ 64

theorem fromTwos_toTwos {v : Int} (h : -2 ^ 63 ≤ v ∧ v < 2 ^ 63) : fromTwos (toTwos v) = v := by
  unfold fromTwos toTwos
  split <;> omega

theorem toTwos_fromTwos {n : Nat} (h : n < 2 ^ 64) : toTwos (fromTwos n) = n := by
  unfold fromTwos toTwos
  split <;> omega

/-- An enumeration is read as its getter reads it: a number it does not have is
unspecified. -/
def CellErrorType.ofNumber : Nat → CellErrorType
  | 1 => .div0
  | 2 => .na
  | 3 => .name
  | 4 => .null
  | 5 => .num
  | 6 => .ref
  | 7 => .value
  | 8 => .gettingData
  | _ => .unspecified

def ExcelDateTimeType.ofNumber : Nat → ExcelDateTimeType
  | 1 => .dateTime
  | 2 => .timeDelta
  | _ => .unspecified

def NumberFormatKind.number : NumberFormatKind → Nat
  | .unspecified => 0
  | .other => 1
  | .dateTime => 2
  | .timeDelta => 3

def NumberFormatKind.ofNumber : Nat → NumberFormatKind
  | 1 => .other
  | 2 => .dateTime
  | 3 => .timeDelta
  | _ => .unspecified

def CalamineErrorKind.ofNumber : Nat → CalamineErrorKind
  | 1 => .io
  | 2 => .ods
  | 3 => .xls
  | 4 => .xlsb
  | 5 => .xlsx
  | 6 => .vba
  | 7 => .de
  | 8 => .msg
  | _ => .unspecified

@[simp] theorem CellErrorType.ofNumber_number (e : CellErrorType) : ofNumber e.number = e := by
  cases e <;> rfl

@[simp] theorem ExcelDateTimeType.ofNumber_number (t : ExcelDateTimeType) : ofNumber t.number = t := by
  cases t <;> rfl

@[simp] theorem NumberFormatKind.ofNumber_number (k : NumberFormatKind) : ofNumber k.number = k := by
  cases k <;> rfl

@[simp] theorem CalamineErrorKind.ofNumber_number (k : CalamineErrorKind) : ofNumber k.number = k := by
  cases k <;> rfl

/-! ## Fields

A field that is left out at its default, by its type. -/

def uintField (number n : Nat) : List Field := omitIf (n = 0) ⟨number, .varint n⟩

def doubleField (number : Nat) (bits : UInt64) : List Field := omitIf (isZero bits) ⟨number, .fixed64 bits⟩

def flagField (number : Nat) (b : Bool) : List Field := omitIf (b = false) ⟨number, .varint 1⟩

def stringField (number : Nat) (s : String) : List Field := omitIf (s = "") ⟨number, .text s⟩

/-- A field that holds a message. -/
def messageField (number : Nat) (fields : List Field) : Field := ⟨number, .bytes (putFields fields)⟩

/-! ## Cells -/

namespace ExcelDateTime

def fields (dt : ExcelDateTime) : List Field :=
  doubleField 1 dt.value ++ (uintField 2 dt.datetimeType.number ++ flagField 3 dt.is1904)

def message : Message ExcelDateTime where
  default := ⟨0, .unspecified, false⟩
  merge dt f :=
    match f.number with
    | 1 => f.payload.toFixed64.map fun v => { dt with value := v }
    | 2 => f.payload.toVarint.map fun n => { dt with datetimeType := .ofNumber n }
    | 3 => f.payload.toVarint.map fun n => { dt with is1904 := n ≠ 0 }
    | _ => some dt

def received (dt : ExcelDateTime) : ExcelDateTime := { dt with value := doubleReceived dt.value }

theorem merge_fields (dt : ExcelDateTime) : dt.fields.foldlM message.merge message.default = some dt.received := by
  obtain ⟨value, type, is1904⟩ := dt
  have hvalue : (doubleField 1 value).foldlM message.merge message.default =
      some ⟨doubleReceived value, .unspecified, false⟩ := by
    unfold doubleField doubleReceived
    cases hzero : isZero value <;> rfl
  have htype : (uintField 2 type.number).foldlM message.merge ⟨doubleReceived value, .unspecified, false⟩ =
      some ⟨doubleReceived value, type, false⟩ := by
    refine merge_omitIf (fun h => ?_) ?_
    · cases type <;> first | rfl | cases h
    · simp [message, Payload.toVarint]
  have hflag : (flagField 3 is1904).foldlM message.merge ⟨doubleReceived value, type, false⟩ =
      some ⟨doubleReceived value, type, is1904⟩ := by
    cases is1904 <;> rfl
  exact merge_append hvalue (merge_append htype hflag)

end ExcelDateTime

/-- `google.protobuf.Empty`. -/
def emptyMessage : Message Unit := ⟨(), fun _ _ => some ()⟩

/-- The field of the `value` oneof. -/
def Value.field : Value → Field
  | .intValue v => ⟨1, .varint (toTwos v)⟩
  | .floatValue bits => ⟨2, .fixed64 bits⟩
  | .stringValue s => ⟨3, .text s⟩
  | .sharedStringValue s => ⟨4, .text s⟩
  | .boolValue b => ⟨5, .varint b.toNat⟩
  | .dateTime dt => messageField 6 dt.fields
  | .dateTimeIso s => ⟨7, .text s⟩
  | .durationIso s => ⟨8, .text s⟩
  | .error e => ⟨9, .varint e.number⟩
  | .empty => messageField 10 []
  | .sharedStringId id => ⟨11, .varint id⟩

def Value.received : Value → Value
  | .intValue v => .intValue (fromTwos (toTwos v))
  | .dateTime dt => .dateTime dt.received
  | v => v

/-- A value whose integer is an `i64` arrives as it was sent, unless it is a
date of serial -0.0. -/
theorem Value.received_eq_iff {v : Value} (h : ∀ n, v = .intValue n → -2 ^ 63 ≤ n ∧ n < 2 ^ 63) :
    v.received = v ↔ ∀ dt, v = .dateTime dt → dt.value ≠ minusZero := by
  cases v with
  | intValue n =>
    refine ⟨fun _ _ hdt => absurd hdt Value.noConfusion, fun _ => ?_⟩
    rw [received, fromTwos_toTwos (h n rfl)]
  | dateTime dt =>
    have hsame : Value.dateTime dt.received = .dateTime dt ↔ doubleReceived dt.value = dt.value := by
      constructor
      · intro heq
        exact congrArg ExcelDateTime.value (Value.dateTime.inj heq)
      · intro heq
        rw [ExcelDateTime.received, heq]
    rw [received, hsame, doubleReceived_eq_iff]
    exact ⟨fun hne _ hdt => Value.dateTime.inj hdt ▸ hne, fun hne => hne dt rfl⟩
  | _ => exact ⟨fun _ _ hdt => absurd hdt Value.noConfusion, fun _ => rfl⟩

namespace CellData

def fields (cell : CellData) : List Field :=
  cell.value.toList.map Value.field ++
    (cell.formula.toList.map (fun s => ⟨12, .text s⟩) ++ cell.styleId.toList.map fun id => ⟨13, .varint id⟩)

def message : Message CellData where
  default := ⟨none, none, none⟩
  merge cell f :=
    match f.number with
    | 1 => f.payload.toVarint.map fun n => { cell with value := some (.intValue (fromTwos n)) }
    | 2 => f.payload.toFixed64.map fun bits => { cell with value := some (.floatValue bits) }
    | 3 => f.payload.toText.map fun s => { cell with value := some (.stringValue s) }
    | 4 => f.payload.toText.map fun s => { cell with value := some (.sharedStringValue s) }
    | 5 => f.payload.toVarint.map fun n => { cell with value := some (.boolValue (n ≠ 0)) }
    | 6 =>
      let before := match cell.value with
        | some (.dateTime dt) => dt
        | _ => ExcelDateTime.message.default
      (ExcelDateTime.message.mergePayload before f.payload).map fun dt => { cell with value := some (.dateTime dt) }
    | 7 => f.payload.toText.map fun s => { cell with value := some (.dateTimeIso s) }
    | 8 => f.payload.toText.map fun s => { cell with value := some (.durationIso s) }
    | 9 => f.payload.toVarint.map fun n => { cell with value := some (.error (.ofNumber n)) }
    | 10 => (emptyMessage.mergePayload () f.payload).map fun _ => { cell with value := some .empty }
    | 11 => f.payload.toVarint.map fun n => { cell with value := some (.sharedStringId n) }
    | 12 => f.payload.toText.map fun s => { cell with formula := some s }
    | 13 => f.payload.toVarint.map fun n => { cell with styleId := some n }
    | _ => some cell

def received (cell : CellData) : CellData := { cell with value := cell.value.map Value.received }

theorem merge_value (v : Value) : message.merge message.default v.field = some ⟨some v.received, none, none⟩ := by
  cases v with
  | dateTime dt =>
    have hdate := ExcelDateTime.message.mergePayload_bytes ExcelDateTime.message.default dt.fields
    rw [dt.merge_fields] at hdate
    simp [message, Value.field, messageField, Value.received, hdate]
  | boolValue b => cases b <;> rfl
  | _ => simp [message, Value.field, Value.received, Payload.toVarint, Payload.toFixed64, messageField,
      Message.mergePayload_bytes]

theorem merge_fields (cell : CellData) : cell.fields.foldlM message.merge message.default = some cell.received := by
  obtain ⟨value, formula, styleId⟩ := cell
  have hvalue : (value.toList.map Value.field).foldlM message.merge message.default =
      some ⟨value.map Value.received, none, none⟩ := by
    refine merge_option (fun h => ?_) (fun v h => ?_)
    · rw [h]
      rfl
    · rw [h]
      exact merge_value v
  have hformula : (formula.toList.map fun s => (⟨12, .text s⟩ : Field)).foldlM message.merge
      ⟨value.map Value.received, none, none⟩ = some ⟨value.map Value.received, formula, none⟩ := by
    refine merge_option (fun h => by rw [h]) (fun s h => ?_)
    simp [message, h]
  have hstyle : (styleId.toList.map fun id => (⟨13, .varint id⟩ : Field)).foldlM message.merge
      ⟨value.map Value.received, formula, none⟩ = some ⟨value.map Value.received, formula, styleId⟩ := by
    refine merge_option (fun h => by rw [h]) (fun id h => ?_)
    simp [message, h, Payload.toVarint]
  exact merge_append hvalue (merge_append hformula hstyle)

end CellData

/-! ## Rows, gaps and chunks -/

section

variable {S T : Type} (m : Message S) (number : Nat)

/-- A repeated field of messages is read message by message. -/
theorem merge_messages {inner : Message T} {fields : T → List Field} (received : T → T)
    (hone : ∀ x, (fields x).foldlM inner.merge inner.default = some (received x)) (add : List T → S)
    (hmerge : ∀ done p, m.merge (add done) ⟨number, p⟩ =
      (inner.mergePayload inner.default p).map fun x => add (done ++ [x])) (xs : List T) :
    (xs.map fun x => messageField number (fields x)).foldlM m.merge (add []) = some (add (xs.map received)) := by
  refine merge_repeated (fun done x => ?_) xs
  rw [messageField, hmerge, inner.mergePayload_bytes, hone]
  rfl

/-- A repeated field of strings. -/
theorem merge_strings (add : List String → S)
    (hmerge : ∀ done p, m.merge (add done) ⟨number, p⟩ = p.toText.map fun s => add (done ++ [s])) (xs : List String) :
    (xs.map fun s => (⟨number, .text s⟩ : Field)).foldlM m.merge (add []) = some (add xs) := by
  have hread : (xs.map fun s => (⟨number, .text s⟩ : Field)).foldlM m.merge (add []) = some (add (xs.map id)) := by
    refine merge_repeated (fun done s => ?_) xs
    rw [hmerge, Payload.toText_text, Option.map_some, id]
  rwa [List.map_id] at hread

/-- A `uint32` or `uint64` field, left out at 0. -/
theorem merge_uint (set : Nat → S) (hmerge : ∀ p, m.merge (set 0) ⟨number, p⟩ = p.toVarint.map set) (n : Nat) :
    (uintField number n).foldlM m.merge (set 0) = some (set n) :=
  merge_omitIf (fun h => by rw [h]) (hmerge (.varint n))

/-- A string field, left out where it is empty. -/
theorem merge_string (set : String → S) (hmerge : ∀ p, m.merge (set "") ⟨number, p⟩ = p.toText.map set) (s : String) :
    (stringField number s).foldlM m.merge (set "") = some (set s) := by
  refine merge_omitIf (fun h => by rw [h]) ?_
  rw [hmerge, Payload.toText_text, Option.map_some]

/-- An optional message. -/
theorem merge_message {inner : Message T} {fields : T → List Field}
    (hone : ∀ x, (fields x).foldlM inner.merge inner.default = some x) (set : Option T → S)
    (hmerge : ∀ p, m.merge (set none) ⟨number, p⟩ = (inner.mergePayload inner.default p).map fun x => set (some x))
    (o : Option T) : (o.toList.map fun x => messageField number (fields x)).foldlM m.merge (set none) = some (set o) := by
  refine merge_option (fun h => by rw [h]) (fun x h => ?_)
  rw [messageField, hmerge, inner.mergePayload_bytes, hone, h]
  rfl

end

namespace WorksheetRow

def fields (row : WorksheetRow) : List Field :=
  uintField 1 row.rowIndex ++ row.values.map fun cell => messageField 2 cell.fields

def message : Message WorksheetRow where
  default := ⟨0, []⟩
  merge row f :=
    match f.number with
    | 1 => f.payload.toVarint.map fun n => { row with rowIndex := n }
    | 2 => (CellData.message.mergePayload CellData.message.default f.payload).map fun cell =>
        { row with values := row.values ++ [cell] }
    | _ => some row

def received (row : WorksheetRow) : WorksheetRow := { row with values := row.values.map CellData.received }

theorem merge_fields (row : WorksheetRow) : row.fields.foldlM message.merge message.default = some row.received :=
  merge_append (merge_uint message 1 (fun n => ⟨n, []⟩) (fun _ => rfl) row.rowIndex)
    (merge_messages message 2 CellData.received CellData.merge_fields (fun cells => ⟨row.rowIndex, cells⟩) (fun _ _ => rfl)
      row.values)

end WorksheetRow

/-- `WorksheetRowBatch`. -/
def batchFields (rows : List WorksheetRow) : List Field := rows.map fun row => messageField 1 row.fields

def batchMessage : Message (List WorksheetRow) where
  default := []
  merge rows f :=
    match f.number with
    | 1 => (WorksheetRow.message.mergePayload WorksheetRow.message.default f.payload).map fun row => rows ++ [row]
    | _ => some rows

theorem merge_batch (rows : List WorksheetRow) :
    (batchFields rows).foldlM batchMessage.merge batchMessage.default = some (rows.map WorksheetRow.received) :=
  merge_messages batchMessage 1 WorksheetRow.received WorksheetRow.merge_fields id (fun _ _ => rfl) rows

/-- `WorksheetRowGap`: its first row and how many there are. -/
def gapFields (gap : Nat × Nat) : List Field := uintField 1 gap.1 ++ uintField 2 gap.2

def gapMessage : Message (Nat × Nat) where
  default := (0, 0)
  merge gap f :=
    match f.number with
    | 1 => f.payload.toVarint.map fun n => (n, gap.2)
    | 2 => f.payload.toVarint.map fun n => (gap.1, n)
    | _ => some gap

theorem merge_gap (gap : Nat × Nat) : (gapFields gap).foldlM gapMessage.merge gapMessage.default = some gap :=
  merge_append (merge_uint gapMessage 1 (fun n => (n, 0)) (fun _ => rfl) gap.1)
    (merge_uint gapMessage 2 (fun n => (gap.1, n)) (fun _ => rfl) gap.2)

namespace StringTableChunk

def fields (chunk : StringTableChunk) : List Field :=
  uintField 1 chunk.firstId ++ chunk.entries.map fun s => ⟨2, .text s⟩

def message : Message StringTableChunk where
  default := ⟨0, []⟩
  merge chunk f :=
    match f.number with
    | 1 => f.payload.toVarint.map fun n => { chunk with firstId := n }
    | 2 => f.payload.toText.map fun s => { chunk with entries := chunk.entries ++ [s] }
    | _ => some chunk

theorem merge_fields (chunk : StringTableChunk) : chunk.fields.foldlM message.merge message.default = some chunk :=
  merge_append (merge_uint message 1 (fun n => ⟨n, []⟩) (fun _ => rfl) chunk.firstId)
    (merge_strings message 2 (fun entries => ⟨chunk.firstId, entries⟩) (fun _ _ => rfl) chunk.entries)

end StringTableChunk

/-! ## Headers -/

namespace CellPosition

def fields (position : CellPosition) : List Field := uintField 1 position.row ++ uintField 2 position.col

def message : Message CellPosition where
  default := ⟨0, 0⟩
  merge position f :=
    match f.number with
    | 1 => f.payload.toVarint.map fun n => { position with row := n }
    | 2 => f.payload.toVarint.map fun n => { position with col := n }
    | _ => some position

theorem merge_fields (position : CellPosition) :
    position.fields.foldlM message.merge message.default = some position :=
  merge_append (merge_uint message 1 (fun n => ⟨n, 0⟩) (fun _ => rfl) position.row)
    (merge_uint message 2 (fun n => ⟨position.row, n⟩) (fun _ => rfl) position.col)

end CellPosition

namespace Dimensions

def fields (dims : Dimensions) : List Field :=
  (dims.start.toList.map fun p => messageField 1 p.fields) ++ dims.end.toList.map fun p => messageField 2 p.fields

/-- A corner that is there already is read on top of. -/
def message : Message Dimensions where
  default := ⟨none, none⟩
  merge dims f :=
    match f.number with
    | 1 => (CellPosition.message.mergePayload (dims.start.getD CellPosition.message.default) f.payload).map fun p =>
        { dims with start := some p }
    | 2 => (CellPosition.message.mergePayload (dims.end.getD CellPosition.message.default) f.payload).map fun p =>
        { dims with «end» := some p }
    | _ => some dims

theorem merge_fields (dims : Dimensions) : dims.fields.foldlM message.merge message.default = some dims :=
  merge_append (merge_message message 1 CellPosition.merge_fields (fun o => ⟨o, none⟩) (fun _ => rfl) dims.start)
    (merge_message message 2 CellPosition.merge_fields (fun o => ⟨dims.start, o⟩) (fun _ => rfl) dims.end)

end Dimensions

namespace DeclaredTable

def fields (table : DeclaredTable) : List Field :=
  stringField 1 table.name ++ ((table.range.toList.map fun dims => messageField 2 dims.fields) ++
    (uintField 3 table.headerRowCount ++ ((table.columns.map fun s => ⟨4, .text s⟩) ++
      uintField 5 table.totalsRowCount)))

def message : Message DeclaredTable where
  default := ⟨"", none, 0, [], 0⟩
  merge table f :=
    match f.number with
    | 1 => f.payload.toText.map fun s => { table with name := s }
    | 2 => (Dimensions.message.mergePayload (table.range.getD Dimensions.message.default) f.payload).map fun dims =>
        { table with range := some dims }
    | 3 => f.payload.toVarint.map fun n => { table with headerRowCount := n }
    | 4 => f.payload.toText.map fun s => { table with columns := table.columns ++ [s] }
    | 5 => f.payload.toVarint.map fun n => { table with totalsRowCount := n }
    | _ => some table

theorem merge_fields (table : DeclaredTable) : table.fields.foldlM message.merge message.default = some table := by
  obtain ⟨name, range, headerRowCount, columns, totalsRowCount⟩ := table
  exact merge_append (merge_string message 1 (fun s => ⟨s, none, 0, [], 0⟩) (fun _ => rfl) name)
    (merge_append (merge_message message 2 Dimensions.merge_fields (fun o => ⟨name, o, 0, [], 0⟩) (fun _ => rfl) range)
      (merge_append (merge_uint message 3 (fun n => ⟨name, range, n, [], 0⟩) (fun _ => rfl) headerRowCount)
        (merge_append (merge_strings message 4 (fun l => ⟨name, range, headerRowCount, l, 0⟩) (fun _ _ => rfl) columns)
          (merge_uint message 5 (fun n => ⟨name, range, headerRowCount, columns, n⟩) (fun _ => rfl) totalsRowCount))))

end DeclaredTable

namespace NumberFormat

def fields (format : NumberFormat) : List Field :=
  uintField 1 format.styleId ++ ((format.code.toList.map fun s => ⟨2, .text s⟩) ++
    (uintField 3 format.kind.number ++ uintField 4 format.formatId))

def message : Message NumberFormat where
  default := ⟨0, none, .unspecified, 0⟩
  merge format f :=
    match f.number with
    | 1 => f.payload.toVarint.map fun n => { format with styleId := n }
    | 2 => f.payload.toText.map fun s => { format with code := some s }
    | 3 => f.payload.toVarint.map fun n => { format with kind := .ofNumber n }
    | 4 => f.payload.toVarint.map fun n => { format with formatId := n }
    | _ => some format

theorem merge_fields (format : NumberFormat) : format.fields.foldlM message.merge message.default = some format := by
  obtain ⟨styleId, code, kind, formatId⟩ := format
  have hcode : (code.toList.map fun s => (⟨2, .text s⟩ : Field)).foldlM message.merge ⟨styleId, none, .unspecified, 0⟩ =
      some ⟨styleId, code, .unspecified, 0⟩ := by
    refine merge_option (fun h => by rw [h]) (fun s h => ?_)
    simp [message, h]
  have hkind := merge_uint message 3 (fun n => ⟨styleId, code, .ofNumber n, 0⟩) (fun _ => rfl) kind.number
  rw [NumberFormatKind.ofNumber_number] at hkind
  exact merge_append (merge_uint message 1 (fun n => ⟨n, none, .unspecified, 0⟩) (fun _ => rfl) styleId)
    (merge_append hcode
      (merge_append hkind (merge_uint message 4 (fun n => ⟨styleId, code, kind, n⟩) (fun _ => rfl) formatId)))

end NumberFormat

namespace RangeStarted

def fields (header : RangeStarted) : List Field :=
  stringField 1 header.sheetName ++ ((header.dimensions.toList.map fun dims => messageField 2 dims.fields) ++
    (uintField 3 header.totalCells ++ ((header.mergedRegions.map fun dims => messageField 4 dims.fields) ++
      ((header.tables.map fun table => messageField 5 table.fields) ++
        header.numberFormats.map fun format => messageField 6 format.fields))))

def message : Message RangeStarted where
  default := ⟨"", none, 0, [], [], []⟩
  merge header f :=
    match f.number with
    | 1 => f.payload.toText.map fun s => { header with sheetName := s }
    | 2 => (Dimensions.message.mergePayload (header.dimensions.getD Dimensions.message.default) f.payload).map fun dims =>
        { header with dimensions := some dims }
    | 3 => f.payload.toVarint.map fun n => { header with totalCells := n }
    | 4 => (Dimensions.message.mergePayload Dimensions.message.default f.payload).map fun dims =>
        { header with mergedRegions := header.mergedRegions ++ [dims] }
    | 5 => (DeclaredTable.message.mergePayload DeclaredTable.message.default f.payload).map fun table =>
        { header with tables := header.tables ++ [table] }
    | 6 => (NumberFormat.message.mergePayload NumberFormat.message.default f.payload).map fun format =>
        { header with numberFormats := header.numberFormats ++ [format] }
    | _ => some header

theorem merge_fields (header : RangeStarted) : header.fields.foldlM message.merge message.default = some header := by
  obtain ⟨sheetName, dimensions, totalCells, mergedRegions, tables, numberFormats⟩ := header
  have hmerged := merge_messages message 4 id Dimensions.merge_fields
    (fun l => ⟨sheetName, dimensions, totalCells, l, [], []⟩) (fun _ _ => rfl) mergedRegions
  have htables := merge_messages message 5 id DeclaredTable.merge_fields
    (fun l => ⟨sheetName, dimensions, totalCells, mergedRegions, l, []⟩) (fun _ _ => rfl) tables
  have hformats := merge_messages message 6 id NumberFormat.merge_fields
    (fun l => ⟨sheetName, dimensions, totalCells, mergedRegions, tables, l⟩) (fun _ _ => rfl) numberFormats
  rw [List.map_id] at hmerged htables hformats
  exact merge_append (merge_string message 1 (fun s => ⟨s, none, 0, [], [], []⟩) (fun _ => rfl) sheetName)
    (merge_append
      (merge_message message 2 Dimensions.merge_fields (fun o => ⟨sheetName, o, 0, [], [], []⟩) (fun _ => rfl) dimensions)
      (merge_append (merge_uint message 3 (fun n => ⟨sheetName, dimensions, n, [], [], []⟩) (fun _ => rfl) totalCells)
        (merge_append hmerged (merge_append htables hformats))))

end RangeStarted

/-! ## Errors -/

namespace CalamineError

def fields (error : CalamineError) : List Field := uintField 1 error.kind.number ++ stringField 2 error.message

def reader : Message CalamineError where
  default := ⟨.unspecified, ""⟩
  merge error f :=
    match f.number with
    | 1 => f.payload.toVarint.map fun n => { error with kind := .ofNumber n }
    | 2 => f.payload.toText.map fun s => { error with message := s }
    | _ => some error

theorem merge_fields (error : CalamineError) : error.fields.foldlM reader.merge reader.default = some error := by
  have hkind := merge_uint reader 1 (fun n => ⟨.ofNumber n, ""⟩) (fun _ => rfl) error.kind.number
  rw [CalamineErrorKind.ofNumber_number] at hkind
  exact merge_append hkind (merge_string reader 2 (fun s => ⟨error.kind, s⟩) (fun _ => rfl) error.message)

end CalamineError

namespace StreamError

def fields (error : StreamError) : List Field :=
  (error.error.toList.map fun e => messageField 1 e.fields) ++ flagField 2 error.terminal

def message : Message StreamError where
  default := ⟨none, false⟩
  merge error f :=
    match f.number with
    | 1 => (CalamineError.reader.mergePayload (error.error.getD CalamineError.reader.default) f.payload).map fun e =>
        { error with error := some e }
    | 2 => f.payload.toVarint.map fun n => { error with terminal := n ≠ 0 }
    | _ => some error

theorem merge_fields (error : StreamError) : error.fields.foldlM message.merge message.default = some error := by
  obtain ⟨e, terminal⟩ := error
  have hterminal : (flagField 2 terminal).foldlM message.merge ⟨e, false⟩ = some ⟨e, terminal⟩ := by
    cases terminal <;> rfl
  exact merge_append (merge_message message 1 CalamineError.merge_fields (fun o => ⟨o, false⟩) (fun _ => rfl) e) hterminal

end StreamError

/-! ## Events -/

namespace RangeEvent

/-- The field of the `event` oneof. -/
def field : RangeEvent → Field
  | .started header => messageField 1 header.fields
  | .row r => messageField 2 r.fields
  | .error e => messageField 3 e.fields
  | .rows rs => messageField 4 (batchFields rs)
  | .stringTable chunk => messageField 5 chunk.fields
  | .rowGap first count => messageField 6 (gapFields (first, count))

/-- An event of the same kind is read on top of, one of another kind left. -/
def message : Message (Option RangeEvent) where
  default := none
  merge event f :=
    match f.number with
    | 1 =>
      let before := match event with
        | some (.started header) => header
        | _ => RangeStarted.message.default
      (RangeStarted.message.mergePayload before f.payload).map fun header => some (.started header)
    | 2 =>
      let before := match event with
        | some (.row r) => r
        | _ => WorksheetRow.message.default
      (WorksheetRow.message.mergePayload before f.payload).map fun r => some (.row r)
    | 3 =>
      let before := match event with
        | some (.error e) => e
        | _ => StreamError.message.default
      (StreamError.message.mergePayload before f.payload).map fun e => some (.error e)
    | 4 =>
      let before := match event with
        | some (.rows rs) => rs
        | _ => batchMessage.default
      (batchMessage.mergePayload before f.payload).map fun rs => some (.rows rs)
    | 5 =>
      let before := match event with
        | some (.stringTable chunk) => chunk
        | _ => StringTableChunk.message.default
      (StringTableChunk.message.mergePayload before f.payload).map fun chunk => some (.stringTable chunk)
    | 6 =>
      let before := match event with
        | some (.rowGap first count) => (first, count)
        | _ => gapMessage.default
      (gapMessage.mergePayload before f.payload).map fun gap => some (.rowGap gap.1 gap.2)
    | _ => some event

/-- `StreamWorksheetRangeResponse::encode`. -/
def encode (event : RangeEvent) : List UInt8 := putFields [event.field]

/-- `StreamWorksheetRangeResponse::decode`, a response without an event as
`some none`. -/
def decode (bytes : List UInt8) : Option (Option RangeEvent) := message.decode bytes

/-- What arrives of an event. -/
def received : RangeEvent → RangeEvent
  | .row r => .row r.received
  | .rows rs => .rows (rs.map WorksheetRow.received)
  | event => event

theorem decode_encode (event : RangeEvent) : decode event.encode = some (some event.received) := by
  rw [decode, encode, message.decode_putFields, List.foldlM_cons]
  cases event <;>
    simp [message, field, messageField, Message.mergePayload_bytes, RangeStarted.merge_fields, WorksheetRow.merge_fields,
      StreamError.merge_fields, merge_batch, StringTableChunk.merge_fields, merge_gap, received]

/-- Field 6, five bytes: rows from 3 on, 300 of them. -/
example : encode (.rowGap 3 300) = [0x32, 5, 8, 3, 16, 0xAC, 2] := by decide

end RangeEvent

end GrpcCalamine.Pb
