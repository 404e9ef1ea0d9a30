import GrpcCalamine.Lib.Wire
import GrpcCalamine.Proto
import Mathlib.Algebra.BigOperators.Group.List.Basic
/-!
# What a message encodes to

The protobuf length of the events whose size the server bounds, field by field
as `proto/calamine/v1` numbers them. A field of a `oneof` and an optional field
are on the wire whenever they are set, any other scalar unless it is its
default. A `u32` field holds its number modulo 2^32, an `i64` its two's
complement.
-/

namespace GrpcCalamine.Pb

open Wire

/-- A `uint32` on the wire. -/
def u32Len (n : Nat) : Nat := varintLen (n % 2 ^ 32)

theorem u32Len_le (n : Nat) : u32Len n ≤ 5 :=
  (varintLen_le_iff (by decide)).2 ((Nat.mod_lt n (by decide)).trans (by decide))

/-- A `uint32` field that is left out at zero. -/
def u32Field (field n : Nat) : Nat := if n % 2 ^ 32 = 0 then 0 else keyLen field + u32Len n

/-- A field of strings or bytes that is left out when it is empty. -/
def textField (field n : Nat) : Nat := if n = 0 then 0 else lenField field n

def boolField (field : Nat) (b : Bool) : Nat := if b then varintField field 1 else 0

/-- An enumeration's number. -/
def enumField (field number : Nat) : Nat := if number = 0 then 0 else varintField field number

def CellErrorType.number : CellErrorType → Nat
  | .unspecified => 0
  | .div0 => 1
  | .na => 2
  | .name => 3
  | .null => 4
  | .num => 5
  | .ref => 6
  | .value => 7
  | .gettingData => 8

def ExcelDateTimeType.number : ExcelDateTimeType → Nat
  | .unspecified => 0
  | .dateTime => 1
  | .timeDelta => 2

def CalamineErrorKind.number : CalamineErrorKind → Nat
  | .unspecified => 0
  | .io => 1
  | .ods => 2
  | .xls => 3
  | .xlsb => 4
  | .xlsx => 5
  | .vba => 6
  | .de => 7
  | .msg => 8

/-- With a serial of -0.0, which prost leaves out with 0.0, the length of a
message that has it: nine bytes too many. -/
def ExcelDateTime.encodedLen (dt : ExcelDateTime) : Nat :=
  (if dt.value = 0 then 0 else fixed64Field 1) + enumField 2 dt.datetimeType.number + boolField 3 dt.is1904

/-- The field of the `value` oneof. -/
def Value.encodedLen : Value → Nat
  | .intValue v => varintField 1 (v % 2 ^ 64).toNat
  | .floatValue _ => fixed64Field 2
  | .stringValue s => lenField 3 s.utf8ByteSize
  | .sharedStringValue s => lenField 4 s.utf8ByteSize
  | .boolValue _ => varintField 5 1
  | .dateTime dt => lenField 6 dt.encodedLen
  | .dateTimeIso s => lenField 7 s.utf8ByteSize
  | .durationIso s => lenField 8 s.utf8ByteSize
  | .error e => varintField 9 e.number
  | .empty => lenField 10 0
  | .sharedStringId id => keyLen 11 + u32Len id

def CellData.encodedLen (cell : CellData) : Nat :=
  (match cell.formula with
    | some s => lenField 12 s.utf8ByteSize
    | none => 0) +
  (match cell.styleId with
    | some id => keyLen 13 + u32Len id
    | none => 0) +
  match cell.value with
  | some value => value.encodedLen
  | none => 0

def WorksheetRow.encodedLen (row : WorksheetRow) : Nat :=
  u32Field 1 row.rowIndex + (row.values.map fun cell => lenField 2 cell.encodedLen).sum

/-- A `WorksheetRowBatch`. -/
def batchLen (rows : List WorksheetRow) : Nat := (rows.map fun row => lenField 1 row.encodedLen).sum

/-- A `StreamWorksheetRangeResponse` that carries rows. -/
def RangeEvent.rowsLen : RangeEvent → Option Nat
  | .row r => some (lenField 2 r.encodedLen)
  | .rows rs => some (lenField 4 (batchLen rs))
  | _ => none

def CalamineError.encodedLen (error : CalamineError) : Nat :=
  enumField 1 error.kind.number + textField 2 error.message.utf8ByteSize

def StreamError.encodedLen (error : StreamError) : Nat :=
  (match error.error with
    | some error => lenField 1 error.encodedLen
    | none => 0) + boolField 2 error.terminal

def VbaReference.encodedLen (r : VbaReference) : Nat :=
  textField 1 r.name.utf8ByteSize + textField 2 r.description.utf8ByteSize + textField 3 r.path.utf8ByteSize

def VbaProjectInfo.encodedLen (info : VbaProjectInfo) : Nat :=
  boolField 1 info.present + (info.references.map fun r => lenField 2 r.encodedLen).sum +
    (info.moduleNames.map fun name => lenField 3 name.utf8ByteSize).sum

def VbaModule.encodedLen (m : VbaModule) : Nat :=
  textField 1 m.name.utf8ByteSize + textField 2 m.rawContent.length

/-- A `StreamVbaProjectResponse`. -/
def VbaEvent.encodedLen : VbaEvent → Nat
  | .info i => lenField 1 i.encodedLen
  | .module m => lenField 2 m.encodedLen
  | .error e => lenField 3 e.encodedLen

def Picture.encodedLen (p : Picture) : Nat :=
  u32Field 1 p.row + u32Field 2 p.col + textField 3 p.sheetName.utf8ByteSize + textField 4 p.extension.utf8ByteSize +
    textField 5 p.data.length + textField 6 p.name.utf8ByteSize

/-- A `GetPicturesResponse`. -/
def PictureEvent.encodedLen : PictureEvent → Nat
  | .picture p => lenField 1 p.encodedLen
  | .error e => lenField 2 e.encodedLen

end GrpcCalamine.Pb
