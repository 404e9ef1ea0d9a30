import Mathlib.Algebra.Order.Ring.Nat
/-!
# The messages of `calamine.v1`

The protobuf messages the server builds, field by field. A `oneof` is an
inductive type; a response whose only field is the `event` oneof is that oneof.
`u32` and `u64` fields are natural numbers, and an `f64` is kept as its 64 bits:
nothing here computes on it.
-/

namespace GrpcCalamine.Pb

inductive CellErrorType where
  | unspecified | div0 | na | name | null | num | ref | value | gettingData
  deriving DecidableEq

inductive ExcelDateTimeType where
  | unspecified | dateTime | timeDelta
  deriving DecidableEq

structure ExcelDateTime where
  value : UInt64
  datetimeType : ExcelDateTimeType
  is1904 : Bool
  deriving DecidableEq

/-- `cell_data::Value`. -/
inductive Value where
  | intValue (v : Int)
  | floatValue (bits : UInt64)
  | stringValue (s : String)
  | sharedStringValue (s : String)
  | boolValue (b : Bool)
  | dateTime (dt : ExcelDateTime)
  | dateTimeIso (s : String)
  | durationIso (s : String)
  | error (e : CellErrorType)
  | empty
  | sharedStringId (id : Nat)
  deriving DecidableEq

structure CellData where
  value : Option Value
  formula : Option String
  styleId : Option Nat
  deriving DecidableEq

structure CellPosition where
  row : Nat
  col : Nat
  deriving DecidableEq

structure Dimensions where
  start : Option CellPosition
  «end» : Option CellPosition
  deriving DecidableEq

structure DeclaredTable where
  name : String
  range : Option Dimensions
  headerRowCount : Nat
  columns : List String
  totalsRowCount : Nat
  deriving DecidableEq

inductive NumberFormatKind where
  | unspecified | other | dateTime | timeDelta
  deriving DecidableEq

structure NumberFormat where
  styleId : Nat
  code : Option String
  kind : NumberFormatKind
  formatId : Nat
  deriving DecidableEq

inductive CalamineErrorKind where
  | unspecified | io | ods | xls | xlsb | xlsx | vba | de | msg
  deriving DecidableEq

inductive WorkbookFormat where
  | unspecified | xls | xlsx | xlsb | ods
  deriving DecidableEq

structure CalamineError where
  kind : CalamineErrorKind
  message : String
  deriving DecidableEq

structure StreamError where
  error : Option CalamineError
  terminal : Bool
  deriving DecidableEq

structure RangeStarted where
  sheetName : String
  dimensions : Option Dimensions
  totalCells : Nat
  mergedRegions : List Dimensions
  tables : List DeclaredTable
  numberFormats : List NumberFormat
  deriving DecidableEq

structure WorksheetRow where
  rowIndex : Nat
  values : List CellData
  deriving DecidableEq

structure StringTableChunk where
  firstId : Nat
  entries : List String
  deriving DecidableEq

/-- `StreamWorksheetRangeResponse`. A `rowGap` carries `first_row_index` and
`row_count`. -/
inductive RangeEvent where
  | started (header : RangeStarted)
  | row (row : WorksheetRow)
  | error (error : StreamError)
  | rows (rows : List WorksheetRow)
  | stringTable (chunk : StringTableChunk)
  | rowGap (firstRowIndex rowCount : Nat)
  deriving DecidableEq

/-- `StreamWorksheetFormulaResponse`. -/
inductive FormulaEvent where
  | started (header : RangeStarted)
  | row (rowIndex : Nat) (formulas : List String)
  | error (error : StreamError)
  deriving DecidableEq

structure VbaReference where
  name : String
  description : String
  path : String
  deriving DecidableEq

structure VbaProjectInfo where
  present : Bool
  references : List VbaReference
  moduleNames : List String
  deriving DecidableEq

structure VbaModule where
  name : String
  rawContent : List UInt8
  deriving DecidableEq

/-- `StreamVbaProjectResponse`. -/
inductive VbaEvent where
  | info (info : VbaProjectInfo)
  | module (module : VbaModule)
  | error (error : StreamError)
  deriving DecidableEq

structure Picture where
  row : Nat
  col : Nat
  sheetName : String
  extension : String
  data : List UInt8
  name : String
  deriving DecidableEq

/-- `GetPicturesResponse`. -/
inductive PictureEvent where
  | picture (picture : Picture)
  | error (error : StreamError)
  deriving DecidableEq

inductive SheetSelector where
  | sheetName (name : String)
  | sheetIndex (i : Nat)
  deriving DecidableEq

inductive HeaderRowSelection where
  | firstNonEmptyRow
  | rowIndex (i : Nat)
  deriving DecidableEq

structure HeaderRow where
  selection : Option HeaderRowSelection
  deriving DecidableEq

/-- `WorkbookOptions`, the enumeration as the `int32` it arrives as. -/
structure WorkbookOptions where
  formatHint : Int
  headerRow : Option HeaderRow
  deriving DecidableEq

inductive UploadPayload where
  | options (options : WorkbookOptions)
  | chunk (bytes : List UInt8)
  deriving DecidableEq

structure OpenWorkbookRequest where
  payload : Option UploadPayload
  deriving DecidableEq

inductive SheetType where
  | unspecified | worksheet | dialogSheet | macroSheet | chartSheet | vba
  deriving DecidableEq

inductive SheetVisible where
  | unspecified | visible | hidden | veryHidden
  deriving DecidableEq

structure Sheet where
  name : String
  typ : SheetType
  visible : SheetVisible
  deriving DecidableEq

structure DefinedName where
  name : String
  definition : String
  deriving DecidableEq

structure WorkbookProperties where
  creator : Option String
  lastModifiedBy : Option String
  created : Option String
  modified : Option String
  title : Option String
  subject : Option String
  description : Option String
  keywords : Option String
  category : Option String
  contentStatus : Option String
  revision : Option String
  version : Option String
  application : Option String
  appVersion : Option String
  company : Option String
  template : Option String
  manager : Option String
  deriving DecidableEq

structure Metadata where
  properties : Option WorkbookProperties
  sheets : List Sheet
  definedNames : List DefinedName
  deriving DecidableEq

structure OpenWorkbookResponse where
  workbookId : String
  detectedFormat : WorkbookFormat
  metadata : Option Metadata
  deriving DecidableEq

structure UiInfo where
  title : String
  path : String
  description : String
  deriving DecidableEq

structure GetMetadataResponse where
  detectedFormat : WorkbookFormat
  metadata : Option Metadata
  ui : Option UiInfo
  deriving DecidableEq

/-- `WorkbookFormat::try_from`. -/
def WorkbookFormat.tryFrom : Int → Option WorkbookFormat
  | 0 => some .unspecified
  | 1 => some .xls
  | 2 => some .xlsx
  | 3 => some .xlsb
  | 4 => some .ods
  | _ => none

end GrpcCalamine.Pb

namespace GrpcCalamine

/-- The gRPC status codes the server ends streams with. -/
inductive Code where
  | invalidArgument | notFound | deadlineExceeded | resourceExhausted | failedPrecondition | internal
  deriving DecidableEq

/-- `tonic::Status`. -/
structure Status where
  code : Code
  message : String
  deriving DecidableEq

end GrpcCalamine
