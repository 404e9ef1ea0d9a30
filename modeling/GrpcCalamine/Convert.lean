import GrpcCalamine.Proto
/-!
# From calamine's types to the wire

The parts of `src/convert.rs` the streams use, with the calamine types they
read. A shared string is a borrow from the workbook's own table, so it carries
the address it points at next to its text.
-/

namespace GrpcCalamine

/-- The standard library's printing of `{:?}` needs to know which characters
print as themselves. -/
structure Fmt where
  printable : Char → Bool

/-- `char::escape_debug`, as `{:?}` applies it inside a string. -/
def Fmt.escapeDebug (f : Fmt) (c : Char) : String :=
  if c = '\x00' then "\\0"
  else if c = '\t' then "\\t"
  else if c = '\r' then "\\r"
  else if c = '\n' then "\\n"
  else if c = '"' then "\\\""
  else if c = '\\' then "\\\\"
  else if f.printable c then c.toString
  else "\\u\x7b" ++ String.ofList (Nat.toDigits 16 c.toNat) ++ "\x7d"

/-- `format!("{s:?}")`. -/
def Fmt.debug (f : Fmt) (s : String) : String :=
  "\"" ++ String.join (s.toList.map f.escapeDebug) ++ "\""

namespace Calamine

inductive CellErrorType where
  | div0 | na | name | null | num | ref | value | gettingData
  deriving DecidableEq

/-- A date serial: its `f64` bits, and whether its number format is a
duration. -/
structure ExcelDateTime where
  value : UInt64
  isDuration : Bool
  deriving DecidableEq

/-- A `&str` into the workbook's shared-string table. -/
structure SharedStr where
  addr : Nat
  text : String
  deriving DecidableEq

inductive Data where
  | int (v : Int)
  | float (bits : UInt64)
  | string (s : String)
  | bool (b : Bool)
  | dateTime (dt : ExcelDateTime)
  | dateTimeIso (s : String)
  | durationIso (s : String)
  | error (e : CellErrorType)
  | empty
  deriving DecidableEq

inductive DataRef where
  | int (v : Int)
  | float (bits : UInt64)
  | string (s : String)
  | sharedString (s : SharedStr)
  | bool (b : Bool)
  | dateTime (dt : ExcelDateTime)
  | dateTimeIso (s : String)
  | durationIso (s : String)
  | error (e : CellErrorType)
  | empty
  deriving DecidableEq

/-- `calamine::Dimensions`: the corners of a declared extent. -/
structure Dimensions where
  start : Nat × Nat
  «end» : Nat × Nat
  deriving DecidableEq

inductive SheetType where
  | workSheet | dialogSheet | macroSheet | chartSheet | vba
  deriving DecidableEq

inductive SheetVisible where
  | visible | hidden | veryHidden
  deriving DecidableEq

structure Sheet where
  name : String
  typ : SheetType
  visible : SheetVisible
  deriving DecidableEq

inductive NumberFormatKind where
  | other | dateTime | timeDelta
  deriving DecidableEq

structure NumberFormat where
  styleId : Nat
  formatId : Nat
  code : Option String
  kind : NumberFormatKind
  deriving DecidableEq

structure DeclaredTableMetadata where
  name : String
  sheetName : String
  dimensions : Dimensions
  headerRowCount : Nat
  totalsRowCount : Nat
  columns : List String
  deriving DecidableEq

structure WorkbookProperties where
  creator : Option String
  lastModifiedBy : Option String
  created : Option String
  modified : Option String
  title : Option String
  subject : Option String
  description : Option String
  keywords : Option String
  category : Option String
  contentStatus : Option String
  revision : Option String
  version : Option String
  application : Option String
  appVersion : Option String
  company : Option String
  template : Option String
  manager : Option String
  deriving DecidableEq

inductive ErrorVariant where
  | io | ods | xls | xlsb | xlsx | vba | de | msg
  deriving DecidableEq

/-- `calamine::Error`: its variant, and its text. -/
structure Error where
  variant : ErrorVariant
  text : String
  deriving DecidableEq

end Calamine

/-- `calamine::HeaderRow`. -/
inductive HeaderRow where
  | firstNonEmptyRow
  | row (n : Nat)
  deriving DecidableEq

namespace Convert

def cellErrorType : Calamine.CellErrorType → Pb.CellErrorType
  | .div0 => .div0
  | .na => .na
  | .name => .name
  | .null => .null
  | .num => .num
  | .ref => .ref
  | .value => .value
  | .gettingData => .gettingData

def excelDateTime (dt : Calamine.ExcelDateTime) (is1904 : Bool) : Pb.ExcelDateTime :=
  { value := dt.value, datetimeType := if dt.isDuration then .timeDelta else .dateTime, is1904 := is1904 }

def dataValue (d : Calamine.Data) (is1904 : Bool) : Pb.Value :=
  match d with
  | .int v => .intValue v
  | .float v => .floatValue v
  | .string v => .stringValue v
  | .bool v => .boolValue v
  | .dateTime v => .dateTime (excelDateTime v is1904)
  | .dateTimeIso v => .dateTimeIso v
  | .durationIso v => .durationIso v
  | .error e => .error (cellErrorType e)
  | .empty => .empty

def dataRefValue (d : Calamine.DataRef) (is1904 : Bool) : Pb.Value :=
  match d with
  | .int v => .intValue v
  | .float v => .floatValue v
  | .string v => .stringValue v
  | .sharedString v => .sharedStringValue v.text
  | .bool v => .boolValue v
  | .dateTime v => .dateTime (excelDateTime v is1904)
  | .dateTimeIso v => .dateTimeIso v
  | .durationIso v => .durationIso v
  | .error e => .error (cellErrorType e)
  | .empty => .empty

/-- Wrap a value into a `CellData` message. -/
def cellData (value : Pb.Value) : Pb.CellData := { value := some value, formula := none, styleId := none }

def emptyCellData : Pb.CellData := cellData .empty

def cellPosition (pos : Nat × Nat) : Pb.CellPosition := { row := pos.1, col := pos.2 }

def dimensions (d : Calamine.Dimensions) : Pb.Dimensions :=
  { start := some (cellPosition d.start), «end» := some (cellPosition d.end) }

def calamineError (kind : Pb.CalamineErrorKind) (message : String) : Pb.CalamineError := { kind, message }

def errorKindForFormat : Pb.WorkbookFormat → Pb.CalamineErrorKind
  | .xls => .xls
  | .xlsx => .xlsx
  | .xlsb => .xlsb
  | .ods => .ods
  | .unspecified => .unspecified

def errorKind (e : Calamine.Error) : Pb.CalamineErrorKind :=
  match e.variant with
  | .io => .io
  | .ods => .ods
  | .xls => .xls
  | .xlsb => .xlsb
  | .xlsx => .xlsx
  | .vba => .vba
  | .de => .de
  | .msg => .msg

def sheetType : Calamine.SheetType → Pb.SheetType
  | .workSheet => .worksheet
  | .dialogSheet => .dialogSheet
  | .macroSheet => .macroSheet
  | .chartSheet => .chartSheet
  | .vba => .vba

def sheetVisible : Calamine.SheetVisible → Pb.SheetVisible
  | .visible => .visible
  | .hidden => .hidden
  | .veryHidden => .veryHidden

def sheet (s : Calamine.Sheet) : Pb.Sheet :=
  { name := s.name, typ := sheetType s.typ, visible := sheetVisible s.visible }

def workbookProperties (p : Calamine.WorkbookProperties) : Pb.WorkbookProperties :=
  { creator := p.creator,
    lastModifiedBy := p.lastModifiedBy,
    created := p.created,
    modified := p.modified,
    title := p.title,
    subject := p.subject,
    description := p.description,
    keywords := p.keywords,
    category := p.category,
    contentStatus := p.contentStatus,
    revision := p.revision,
    version := p.version,
    application := p.application,
    appVersion := p.appVersion,
    company := p.company,
    template := p.template,
    manager := p.manager }

def declaredTable (t : Calamine.DeclaredTableMetadata) : Pb.DeclaredTable :=
  { name := t.name, range := some (dimensions t.dimensions), headerRowCount := t.headerRowCount,
    totalsRowCount := t.totalsRowCount, columns := t.columns }

def numberFormatKind : Calamine.NumberFormatKind → Pb.NumberFormatKind
  | .other => .other
  | .dateTime => .dateTime
  | .timeDelta => .timeDelta

def numberFormat (f : Calamine.NumberFormat) : Pb.NumberFormat :=
  { styleId := f.styleId, formatId := f.formatId, code := f.code, kind := numberFormatKind f.kind }

end Convert

end GrpcCalamine
