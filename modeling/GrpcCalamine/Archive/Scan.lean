import GrpcCalamine.Lib.Search
import GrpcCalamine.Store.Budget
/-!
# The scan of a shared-string table

`scan_shared_strings`, `RecordCounter`, `declared_unique_count`, `attr_u64` and
`find` of `src/archive.rs`. A reader is the list of what its reads answer, the
end of the file after them. The counts of tags and records stay below the bytes
read, which are held to a `u64` limit, and are plain numbers.
-/

namespace GrpcCalamine

def SHARED_STRING_TAG_COST : Nat := 16

def SHARED_STRING_RECORD_COST : Nat := 48

def SHARED_STRING_SLOT : Nat := 24

def MIN_SI_BYTES : Nat := 8

def SST_HEAD_SCAN : Nat := 1024 * 1024

/-- Bounds on what opening one workbook may inflate. -/
structure InflateLimits where
  maxPictureBytes : Nat
  maxPictureTotalBytes : Nat
  maxSharedStringsBytes : Nat
  picture_le : maxPictureBytes ≤ U64_MAX
  pictureTotal_le : maxPictureTotalBytes ≤ U64_MAX
  sharedStrings_le : maxSharedStringsBytes ≤ U64_MAX

/-- Why `inspect` refused a workbook. -/
inductive Rejected where
  | limit (e : LimitExceeded)
  | malformed (part detail : String)
  deriving DecidableEq

/-! ## Bytes -/

/-- A byte string literal. -/
def ascii (s : String) : List UInt8 := s.toList.map fun c => c.toNat.toUInt8

def isAsciiWhitespace (b : UInt8) : Bool := b = 0x20 || b = 0x09 || b = 0x0A || b = 0x0C || b = 0x0D

def isAsciiDigit (b : UInt8) : Bool := 0x30 ≤ b && b ≤ 0x39

def isAsciiAlphanumeric (b : UInt8) : Bool :=
  isAsciiDigit b || (0x41 ≤ b && b ≤ 0x5A) || (0x61 ≤ b && b ≤ 0x7A)

/-- First index of `needle` in `haystack`. -/
def find (haystack needle : List UInt8) : Option Nat :=
  if needle.isEmpty || haystack.length < needle.length then none else Search.position needle haystack

/-! ## The declared count -/

/-- The digits among `bytes` as one number, saturating; `none` if there are
none. -/
def digitsValue (bytes : List UInt8) : Option Nat :=
  if bytes.any isAsciiDigit then
    some ((bytes.filter isAsciiDigit).foldl (fun value b => satAdd (satMul value 10) (b - 0x30).toNat) 0)
  else none

/-- What `attr_u64` reads after an occurrence of the name: `=` and a quote,
with whitespace around the `=`, and the digits up to the next such quote. -/
def quotedNumber (text : List UInt8) : Option Nat :=
  match text.dropWhile isAsciiWhitespace with
  | 0x3D :: text =>
    match text.dropWhile isAsciiWhitespace with
    | quote :: text =>
      if quote = 0x22 || quote = 0x27 then digitsValue (text.takeWhile fun b => b ≠ quote) else none
    | [] => none
  | _ => none

/-- The loop of `attr_u64`, from `start`. Each turn goes past one occurrence of
the name, so that `fuel` need be no more than the bytes of the tag. -/
def attrU64Loop (tag name : List UInt8) : (fuel start : Nat) → Option Nat
  | 0, _ => none
  | fuel + 1, start =>
    match find (tag.drop start) name with
    | none => none
    | some rel =>
      let i := start + rel
      let next := i + name.length
      -- A real attribute, not a tail of a longer name.
      if 0 < i && (tag[i - 1]?).any isAsciiAlphanumeric then attrU64Loop tag name fuel next
      else
        match quotedNumber (tag.drop next) with
        | some value => some value
        | none => attrU64Loop tag name fuel next

/-- Parse the value of a numeric quoted attribute from a raw start tag,
saturating. -/
def attrU64 (tag name : List UInt8) : Option Nat := attrU64Loop tag name (tag.length + 1) 0

/-- The `uniqueCount` attribute of the `<sst>` root element, if present in the
scanned head of a shared-string table. -/
def declaredUniqueCount (head : List UInt8) : Option Nat := do
  let start ← find head (ascii "<sst")
  let after ← head[start + 4]?
  if !(after = 0x3E || after = 0x2F || isAsciiWhitespace after) then none
  else
    let close ← find (head.drop (start + 4)) [0x3E]
    attrU64 ((head.drop start).take (4 + close + 1)) (ascii "uniqueCount")

/-! ## Records -/

/-- Where a `RecordCounter` is within the current record. -/
inductive RecordState where
  | type
  | typeSecond
  | length (read len : Nat)
  | payload (left : Nat)
  deriving DecidableEq

/-- Counts the records of an xlsb stream fed to it in pieces. -/
structure RecordCounter where
  records : Nat
  state : RecordState
  deriving DecidableEq

def RecordCounter.default : RecordCounter := ⟨0, .type⟩

/-- One turn of `RecordCounter::feed` on bytes it has not run out of: the
counter and the bytes left. -/
def RecordCounter.turn (c : RecordCounter) (byte : UInt8) (rest : List UInt8) : RecordCounter × List UInt8 :=
  match c.state with
  | .payload left =>
    let skip := min left (rest.length + 1)
    ({ c with state := if left = skip then .type else .payload (left - skip) }, (byte :: rest).drop skip)
  | .type => ({ c with state := if byte &&& 0x80 = 0 then .length 0 0 else .typeSecond }, rest)
  | .typeSecond => ({ c with state := .length 0 0 }, rest)
  | .length read len =>
    let len := len ||| (byte &&& 0x7F).toNat <<< (7 * read)
    if byte &&& 0x80 ≠ 0 && read < 3 then ({ c with state := .length (read + 1) len }, rest)
    else (⟨c.records + 1, if len = 0 then .type else .payload len⟩, rest)

/-- A turn uses up a byte, or leaves a payload of no bytes. -/
theorem RecordCounter.turn_lt (c : RecordCounter) (byte : UInt8) (rest : List UInt8) :
    Prod.Lex (· < ·) (· < ·)
      ((c.turn byte rest).2.length, if (c.turn byte rest).1.state = .payload 0 then 1 else 0)
      ((byte :: rest).length, if c.state = .payload 0 then 1 else 0) := by
  obtain ⟨records, state⟩ := c
  cases state with
  | type | typeSecond => exact .left _ _ (Nat.lt_succ_self _)
  | length read len =>
    refine .left _ _ ?_
    simp only [turn]
    split <;> exact Nat.lt_succ_self _
  | payload left =>
    cases left with
    | zero =>
      simp only [turn, Nat.zero_min, List.drop_zero, if_true]
      exact .right _ Nat.one_pos
    | succ left =>
      refine .left _ _ ?_
      simp only [turn, List.length_drop, List.length_cons]
      omega

def RecordCounter.feed (c : RecordCounter) : List UInt8 → RecordCounter
  | [] => c
  | byte :: rest => (c.turn byte rest).1.feed (c.turn byte rest).2
termination_by bytes => (bytes.length, if c.state = .payload 0 then 1 else 0)
decreasing_by exact c.turn_lt byte rest

/-! ## The scan -/

/-- What one read answers: bytes, none at the end of the file. -/
inductive ReadResult where
  | ok (bytes : List UInt8)
  | interrupted
  | failed

/-- The bytes of a reader up to its end or its first hard error. -/
def delivered : List ReadResult → List UInt8
  | [] => []
  | .ok [] :: _ => []
  | .ok (b :: bytes) :: reads => b :: bytes ++ delivered reads
  | .interrupted :: reads => delivered reads
  | .failed :: _ => []

/-- What the read loop of `scan_shared_strings` has. -/
structure SharedStringsScan where
  head : List UInt8
  total : Nat
  tags : Nat
  records : RecordCounter

namespace SharedStringsScan

def start : SharedStringsScan := ⟨[], 0, 0, .default⟩

/-- One read's bytes, within the limit. -/
def take (s : SharedStringsScan) (binary : Bool) (bytes : List UInt8) : SharedStringsScan :=
  { head := if s.head.length < SST_HEAD_SCAN then s.head ++ bytes.take (SST_HEAD_SCAN - s.head.length) else s.head,
    total := satAdd s.total bytes.length,
    tags := if binary then s.tags else s.tags + bytes.countP (· = 0x3C),
    records := if binary then s.records.feed bytes else s.records }

def readAll (binary : Bool) (name : String) (limits : InflateLimits) :
    SharedStringsScan → List ReadResult → Except Rejected SharedStringsScan
  | s, [] => .ok s
  | s, .ok [] :: _ => .ok s
  | s, .ok (b :: bytes) :: reads =>
    let s' := s.take binary (b :: bytes)
    if s'.total > limits.maxSharedStringsBytes then
      .error (.limit (.sharedStrings name limits.maxSharedStringsBytes))
    else readAll binary name limits s' reads
  | s, .interrupted :: reads => readAll binary name limits s reads
  | s, .failed :: _ => .ok s

end SharedStringsScan

def malformedCount (declared total capacity : Nat) : String :=
  s!"declares uniqueCount={declared} shared strings, but the table " ++
    s!"inflates to {total} bytes, which can hold at most {capacity}; " ++
    s!"calamine reserves space for all {declared} before reading any"

/-- Validate a shared-string table, and estimate what it costs parsed. -/
def scanSharedStrings (reads : List ReadResult) (name : String) (binary : Bool) (limits : InflateLimits) :
    Except Rejected Nat := do
  let s ← SharedStringsScan.readAll binary name limits .start reads
  let entries := if binary then satMul s.records.records SHARED_STRING_RECORD_COST
    else satMul s.tags SHARED_STRING_TAG_COST
  let parsed := satAdd s.total entries
  match declaredUniqueCount s.head with
  | none => return parsed
  | some declared =>
    let capacity := s.total / MIN_SI_BYTES
    if declared > capacity then throw (.malformed name (malformedCount declared s.total capacity))
    else return max parsed (satMul declared SHARED_STRING_SLOT)

end GrpcCalamine
