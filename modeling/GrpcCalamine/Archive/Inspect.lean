import GrpcCalamine.Archive.Verdict
/-!
# The inspection of an archive

`classify`, `quoted`, `inflated_size` and `inspect` of `src/archive.rs`. What
the zip reader makes of the bytes is a parameter: no archive at all, or its
entries, each one a name and what its reads answer, or no entry where the
reader cannot open it. `inspectReads` counts what the reads of one inspection
give.
-/

namespace GrpcCalamine

def PICTURE_EXTENSIONS : List String :=
  ["emf", "wmf", "pict", "jpeg", "jpg", "png", "dib", "gif", "tiff", "eps", "bmp", "wpg"]

def SHARED_STRINGS_FILES : List String := ["sharedstrings.xml", "sharedstrings.bin"]

def MAX_QUOTED_NAME : Nat := 200

def DEFAULT_MAX_PICTURE_BYTES : Nat := 64 * 1024 * 1024

def DEFAULT_MAX_PICTURE_TOTAL_BYTES : Nat := 256 * 1024 * 1024

def DEFAULT_MAX_SHARED_STRINGS_BYTES : Nat := 256 * 1024 * 1024

def InflateLimits.default : InflateLimits where
  maxPictureBytes := DEFAULT_MAX_PICTURE_BYTES
  maxPictureTotalBytes := DEFAULT_MAX_PICTURE_TOTAL_BYTES
  maxSharedStringsBytes := DEFAULT_MAX_SHARED_STRINGS_BYTES
  picture_le := by decide
  pictureTotal_le := by decide
  sharedStrings_le := by decide

/-- The bytes of the buffer every read fills. -/
def READ_BUFFER : Nat := 64 * 1024

/-- What `inspect` measured. -/
structure Inflated where
  pictureBytes : Nat
  sharedStringsBytes : Nat
  deriving DecidableEq

def Inflated.default : Inflated := ⟨0, 0⟩

/-- A part of the package calamine reads whole when it opens it. -/
inductive Part where
  | picture
  | sharedStrings
  deriving DecidableEq

/-! ## Names -/

/-- Backslashes folded to slashes, and lowercased. -/
def normalize (name : String) : List Char :=
  name.toList.map fun c => (if c = '\\' then '/' else c).toLower

/-- What comes after the last `sep`, and whether there is one. -/
def afterLast (sep : Char) (name : List Char) : List Char × Bool :=
  ((name.reverse.takeWhile (· ≠ sep)).reverse, name.contains sep)

def classify (name : String) : Option Part :=
  let file := (afterLast '/' (normalize name)).1
  if SHARED_STRINGS_FILES.contains (String.ofList file) then some .sharedStrings
  else
    match afterLast '.' file with
    | (_, false) => none
    | (extension, true) => if PICTURE_EXTENSIONS.contains (String.ofList extension) then some .picture else none

/-- An entry name fit to quote in a refusal. -/
def quoted (name : String) : String :=
  if MAX_QUOTED_NAME < name.toList.length then String.ofList (name.toList.take MAX_QUOTED_NAME) ++ "..." else name

/-! ## One entry -/

/-- An entry of the archive: no read gives more than the buffer holds. -/
structure Entry where
  name : String
  reads : List ReadResult
  reads_le : ∀ bytes, .ok bytes ∈ reads → bytes.length ≤ READ_BUFFER

/-- The loop of `inflated_size`, from the total so far. -/
def inflatedSizeFrom (limit : Nat) : (total : Nat) → List ReadResult → Option Nat
  | total, [] => some total
  | total, .ok [] :: _ => some total
  | total, .ok (b :: bytes) :: reads =>
    let total := satAdd total (b :: bytes).length
    if total > limit then none else inflatedSizeFrom limit total reads
  | total, .interrupted :: reads => inflatedSizeFrom limit total reads
  | total, .failed :: _ => some total

/-- How many bytes a part gives, or `none` as soon as that passes `limit`. -/
def inflatedSize (part : List ReadResult) (limit : Nat) : Option Nat := inflatedSizeFrom limit 0 part

/-- How far the next picture is inflated. -/
def pictureLimit (limits : InflateLimits) (mediaTotal : Nat) : Nat :=
  min limits.maxPictureBytes (limits.maxPictureTotalBytes - mediaTotal)

/-- One turn of the loop of `inspect`, with what it measured so far. -/
def inspectEntry (limits : InflateLimits) (sum : Inflated) (entry : Entry) : Except Rejected Inflated :=
  match classify entry.name with
  | some .picture =>
    let name := quoted entry.name
    let limit := pictureLimit limits sum.pictureBytes
    match inflatedSize entry.reads limit with
    | some size => .ok { sum with pictureBytes := satAdd sum.pictureBytes size }
    | none =>
      if limit = limits.maxPictureBytes then .error (.limit (.picture name limits.maxPictureBytes))
      else .error (.limit (.pictureTotal limits.maxPictureTotalBytes))
  | some .sharedStrings => do
    let name := quoted entry.name
    let binary := ".bin".toList.isSuffixOf (normalize entry.name)
    let parsed ← scanSharedStrings entry.reads name binary limits
    return { sum with sharedStringsBytes := satAdd sum.sharedStringsBytes parsed }
  | none => .ok sum

/-! ## The archive -/

def inspectFrom (limits : InflateLimits) : Inflated → List (Option Entry) → Except Rejected Inflated
  | sum, [] => .ok sum
  | sum, none :: entries => inspectFrom limits sum entries
  | sum, some entry :: entries => do
    let sum ← inspectEntry limits sum entry
    inspectFrom limits sum entries

/-- Inflate, into nothing, every part calamine would read whole, and refuse the
workbook once one passes its limit. -/
def inspect (limits : InflateLimits) : (zip : Option (List (Option Entry))) → Except Rejected Inflated
  | none => .ok .default
  | some entries => inspectFrom limits .default entries

/-! ## What it reads -/

/-- The bytes a read loop has from a part, `total` of them before: up to its
end, a hard error, or the read that takes them past `limit`. -/
def pulledFrom (limit : Nat) : (total : Nat) → List ReadResult → Nat
  | _, [] => 0
  | _, .ok [] :: _ => 0
  | total, .ok (b :: bytes) :: reads =>
    let total := satAdd total (b :: bytes).length
    (b :: bytes).length + if total > limit then 0 else pulledFrom limit total reads
  | total, .interrupted :: reads => pulledFrom limit total reads
  | _, .failed :: _ => 0

def pulled (limit : Nat) (part : List ReadResult) : Nat := pulledFrom limit 0 part

/-- The bytes one turn of the loop of `inspect` reads. -/
def entryReads (limits : InflateLimits) (sum : Inflated) (entry : Entry) : Nat :=
  match classify entry.name with
  | some .picture => pulled (pictureLimit limits sum.pictureBytes) entry.reads
  | some .sharedStrings => pulled limits.maxSharedStringsBytes entry.reads
  | none => 0

def inspectReadsFrom (limits : InflateLimits) : Inflated → List (Option Entry) → Nat
  | _, [] => 0
  | sum, none :: entries => inspectReadsFrom limits sum entries
  | sum, some entry :: entries =>
    entryReads limits sum entry +
      match inspectEntry limits sum entry with
      | .ok sum => inspectReadsFrom limits sum entries
      | .error _ => 0

/-- The bytes one inspection reads out of inflating entries. -/
def inspectReads (limits : InflateLimits) : (zip : Option (List (Option Entry))) → Nat
  | none => 0
  | some entries => inspectReadsFrom limits .default entries

example : classify "custom/IMAGE.JPEG" = some .picture ∧ classify "XL\\SHAREDSTRINGS.XML" = some .sharedStrings ∧
    classify "xl/media.png/data" = none ∧ classify "xl/sharedStrings.xml.rels" = none := by decide +kernel

/-! ## A part's bytes decide -/

section Loops

variable {limit total : Nat}

/-- A part gives all its bytes, or more than its limit. -/
theorem inflatedSizeFrom_eq (hlimit : limit ≤ U64_MAX) (htotal : total ≤ limit) (reads : List ReadResult) :
    inflatedSizeFrom limit total reads =
      if satAdd total (delivered reads).length ≤ limit then some (satAdd total (delivered reads).length)
      else none := by
  have hstop : (if satAdd total 0 ≤ limit then some (satAdd total 0) else none) = some total := by
    rw [satAdd_zero (by omega), if_pos htotal]
  induction reads generalizing total with
  | nil => exact hstop.symm
  | cons read reads ih =>
    cases read with
    | failed => exact hstop.symm
    | interrupted => exact ih htotal hstop
    | ok bytes =>
      cases bytes with
      | nil => exact hstop.symm
      | cons b bytes =>
        have hmono := le_satAdd (satAdd_le total (b :: bytes).length) (delivered reads).length
        rw [inflatedSizeFrom, delivered, List.length_append, ← satAdd_assoc]
        split
        · rename_i hmore
          rw [if_neg (by omega)]
        · rename_i hwithin
          have hle := Nat.not_lt.1 hwithin
          exact ih hle (by rw [satAdd_zero (satAdd_le _ _), if_pos hle])

/-- A read loop within its limit has all the bytes of its part. -/
theorem pulledFrom_eq {reads : List ReadResult} (hwithin : satAdd total (delivered reads).length ≤ limit) :
    pulledFrom limit total reads = (delivered reads).length := by
  induction reads generalizing total with
  | nil => rfl
  | cons read reads ih =>
    cases read with
    | failed => rfl
    | interrupted => exact ih hwithin
    | ok bytes =>
      cases bytes with
      | nil => rfl
      | cons b bytes =>
        rw [delivered, List.length_append, ← satAdd_assoc] at hwithin
        have hmono := le_satAdd (satAdd_le total (b :: bytes).length) (delivered reads).length
        have hle := hmono.trans hwithin
        rw [pulledFrom, delivered, List.length_append]
        simp only [if_neg (Nat.not_lt.2 hle), ih hwithin]

end Loops

/-- With room for a part, it is measured whole. -/
theorem inflatedSize_eq {limit : Nat} (hlimit : limit ≤ U64_MAX) (part : List ReadResult) :
    inflatedSize part limit =
      if byteCount (delivered part) ≤ limit then some (byteCount (delivered part)) else none := by
  have hcount : satAdd 0 (delivered part).length = byteCount (delivered part) := by
    rw [satAdd, Nat.zero_add, byteCount]
  rw [inflatedSize, inflatedSizeFrom_eq hlimit (Nat.zero_le _), hcount]

theorem pulled_eq {limit : Nat} {part : List ReadResult} (hwithin : byteCount (delivered part) ≤ limit) :
    pulled limit part = (delivered part).length := by
  apply pulledFrom_eq
  rwa [satAdd, Nat.zero_add]

end GrpcCalamine
