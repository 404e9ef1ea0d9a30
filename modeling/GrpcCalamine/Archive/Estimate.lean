import GrpcCalamine.Archive.Honest
/-!
# The estimate and the strings it is for

What a table's strings cost is a slot and their UTF-8 text each
(`SharedTable.cost`). In an xlsx table every entry has four tags and its text
in UTF-8, so the estimate covers the cost of any table. In an xlsb table the
text is UTF-16: two bytes for a character that is three in UTF-8, and a flat
charge for the record.
-/

namespace GrpcCalamine

/-- The bytes of a text in UTF-8. -/
def utf8Length (text : List Char) : Nat := (text.map Char.utf8Size).sum

/-- What a string of that text holds: its slot and its bytes. -/
def stringCost (text : List Char) : Nat := SHARED_STRING_SLOT + utf8Length text

/-! ## xlsx entries -/

/-- The digit of a hexadecimal number. -/
def hexDigit (b : UInt8) : Nat :=
  if isAsciiDigit b then (b - 0x30).toNat else if 0x61 ≤ b then (b - 0x61).toNat + 10 else (b - 0x41).toNat + 10

def hexValue (digits : List UInt8) : Nat := digits.foldl (fun value b => value * 16 + hexDigit b) 0

def predefinedEntities : List (String × Char) := [("lt", '<'), ("gt", '>'), ("amp", '&'), ("quot", '"'), ("apos", '\'')]

/-- A character of an entry's text, as the XML has it. -/
inductive TextPiece where
  | raw (c : Char) (h : c ≠ '<' ∧ c ≠ '&')
  | entity (name : String) (c : Char) (h : (name, c) ∈ predefinedEntities)
  | decimal (digits : List UInt8) (c : Char) (h : digits ≠ [] ∧ decimalValue digits = c.toNat)
  | hex (digits : List UInt8) (c : Char) (h : digits ≠ [] ∧ hexValue digits = c.toNat)

namespace TextPiece

def bytes : TextPiece → List UInt8
  | raw c _ => String.utf8EncodeChar c
  | entity name _ _ => ascii "&" ++ ascii name ++ ascii ";"
  | decimal digits _ _ => ascii "&#" ++ digits ++ ascii ";"
  | hex digits _ _ => ascii "&#x" ++ digits ++ ascii ";"

def char : TextPiece → Char
  | raw c _ | entity _ c _ | decimal _ c _ | hex _ c _ => c

/-- A reference is at least as long as the character it stands for. -/
theorem utf8Size_le (piece : TextPiece) : piece.char.utf8Size ≤ piece.bytes.length := by
  have hfour : ∀ c : Char, c.utf8Size ≤ 4 := Char.utf8Size_le_four
  cases piece with
  | raw c h => exact (String.length_utf8EncodeChar c).ge
  | entity name c h =>
    have hone : ∀ p ∈ predefinedEntities, p.2.utf8Size = 1 := by decide
    have hc : c.utf8Size = 1 := hone _ h
    have hlen : (ascii "&").length = 1 := rfl
    simp only [char, bytes, List.length_append]
    omega
  | decimal digits c h =>
    have hpos := List.length_pos_iff.2 h.1
    have hlen : (ascii "&#").length = 2 ∧ (ascii ";").length = 1 := ⟨rfl, rfl⟩
    have := hfour c
    simp only [char, bytes, List.length_append]
    omega
  | hex digits c h =>
    have hpos := List.length_pos_iff.2 h.1
    have hlen : (ascii "&#x").length = 3 ∧ (ascii ";").length = 1 := ⟨rfl, rfl⟩
    have := hfour c
    simp only [char, bytes, List.length_append]
    omega

end TextPiece

/-- An entry `<si><t>text</t></si>`. -/
abbrev SiEntry := List TextPiece

namespace SiEntry

def text (e : SiEntry) : List Char := e.map TextPiece.char

def textBytes (e : SiEntry) : List UInt8 := e.flatMap TextPiece.bytes

def bytes (e : SiEntry) : List UInt8 := ascii "<si><t>" ++ e.textBytes ++ ascii "</t></si>"

theorem utf8Length_le (e : SiEntry) : utf8Length e.text ≤ e.textBytes.length := by
  induction e with
  | nil => exact Nat.zero_le _
  | cons piece e ih =>
    have := piece.utf8Size_le
    simp only [utf8Length, text, textBytes, List.map_cons, List.sum_cons, List.flatMap_cons, List.length_append] at ih ⊢
    omega

/-- An entry's bytes and its four tags pay for its string. -/
theorem stringCost_le (e : SiEntry) :
    stringCost e.text ≤ e.bytes.length + SHARED_STRING_TAG_COST * e.bytes.countP (· = 0x3C) := by
  have htext := e.utf8Length_le
  have hlen : (ascii "<si><t>").length = 7 ∧ (ascii "</t></si>").length = 9 := ⟨rfl, rfl⟩
  have htags : (ascii "<si><t>").countP (· = 0x3C) = 2 ∧ (ascii "</t></si>").countP (· = 0x3C) = 2 :=
    ⟨by decide, by decide⟩
  simp only [stringCost, bytes, List.length_append, List.countP_append, hlen, htags, SHARED_STRING_SLOT,
    SHARED_STRING_TAG_COST]
  omega

end SiEntry

/-- A table's text up to its first entry, its entries, and the rest. -/
structure XlsxTable where
  before : List UInt8
  entries : List SiEntry
  after : List UInt8

namespace XlsxTable

variable (t : XlsxTable)

def bytes : List UInt8 := t.before ++ (t.entries.flatMap SiEntry.bytes ++ t.after)

def cost : Nat := (t.entries.map fun e => stringCost e.text).sum

theorem cost_le : t.cost ≤ t.bytes.length + SHARED_STRING_TAG_COST * t.bytes.countP (· = 0x3C) := by
  have hentries : ∀ entries : List SiEntry, (entries.map fun e => stringCost e.text).sum ≤
      (entries.flatMap SiEntry.bytes).length +
        SHARED_STRING_TAG_COST * (entries.flatMap SiEntry.bytes).countP (· = 0x3C) := by
    intro entries
    induction entries with
    | nil => exact Nat.zero_le _
    | cons e entries ih =>
      have := e.stringCost_le
      simp only [List.map_cons, List.sum_cons, List.flatMap_cons, List.length_append, List.countP_append, Nat.mul_add]
      omega
  have := hentries t.entries
  simp only [cost, bytes, List.length_append, List.countP_append, Nat.mul_add]
  omega

end XlsxTable

/-! ## xlsb entries -/

def isHighSurrogate (u : UInt16) : Bool := 0xD800 ≤ u && u ≤ 0xDBFF

def isLowSurrogate (u : UInt16) : Bool := 0xDC00 ≤ u && u ≤ 0xDFFF

/-- The characters of UTF-16 code units, a replacement character for a lone
surrogate. -/
def decodeUtf16 : List UInt16 → List Char
  | [] => []
  | [u] => [if isHighSurrogate u || isLowSurrogate u then Char.ofNat 0xFFFD else Char.ofNat u.toNat]
  | u :: v :: units =>
    if isHighSurrogate u && isLowSurrogate v then
      Char.ofNat (0x10000 + (u.toNat - 0xD800) * 0x400 + (v.toNat - 0xDC00)) :: decodeUtf16 units
    else
      (if isHighSurrogate u || isLowSurrogate u then Char.ofNat 0xFFFD else Char.ofNat u.toNat) ::
        decodeUtf16 (v :: units)

/-- A number's bytes, low bytes first. -/
def littleEndian : (width : Nat) → Nat → List UInt8
  | 0, _ => []
  | width + 1, n => n.toUInt8 :: littleEndian width (n / 256)

/-- A string record: a flag, the count of its code units, and the units. -/
structure BiffString extends BiffRecord where
  flag : UInt8
  units : List UInt16
  payload_eq : payload = flag :: (littleEndian 4 units.length ++ units.flatMap fun u => littleEndian 2 u.toNat)

def BiffString.text (s : BiffString) : List Char := decodeUtf16 s.units

/-- The records before the strings, the strings, and the records after. -/
structure XlsbTable where
  before : List BiffRecord
  entries : List BiffString
  after : List BiffRecord

namespace XlsbTable

variable (t : XlsbTable)

def records : List BiffRecord := t.before ++ (t.entries.map BiffString.toBiffRecord ++ t.after)

def bytes : List UInt8 := t.records.flatMap BiffRecord.bytes

def cost : Nat := (t.entries.map fun s => stringCost s.text).sum

end XlsbTable

/-! ## The estimate -/

theorem satAdd_sat (a b : Nat) : satAdd (min a U64_MAX) (min b U64_MAX) = min (a + b) U64_MAX := by
  unfold satAdd
  omega

theorem tableEstimate_le (binary : Bool) (bytes : List UInt8) : tableEstimate binary bytes ≤ U64_MAX := by
  have hparsed : satAdd (byteCount bytes) (entriesCost binary bytes) ≤ U64_MAX := satAdd_le _ _
  unfold tableEstimate
  cases declaredCount bytes with
  | none => exact hparsed
  | some declared => exact Nat.max_le.2 ⟨hparsed, Nat.min_le_right _ _⟩

/-- The estimate covers what the bytes and the flat charges pay for, and what
the declared count reserves. -/
theorem le_tableEstimate_iff {binary : Bool} {bytes : List UInt8} {charges : Nat}
    (hcharges : entriesCost binary bytes = min charges U64_MAX) {cost : Nat} :
    cost ≤ tableEstimate binary bytes ↔ cost ≤ U64_MAX ∧ (cost ≤ bytes.length + charges ∨
      ∃ declared, Declares (bytes.take SST_HEAD_SCAN) declared ∧ cost ≤ SHARED_STRING_SLOT * declared) := by
  have hparsed : satAdd (byteCount bytes) (entriesCost binary bytes) = min (bytes.length + charges) U64_MAX := by
    rw [hcharges, byteCount, satAdd_sat]
  constructor
  · intro h
    refine ⟨h.trans (tableEstimate_le binary bytes), ?_⟩
    unfold tableEstimate at h
    cases hdeclared : declaredCount bytes with
    | none =>
      rw [hdeclared, hparsed] at h
      exact .inl (h.trans (Nat.min_le_left _ _))
    | some declared =>
      rw [hdeclared, hparsed] at h
      rcases le_max_iff.1 h with h | h
      · exact .inl (h.trans (Nat.min_le_left _ _))
      · refine .inr ⟨declared, declaredUniqueCount_eq_some_iff.1 hdeclared, h.trans ?_⟩
        rw [Nat.mul_comm]
        exact Nat.min_le_left _ _
  · rintro ⟨hsmall, h⟩
    unfold tableEstimate
    rcases h with h | ⟨declared, hdeclares, h⟩
    · have hle : cost ≤ satAdd (byteCount bytes) (entriesCost binary bytes) := hparsed ▸ Nat.le_min.2 ⟨h, hsmall⟩
      cases declaredCount bytes with
      | none => exact hle
      | some declared => exact hle.trans (Nat.le_max_left _ _)
    · have hdeclared : declaredCount bytes = some declared := declaredUniqueCount_eq_some_iff.2 hdeclares
      rw [hdeclared]
      rw [Nat.mul_comm] at h
      exact le_max_iff.2 (.inr (Nat.le_min.2 ⟨h, hsmall⟩))

theorem XlsbTable.entriesCost_eq (t : XlsbTable) :
    entriesCost true t.bytes = min (SHARED_STRING_RECORD_COST * t.records.length) U64_MAX := by
  rw [entriesCost, if_pos rfl, bytes, RecordCounter.feed_records, satMul, Nat.mul_comm]

/-- A shared-string table of either kind. -/
inductive SharedTable where
  | xlsx (t : XlsxTable)
  | xlsb (t : XlsbTable)

namespace SharedTable

def binary : SharedTable → Bool
  | xlsx _ => false
  | xlsb _ => true

def bytes : SharedTable → List UInt8
  | xlsx t => t.bytes
  | xlsb t => t.bytes

/-- What the strings parsed out of the table hold. -/
def cost : SharedTable → Nat
  | xlsx t => t.cost
  | xlsb t => t.cost

/-- The cost is a `u64`; and in an xlsb table the bytes and the records pay for
the UTF-8 text, unless its bytes declare a count that does. -/
def Covered : SharedTable → Prop
  | xlsx t => t.cost ≤ U64_MAX
  | xlsb t => t.cost ≤ U64_MAX ∧ (t.cost ≤ t.bytes.length + SHARED_STRING_RECORD_COST * t.records.length ∨
      ∃ declared, Declares (t.bytes.take SST_HEAD_SCAN) declared ∧ t.cost ≤ SHARED_STRING_SLOT * declared)

end SharedTable

/-- The estimate of an accepted table is no less than its strings cost exactly
where it is covered. -/
theorem estimate_covers_iff (t : SharedTable) {reads : List ReadResult} {name : String} {limits : InflateLimits}
    {parsed : Nat} (hreads : delivered reads = t.bytes)
    (hparsed : scanSharedStrings reads name t.binary limits = .ok parsed) : t.cost ≤ parsed ↔ t.Covered := by
  have hestimate : parsed = tableEstimate t.binary t.bytes := by
    rw [scanSharedStrings_eq, hreads, tableVerdict] at hparsed
    split at hparsed
    · cases hparsed
    · split at hparsed
      · cases hparsed
      · exact (Except.ok.inj hparsed).symm
  rw [hestimate]
  cases t with
  | xlsb t => exact le_tableEstimate_iff t.entriesCost_eq
  | xlsx t =>
    have hcharges : entriesCost false t.bytes =
        min (SHARED_STRING_TAG_COST * t.bytes.countP (· = 0x3C)) U64_MAX := by
      rw [entriesCost, if_neg Bool.false_ne_true, satMul, Nat.mul_comm]
    exact (le_tableEstimate_iff hcharges).trans ⟨And.left, fun h => ⟨h, .inl t.cost_le⟩⟩

/-- A table that declares no count is charged its bytes and its entries. -/
theorem scan_undeclared {bytes : List UInt8} {name : String} {binary : Bool} {limits : InflateLimits}
    (hlimit : byteCount bytes ≤ limits.maxSharedStringsBytes) (hdeclared : declaredCount bytes = none) :
    scanSharedStrings [.ok bytes] name binary limits = .ok (satAdd (byteCount bytes) (entriesCost binary bytes)) := by
  rw [scanSharedStrings_eq, delivered_one, tableVerdict, if_neg (Nat.not_lt.2 hlimit), overDeclared, hdeclared,
    Option.filter_none, tableEstimate, hdeclared]

/-- `n` characters, each two bytes in UTF-16 and three in UTF-8. -/
def hanPayload (n : Nat) : List UInt8 :=
  0 :: (littleEndian 4 n ++ (List.replicate n 0x4E2D).flatMap fun u : UInt16 => littleEndian 2 u.toNat)

def hanString (n : Nat) (length : List UInt8) (hlength : LengthBytes 0 length (hanPayload n).length) : BiffString where
  type := [0x13]
  length := length
  payload := hanPayload n
  type_ok := .inl ⟨0x13, by decide, rfl⟩
  length_ok := hlength
  flag := 0
  units := List.replicate n 0x4E2D
  payload_eq := by rw [List.length_replicate, hanPayload]

/-- A string between the records that begin and end a table. -/
def oneStringTable (s : BiffString) : XlsbTable where
  before := [⟨[0x9F, 0x01], [0x08], littleEndian 4 1 ++ littleEndian 4 1, .inr ⟨0x9F, 0x01, by decide, rfl⟩,
    .last (.inl (by decide))⟩]
  entries := [s]
  after := [⟨[0xA0, 0x01], [0x00], [], .inr ⟨0xA0, 0x01, by decide, rfl⟩, .last (.inl (by decide))⟩]

/-- A length of two bytes. -/
theorem hanLength {n : Nat} (low high : UInt8)
    (hn : (hanPayload n).length = (low &&& 0x7F).toNat + 2 ^ 7 * (high &&& 0x7F).toNat)
    (hlow : low &&& 0x80 ≠ 0) (hhigh : high &&& 0x80 = 0) : LengthBytes 0 [low, high] (hanPayload n).length := by
  rw [hn]
  exact .more hlow (by decide) (.last (.inl hhigh))

/-- The longest such string that is charged what it costs. -/
def fullTable : XlsbTable :=
  oneStringTable (hanString 142 [0xA1, 0x02] (hanLength 0xA1 0x02 (by decide +kernel) (by decide) (by decide)))

theorem full_table_covered : fullTable.cost = 450 ∧
    scanSharedStrings [.ok fullTable.bytes] "xl/sharedStrings.bin" true .default = .ok 450 ∧ fullTable.cost ≤ 450 := by
  have hrecords : fullTable.records.length = 3 := by decide +kernel
  have hlen : fullTable.bytes.length = 306 := by decide +kernel
  have hlimit : byteCount fullTable.bytes ≤ InflateLimits.default.maxSharedStringsBytes := by
    rw [byteCount, hlen]
    decide
  have hscan := @scan_undeclared _ "xl/sharedStrings.bin" true _ hlimit (by decide +kernel)
  rw [fullTable.entriesCost_eq, hrecords, byteCount, hlen] at hscan
  have hcost : fullTable.cost = 450 := by decide +kernel
  have hcovered : (SharedTable.xlsb fullTable).Covered := by
    rw [SharedTable.Covered, hcost, hlen, hrecords]
    exact ⟨by decide, .inl (by decide)⟩
  exact ⟨hcost, hscan, (estimate_covers_iff (.xlsb fullTable) (delivered_one _) hscan).2 hcovered⟩

/-- A string of 150 such characters. -/
def wideTable : XlsbTable :=
  oneStringTable (hanString 150 [0xB1, 0x02] (hanLength 0xB1 0x02 (by decide +kernel) (by decide) (by decide)))

/-- The table is accepted at less than its one string holds. -/
theorem wide_table_uncovered : wideTable.cost = 474 ∧
    scanSharedStrings [.ok wideTable.bytes] "xl/sharedStrings.bin" true .default = .ok 466 := by
  have hrecords : wideTable.records.length = 3 := by decide +kernel
  have hlen : wideTable.bytes.length = 322 := by decide +kernel
  have hlimit : byteCount wideTable.bytes ≤ InflateLimits.default.maxSharedStringsBytes := by
    rw [byteCount, hlen]
    decide
  have hscan := @scan_undeclared _ "xl/sharedStrings.bin" true _ hlimit (by decide +kernel)
  rw [wideTable.entriesCost_eq, hrecords, byteCount, hlen] at hscan
  exact ⟨by decide +kernel, hscan⟩

end GrpcCalamine
