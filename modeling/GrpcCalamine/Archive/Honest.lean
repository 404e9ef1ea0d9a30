import GrpcCalamine.Archive.Order
import GrpcCalamine.Archive.CountGuard
/-!
# Honest tables

`Declares` says what the scan takes for a declared count, in any bytes
(`declaredUniqueCount_eq_some_iff`). An `HonestTable` is the text of a whole
table whose root declares as many strings as it has `si` elements. The count
check divides the bytes of a table by eight: an empty `si` is five bytes.
-/

namespace GrpcCalamine

open Search

/-! ## What any bytes declare -/

/-- The byte after `<sst` ends its name. -/
def endsName (after : UInt8) : Bool := after = 0x3E || after = 0x2F || isAsciiWhitespace after

/-- The first `<sst` of these bytes is a whole name with a `>` after it, and
the first place up to there that spells the attribute spells `v`. -/
def Declares (head : List UInt8) (v : Nat) : Prop :=
  ∃ i, position (ascii "<sst") head = some i ∧ (head[i + 4]?).any endsName = true ∧ 0x3E ∈ head.drop (i + 4) ∧
    FirstSpells (ascii "<sst" ++ upTo 0x3E (head.drop (i + 4))) (ascii "uniqueCount") 0 v

theorem declaredUniqueCount_eq_some_iff {head : List UInt8} {v : Nat} :
    declaredUniqueCount head = some v ↔ Declares head v := by
  rw [declaredUniqueCount_eq, Declares]
  cases position (ascii "<sst") head with
  | none =>
    constructor
    · intro h
      cases h
    · rintro ⟨i, hi, -⟩
      cases hi
  | some i =>
    have hname : (fun after : UInt8 => after = 0x3E || after = 0x2F || isAsciiWhitespace after) = endsName := rfl
    rw [Option.bind_some, hname]
    simp only [Option.some.injEq, exists_eq_left']
    by_cases htag : (head[i + 4]?).any endsName = true ∧ 0x3E ∈ head.drop (i + 4)
    · rw [if_pos htag, attrU64_eq_some_iff (by decide) uniqueCount_word]
      exact ⟨fun h => ⟨htag.1, htag.2, h⟩, fun h => h.2.2⟩
    · rw [if_neg htag]
      constructor
      · intro h
        cases h
      · rintro ⟨hends, hmem, -⟩
        exact absurd ⟨hends, hmem⟩ htag

/-- A table within its limit is malformed exactly when it declares more than an
eighth of its bytes. -/
theorem scan_malformed_iff {reads : List ReadResult} {name : String} {binary : Bool} {limits : InflateLimits}
    (hlimit : (delivered reads).length ≤ limits.maxSharedStringsBytes) :
    (∃ part detail, scanSharedStrings reads name binary limits = .error (.malformed part detail)) ↔
      ∃ v, Declares ((delivered reads).take SST_HEAD_SCAN) v ∧ (delivered reads).length < MIN_SI_BYTES * v := by
  have hcount := byteCount_of_le hlimit
  have heighth : ∀ v, (delivered reads).length / MIN_SI_BYTES < v ↔ (delivered reads).length < MIN_SI_BYTES * v := by
    intro v
    unfold MIN_SI_BYTES
    omega
  rw [scanSharedStrings_eq, tableVerdict, hcount, if_neg (Nat.not_lt.2 hlimit)]
  cases hover : overDeclared (delivered reads) with
  | some v =>
    have hfilter := Option.filter_eq_some_iff.1 hover
    have hdeclares := declaredUniqueCount_eq_some_iff.1 hfilter.1
    refine ⟨fun _ => ⟨v, hdeclares, (heighth v).1 ?_⟩, fun _ => ⟨_, _, rfl⟩⟩
    rw [← hcount]
    simpa using hfilter.2
  | none =>
    constructor
    · rintro ⟨part, detail, h⟩
      cases h
    rintro ⟨v, hdeclares, hlt⟩
    have hle := (overDeclared_eq_none_iff _).1 hover v (declaredUniqueCount_eq_some_iff.2 hdeclares)
    rw [hcount] at hle
    exact absurd ((heighth v).2 hlt) (Nat.not_lt.2 hle)

/-! ## The text of a whole table -/

/-- A tag of an element, up to its end. -/
structure StartTag where
  name : List UInt8
  attributes : List Attribute
  trail : List UInt8
  name_ok : name ≠ [] ∧ ∀ b ∈ name, isNameByte b = true
  trail_ok : ∀ b ∈ trail, isXmlSpace b = true
  distinct : (attributes.map Attribute.name).Nodup

def StartTag.bytes (tag : StartTag) : List UInt8 :=
  0x3C :: (tag.name ++ (tag.attributes.flatMap Attribute.bytes ++ tag.trail))

/-- What an element may contain. -/
inductive Content where
  | text (bytes : List UInt8) (h : 0x3C ∉ bytes)
  | cdata (body : List UInt8) (h : ¬ ascii "]]>" <:+: body)
  | misc (item : PrologItem)
  | empty (tag : StartTag)
  | element (tag : StartTag) (children : List Content)

mutual

def Content.bytes : Content → List UInt8
  | .text bytes _ => bytes
  | .cdata body _ => ascii "<![CDATA[" ++ body ++ ascii "]]>"
  | .misc item => item.bytes
  | .empty tag => tag.bytes ++ ascii "/>"
  | .element tag children => tag.bytes ++ (0x3E :: (allBytes children ++ (ascii "</" ++ tag.name ++ [0x3E])))

def Content.allBytes : List Content → List UInt8
  | [] => []
  | c :: content => c.bytes ++ allBytes content

end

def Content.isSi : Content → Bool
  | .empty tag | .element tag _ => tag.name = ascii "si"
  | _ => false

/-- An xlsx shared-string table whose root declares the number of its `si`
elements. -/
structure HonestTable extends SstHead where
  content : List Content
  closing : List UInt8
  misc : List PrologItem
  closing_ok : ∀ b ∈ closing, isXmlSpace b = true
  empty_ok : empty = true → content = []
  honest : toSstHead.declared = content.countP Content.isSi

namespace HonestTable

variable (t : HonestTable)

/-- The root's content and end tag, and what comes after. -/
def tail : List UInt8 :=
  (if t.empty then [] else Content.allBytes t.content ++ (ascii "</sst" ++ t.closing ++ [0x3E])) ++
    t.misc.flatMap PrologItem.bytes

def bytes : List UInt8 := t.toSstHead.bytes ++ t.tail

/-- How many strings it declares, and holds. -/
def siCount : Nat := t.content.countP Content.isSi

end HonestTable

def NotMalformed (answer : Except Rejected Nat) : Prop := ∀ part detail, answer ≠ .error (.malformed part detail)

/-- Where nothing before the root's count is mistaken for it, the table
declares that count, as a `u64`. -/
theorem HonestTable.declares_iff (t : HonestTable) (hclear : t.Clear)
    (hfits : t.toSstHead.bytes.length ≤ SST_HEAD_SCAN) (v : Nat) :
    Declares (t.bytes.take SST_HEAD_SCAN) v ↔ v = min t.siCount U64_MAX := by
  have hhead : t.bytes.take SST_HEAD_SCAN =
      t.toSstHead.bytes ++ t.tail.take (SST_HEAD_SCAN - t.toSstHead.bytes.length) := by
    rw [bytes, List.take_append, List.take_of_length_le hfits]
  have hdeclared := (t.declaredUniqueCount_eq_iff (t.tail.take (SST_HEAD_SCAN - t.toSstHead.bytes.length))).2
    (.inl hclear)
  rw [← declaredUniqueCount_eq_some_iff, hhead, hdeclared, t.honest, Option.some.injEq, eq_comm, siCount]

/-! ## Strings with an end tag, and without -/

/-- A string with an end tag is at least nine bytes, text or no text. -/
theorem element_length_ge {tag : StartTag} (hname : tag.name = ascii "si") (children : List Content) :
    MIN_SI_BYTES ≤ (Content.element tag children).bytes.length := by
  have hlen : tag.name.length = 2 := by rw [hname]; rfl
  have hend : (ascii "</").length = 2 := rfl
  simp only [Content.bytes, StartTag.bytes, List.length_append, List.length_cons, List.length_nil, hlen, hend]
  unfold MIN_SI_BYTES
  omega

theorem siCount_mul_le {content : List Content} (hclosed : ∀ tag, .empty tag ∈ content → tag.name ≠ ascii "si") :
    MIN_SI_BYTES * content.countP Content.isSi ≤ (Content.allBytes content).length := by
  induction content with
  | nil => exact Nat.zero_le _
  | cons c content ih =>
    have hrest := ih fun tag htag => hclosed tag (List.mem_cons_of_mem c htag)
    have hone : (if c.isSi then MIN_SI_BYTES else 0) ≤ c.bytes.length := by
      split
      · rename_i hsi
        cases c with
        | text | cdata | misc => cases hsi
        | empty tag => exact absurd (of_decide_eq_true hsi) (hclosed tag List.mem_cons_self)
        | element tag children => exact element_length_ge (of_decide_eq_true hsi) children
      · exact Nat.zero_le _
    rw [List.countP_cons, Content.allBytes, List.length_append, Nat.mul_add, Nat.add_comm]
    apply Nat.add_le_add ?_ hrest
    split at hone
    · rename_i hsi
      rw [if_pos hsi, Nat.mul_one]
      exact hone
    · rename_i hsi
      rw [if_neg hsi]
      exact hone

/-- A table none of whose strings is an empty-element tag has the bytes the
check asks for. -/
theorem HonestTable.room_of_end_tags (t : HonestTable)
    (hclosed : ∀ tag, .empty tag ∈ t.content → tag.name ≠ ascii "si") :
    MIN_SI_BYTES * t.siCount ≤ t.bytes.length := by
  have hle := siCount_mul_le hclosed
  cases hempty : t.empty with
  | true => rw [siCount, t.empty_ok hempty]; exact Nat.zero_le _
  | false =>
    have hlen : (Content.allBytes t.content).length ≤ t.bytes.length := by
      simp only [bytes, tail, hempty, Bool.false_eq_true, if_false, List.length_append]
      omega
    exact hle.trans hlen

/-! ## What is spared -/

/-- An honest table is spared exactly where the count the scan takes, which is
the root's unless something is mistaken for it, is no more than an eighth of
its bytes, as the root's is where no string is an empty-element tag. -/
theorem honest_table_spared_iff (t : HonestTable) {reads : List ReadResult} {name : String} {limits : InflateLimits}
    (hreads : delivered reads = t.bytes) (hlimit : t.bytes.length ≤ limits.maxSharedStringsBytes) :
    (NotMalformed (scanSharedStrings reads name false limits) ↔
      ∀ v, Declares (t.bytes.take SST_HEAD_SCAN) v → MIN_SI_BYTES * v ≤ t.bytes.length) ∧
    (t.Clear → t.toSstHead.bytes.length ≤ SST_HEAD_SCAN →
      (NotMalformed (scanSharedStrings reads name false limits) ↔ MIN_SI_BYTES * t.siCount ≤ t.bytes.length)) ∧
    ((∀ tag, .empty tag ∈ t.content → tag.name ≠ ascii "si") → MIN_SI_BYTES * t.siCount ≤ t.bytes.length) := by
  have hspared : NotMalformed (scanSharedStrings reads name false limits) ↔
      ∀ v, Declares (t.bytes.take SST_HEAD_SCAN) v → MIN_SI_BYTES * v ≤ t.bytes.length := by
    have hmalformed := @scan_malformed_iff _ name false _ (hreads.symm ▸ hlimit)
    rw [hreads] at hmalformed
    rw [← not_iff_not]
    simpa [NotMalformed] using hmalformed
  refine ⟨hspared, fun hclear hfits => hspared.trans ?_, t.room_of_end_tags⟩
  have hsmall := hlimit.trans limits.sharedStrings_le
  constructor
  · intro h
    have hle := h _ ((t.declares_iff hclear hfits _).2 rfl)
    unfold MIN_SI_BYTES U64_MAX at *
    omega
  · intro h v hv
    rw [(t.declares_iff hclear hfits v).1 hv]
    exact (Nat.mul_le_mul_left _ (Nat.min_le_left _ _)).trans h

/-! ## Two tables -/

theorem nil_spaces : ∀ b ∈ ([] : List UInt8), isXmlSpace b = true := List.forall_mem_nil _

theorem no_spaces : (∀ b ∈ ([] : List UInt8), isXmlSpace b = true) ∧ ∀ b ∈ ([] : List UInt8), isXmlSpace b = true :=
  ⟨nil_spaces, nil_spaces⟩

theorem spelled {p : UInt8 → Bool} {bytes : List UInt8} (hne : bytes ≠ []) (h : bytes.all p = true) :
    bytes ≠ [] ∧ ∀ b ∈ bytes, p b = true :=
  ⟨hne, List.all_eq_true.1 h⟩

theorem blank_spaces : ascii " " ≠ [] ∧ ∀ b ∈ ascii " ", isXmlSpace b = true := spelled (by decide) (by decide)
theorem si_name : ascii "si" ≠ [] ∧ ∀ b ∈ ascii "si", isNameByte b = true := spelled (by decide) (by decide)
theorem xmlns_name : ascii "xmlns" ≠ [] ∧ ∀ b ∈ ascii "xmlns", isNameByte b = true := spelled (by decide) (by decide)
theorem uniqueCount_name : ascii "uniqueCount" ≠ [] ∧ ∀ b ∈ ascii "uniqueCount", isNameByte b = true :=
  spelled (by decide) (by decide)

/-- What a pair of double quotes can hold. -/
theorem quotable {value : List UInt8} (h : value.all (fun b => b != 0x22 && b != 0x3C) = true) :
    ∀ b ∈ value, b ≠ 0x22 ∧ b ≠ 0x3C := by
  intro b hb
  simpa using List.all_eq_true.1 h b hb

theorem digits_quotable {value : List UInt8} (h : value.all isAsciiDigit = true) :
    ∀ b ∈ value, b ≠ 0x22 ∧ b ≠ 0x3C := by
  intro b hb
  have hdigit := List.all_eq_true.1 h b hb
  constructor
  · rintro rfl
    cases hdigit
  · rintro rfl
    cases hdigit

theorem double_quoted : (0x22 : UInt8) = 0x22 ∨ (0x22 : UInt8) = 0x27 := .inl rfl

/-- An attribute after one blank, in double quotes. -/
def Attribute.plain (name value : List UInt8) (hname : name ≠ [] ∧ ∀ b ∈ name, isNameByte b = true)
    (hvalue : ∀ b ∈ value, b ≠ 0x22 ∧ b ≠ 0x3C) : Attribute :=
  ⟨ascii " ", name, [], [], 0x22, value, blank_spaces, hname, no_spaces, double_quoted, hvalue⟩

/-- A tag without attributes. -/
def StartTag.bare (name : List UInt8) (hname : name ≠ [] ∧ ∀ b ∈ name, isNameByte b = true) : StartTag :=
  ⟨name, [], [], hname, nil_spaces, List.nodup_nil⟩

def siTag : StartTag := .bare (ascii "si") si_name

theorem mainNamespace_quotable : ∀ b ∈ ascii "http://schemas.openxmlformats.org/spreadsheetml/2006/main",
    b ≠ 0x22 ∧ b ≠ 0x3C :=
  quotable (by decide)

/-- A root that declares `count` strings. -/
def mainHead (count : List UInt8) (hne : count ≠ []) (hdigits : count.all isAsciiDigit = true) : SstHead where
  prolog := []
  before := [.plain (ascii "xmlns") (ascii "http://schemas.openxmlformats.org/spreadsheetml/2006/main") xmlns_name
    mainNamespace_quotable]
  count := .plain (ascii "uniqueCount") count uniqueCount_name (digits_quotable hdigits)
  after := []
  trail := []
  empty := false
  count_name := rfl
  count_digits := spelled hne hdigits
  trail_ok := nil_spaces
  distinct := (by decide : [ascii "xmlns", ascii "uniqueCount"].Nodup)

/-- A table of `n` strings `<si/>`. -/
def emptyTable (n : Nat) (count : List UInt8) (hne : count ≠ []) (hdigits : count.all isAsciiDigit = true)
    (honest : (mainHead count hne hdigits).declared = (List.replicate n (Content.empty siTag)).countP Content.isSi) :
    HonestTable where
  toSstHead := mainHead count hne hdigits
  content := List.replicate n (.empty siTag)
  closing := []
  misc := []
  closing_ok := nil_spaces
  empty_ok := fun h => absurd (show false = true from h) Bool.false_ne_true
  honest := honest

/-- No more than an eighth of the bytes they come to. -/
def fewEmptyStrings : HonestTable := emptyTable 31 (ascii "31") (by decide) (by decide) (by decide +kernel)

theorem few_empty_strings_spared : fewEmptyStrings.siCount = 31 ∧ fewEmptyStrings.bytes.length = 249 ∧
    NotMalformed (scanSharedStrings [.ok fewEmptyStrings.bytes] "xl/sharedStrings.xml" false .default) := by
  have hlimit : fewEmptyStrings.bytes.length ≤ InflateLimits.default.maxSharedStringsBytes := by decide +kernel
  refine ⟨by decide +kernel, by decide +kernel,
    (honest_table_spared_iff fewEmptyStrings (delivered_one _) hlimit).1.2 fun v hv => ?_⟩
  have hcount : declaredUniqueCount (fewEmptyStrings.bytes.take SST_HEAD_SCAN) = some 31 := by decide +kernel
  rw [declaredUniqueCount_eq_some_iff.2 hv] at hcount
  cases hcount
  decide +kernel

/-- Nine more. -/
def emptyStrings : HonestTable := emptyTable 40 (ascii "40") (by decide) (by decide) (by decide +kernel)

/-- Forty empty strings are forty strings, and are refused. -/
theorem empty_strings_malformed :
    emptyStrings.siCount = 40 ∧ emptyStrings.bytes.length ≤ InflateLimits.default.maxSharedStringsBytes ∧
      ¬ NotMalformed (scanSharedStrings [.ok emptyStrings.bytes] "xl/sharedStrings.xml" false .default) := by
  have hlen : emptyStrings.bytes.length < MIN_SI_BYTES * 40 := by decide +kernel
  have hlimit : emptyStrings.bytes.length ≤ InflateLimits.default.maxSharedStringsBytes :=
    hlen.le.trans (by decide)
  have hcount : declaredUniqueCount (emptyStrings.bytes.take SST_HEAD_SCAN) = some 40 := by decide +kernel
  refine ⟨by decide +kernel, hlimit, fun h => ?_⟩
  rw [← delivered_one emptyStrings.bytes] at hlen hlimit hcount
  have hmalformed := @scan_malformed_iff _ "xl/sharedStrings.xml" false _ hlimit
  obtain ⟨part, detail, hscan⟩ := hmalformed.2 ⟨40, declaredUniqueCount_eq_some_iff.1 hcount, hlen⟩
  exact h part detail hscan

end GrpcCalamine
