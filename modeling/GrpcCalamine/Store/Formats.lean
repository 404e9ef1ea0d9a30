import GrpcCalamine.Convert
import Mathlib.Data.List.DropRight
/-!
# The formats a store accepts

`FormatSet` of `src/store.rs`: a set of formats as the bits of a byte, with the
list it is configured by. A list is read for the formats it names and nothing
else (`fromStr_ok_iff`), and what is printed is read back
(`fromStr_display`).
-/

namespace GrpcCalamine

/-! ## Text -/

/-- `char::is_whitespace`: Unicode's `White_Space`. -/
def isWhitespace (c : Char) : Bool :=
  let n := c.toNat
  (9 ≤ n && n ≤ 13) || n == 0x20 || n == 0x85 || n == 0xA0 || n == 0x1680 || (0x2000 ≤ n && n ≤ 0x200A) ||
    n == 0x2028 || n == 0x2029 || n == 0x202F || n == 0x205F || n == 0x3000

/-- `str::trim`. -/
def trim (text : List Char) : List Char := (text.dropWhile isWhitespace).rdropWhile isWhitespace

/-- `str::eq_ignore_ascii_case`. -/
def eqIgnoreAsciiCase (a b : List Char) : Bool := a.map Char.toLower = b.map Char.toLower

/-! ## Sets of formats -/

open Pb (WorkbookFormat)

namespace FormatSet

def bit : WorkbookFormat → BitVec 8
  | .unspecified => 0
  | .xls => 1
  | .xlsx => 2
  | .xlsb => 4
  | .ods => 8

/-- The name a format is configured by. -/
def name : WorkbookFormat → String
  | .unspecified => "unspecified"
  | .xls => "xls"
  | .xlsx => "xlsx"
  | .xlsb => "xlsb"
  | .ods => "ods"

/-- The order calamine's `open_workbook_auto_from_rs` tries formats in. -/
def DETECTION_ORDER : List WorkbookFormat := [.xls, .xlsx, .xlsb, .ods]

/-- The order formats are listed in. -/
def LISTED_ORDER : List WorkbookFormat := [.xlsx, .xlsb, .xls, .ods]

end FormatSet

/-- The workbook formats a store accepts: one at least, and only known ones. -/
structure FormatSet where
  bits : BitVec 8
  some_known : bits ≠ 0
  all_known : bits &&& 0xF0 = 0
  deriving DecidableEq

namespace FormatSet

/-- Every format calamine reads. -/
def ALL : FormatSet := ⟨0b1111, by decide, by decide⟩

/-- Whether workbooks of `format` are accepted. -/
def accepts (set : FormatSet) (format : WorkbookFormat) : Bool := set.bits &&& bit format ≠ 0

/-- `list.split(',').map(str::trim).filter(|w| !w.is_empty())`. -/
def words (list : String) : List (List Char) := ((list.toList.splitOn ',').map trim).filter (· ≠ [])

/-- The format a word names. -/
def formatOf (word : List Char) : Option WorkbookFormat :=
  LISTED_ORDER.find? fun format => eqIgnoreAsciiCase (name format).toList word

def unknownFormat (fmt : Fmt) (word : List Char) : String :=
  s!"unknown format {fmt.debug (String.ofList word)}; list any of xlsx, xlsb, xls and ods"

def noFormat : String := "no format is listed; list any of xlsx, xlsb, xls and ods"

/-- The bits of known formats alone. -/
abbrev Known := { bits : BitVec 8 // bits &&& 0xF0 = 0 }

theorem known_or (set : Known) (format : WorkbookFormat) : (set.1 ||| bit format) &&& 0xF0 = 0 := by
  rw [BitVec.and_or_distrib_right, set.2]
  cases format <;> decide

/-- The loop of `from_str`. -/
def fromWords (fmt : Fmt) : Known → List (List Char) → Except String Known
  | set, [] => .ok set
  | set, word :: words =>
    match formatOf word with
    | some format => fromWords fmt ⟨set.1 ||| bit format, known_or set format⟩ words
    | none => .error (unknownFormat fmt word)

/-- Parse a comma-separated list of formats, in any case and order. -/
def fromStr (fmt : Fmt) (list : String) : Except String FormatSet := do
  let set ← fromWords fmt ⟨0, by decide⟩ (words list)
  if h : set.1 = 0 then .error noFormat else .ok ⟨set.1, h, set.2⟩

def display (set : FormatSet) : String := String.intercalate "," ((LISTED_ORDER.filter set.accepts).map name)

/-! ## Sets by what they accept -/

theorem formatOf_listed {word : List Char} {format : WorkbookFormat} (h : formatOf word = some format) :
    format ∈ LISTED_ORDER :=
  List.mem_of_find?_eq_some h

/-- One format's bit says nothing about another's. -/
theorem bit_and_bit {f g : WorkbookFormat} (h : g ∈ LISTED_ORDER) : bit f &&& bit g ≠ 0 ↔ f = g := by
  revert g
  cases f <;> decide

/-- A set with one more format. -/
theorem or_bit_and {bits : BitVec 8} {f g : WorkbookFormat} (h : g ∈ LISTED_ORDER) :
    (bits ||| bit f) &&& bit g ≠ 0 ↔ bits &&& bit g ≠ 0 ∨ f = g := by
  rw [BitVec.and_or_distrib_right, ← bit_and_bit h, ne_eq, ← not_and_or]
  exact not_congr BitVec.or_eq_zero_iff

/-- The bits of the formats that `p` holds of. -/
def bitsOf (p : WorkbookFormat → Bool) : BitVec 8 :=
  LISTED_ORDER.foldl (fun bits format => if p format then bits ||| bit format else bits) 0

theorem bitsOf_known : ∀ bits : BitVec 8, bits &&& 0xF0 = 0 → bitsOf (fun format => bits &&& bit format ≠ 0) = bits := by
  decide

theorem bitsOf_accepts (set : FormatSet) : bitsOf set.accepts = set.bits := bitsOf_known set.bits set.all_known

/-- Two sets are one if they accept the same formats. -/
theorem ext_accepts {a b : FormatSet} (h : ∀ f ∈ LISTED_ORDER, a.accepts f = b.accepts f) : a = b := by
  have hbits : a.bits = b.bits := by
    rw [← bitsOf_accepts, ← bitsOf_accepts]
    exact List.foldl_ext _ _ _ fun bits f hf => by rw [h f hf]
  obtain ⟨a, ha, ha'⟩ := a
  obtain rfl := hbits
  rfl

/-! ## Reading a list -/

/-- The word is the format's name, in some case. -/
def Names (word : List Char) (format : WorkbookFormat) : Prop :=
  format ∈ LISTED_ORDER ∧ eqIgnoreAsciiCase (name format).toList word = true

theorem Names.unique {word : List Char} {f g : WorkbookFormat} (hf : Names word f) (hg : Names word g) : f = g := by
  have hsame : (name f).toList.map Char.toLower = (name g).toList.map Char.toLower :=
    (of_decide_eq_true hf.2).trans (of_decide_eq_true hg.2).symm
  revert hsame
  cases f <;> cases g <;> decide

theorem formatOf_eq_some_iff {word : List Char} {format : WorkbookFormat} :
    formatOf word = some format ↔ Names word format := by
  constructor
  · intro h
    exact ⟨formatOf_listed h, List.find?_some (p := fun f => eqIgnoreAsciiCase (name f).toList word) h⟩
  · intro h
    cases hfound : formatOf word with
    | none => exact absurd h.2 (by simpa using List.find?_eq_none.1 hfound format h.1)
    | some f =>
      have hf : Names word f :=
        ⟨formatOf_listed hfound, List.find?_some (p := fun f => eqIgnoreAsciiCase (name f).toList word) hfound⟩
      rw [hf.unique h]

theorem formatOf_eq_none_iff {word : List Char} : formatOf word = none ↔ ∀ format, ¬ Names word format := by
  simp only [← formatOf_eq_some_iff, Option.eq_none_iff_forall_ne_some, ne_eq]

/-- The loop goes through if every word names a format, and adds those
formats. -/
theorem fromWords_ok {fmt : Fmt} {set set' : Known} {words : List (List Char)}
    (h : fromWords fmt set words = .ok set') : (∀ word ∈ words, formatOf word ≠ none) ∧
      set'.1 = (words.filterMap formatOf).foldl (fun bits format => bits ||| bit format) set.1 := by
  induction words generalizing set with
  | nil =>
    cases h
    exact ⟨nofun, rfl⟩
  | cons word words ih =>
    rw [fromWords] at h
    cases hword : formatOf word with
    | none =>
      rw [hword] at h
      cases h
    | some format =>
      rw [hword] at h
      obtain ⟨hall, hbits⟩ := ih h
      refine ⟨?_, ?_⟩
      · intro w hw
        rcases List.mem_cons.1 hw with rfl | hw
        · simp [hword]
        · exact hall w hw
      · rw [hbits, List.filterMap_cons_some hword]
        rfl

/-- The loop stops at the first word that names none. -/
theorem fromWords_error {fmt : Fmt} {set : Known} {words : List (List Char)} {e : String}
    (h : fromWords fmt set words = .error e) : ∃ before word after, words = before ++ word :: after ∧
      (∀ w ∈ before, formatOf w ≠ none) ∧ formatOf word = none ∧ e = unknownFormat fmt word := by
  induction words generalizing set with
  | nil => cases h
  | cons word words ih =>
    rw [fromWords] at h
    cases hword : formatOf word with
    | none =>
      rw [hword] at h
      cases h
      exact ⟨[], word, words, rfl, nofun, hword, rfl⟩
    | some format =>
      rw [hword] at h
      obtain ⟨before, w, after, rfl, hbefore, hw, he⟩ := ih h
      refine ⟨word :: before, w, after, rfl, ?_, hw, he⟩
      intro v hv
      rcases List.mem_cons.1 hv with rfl | hv
      · simp [hword]
      · exact hbefore v hv

/-- The first word that names no format. -/
theorem find_unnamed {words before after : List (List Char)} {word : List Char} (hwords : words = before ++ word :: after)
    (hbefore : ∀ w ∈ before, formatOf w ≠ none) (hword : formatOf word = none) :
    words.find? (fun w => (formatOf w).isNone) = some word := by
  have hskip : before.find? (fun w => (formatOf w).isNone) = none := by
    rw [List.find?_eq_none]
    intro w hw
    simpa using hbefore w hw
  rw [hwords, List.find?_append, hskip, List.find?_cons_of_pos (by simp [hword])]
  rfl

/-- What is accepted after the loop was accepted before it, or is named. -/
theorem foldl_bit_and {g : WorkbookFormat} (hg : g ∈ LISTED_ORDER) (formats : List WorkbookFormat) (bits : BitVec 8) :
    formats.foldl (fun bits format => bits ||| bit format) bits &&& bit g ≠ 0 ↔ bits &&& bit g ≠ 0 ∨ g ∈ formats := by
  induction formats generalizing bits with
  | nil => simp
  | cons f formats ih =>
    rw [List.foldl_cons, ih, or_bit_and hg, List.mem_cons, or_assoc, @eq_comm _ f g]

/-- `set` accepts what the words name. -/
def AcceptsNamed (set : FormatSet) (words : List (List Char)) : Prop :=
  ∀ format ∈ LISTED_ORDER, set.accepts format = true ↔ ∃ word ∈ words, Names word format

/-- What reading a list comes to. -/
theorem fromStr_cases (fmt : Fmt) (list : String) :
    (∃ set, fromStr fmt list = .ok set ∧ words list ≠ [] ∧ (∀ word ∈ words list, formatOf word ≠ none) ∧
      set.AcceptsNamed (words list)) ∨
    (fromStr fmt list = .error noFormat ∧ words list = []) ∨
    ∃ before word after, fromStr fmt list = .error (unknownFormat fmt word) ∧
      words list = before ++ word :: after ∧ (∀ w ∈ before, formatOf w ≠ none) ∧ formatOf word = none := by
  cases hwords : fromWords fmt ⟨0, by decide⟩ (words list) with
  | error e =>
    obtain ⟨before, word, after, hlist, hbefore, hword, rfl⟩ := fromWords_error hwords
    refine .inr (.inr ⟨before, word, after, ?_, hlist, hbefore, hword⟩)
    rw [fromStr, hwords]
    rfl
  | ok set =>
    obtain ⟨hall, hbits⟩ := fromWords_ok hwords
    have haccepts : ∀ format ∈ LISTED_ORDER, set.1 &&& bit format ≠ 0 ↔ ∃ word ∈ words list, Names word format := by
      intro format hformat
      rw [hbits, foldl_bit_and hformat]
      simp [List.mem_filterMap, formatOf_eq_some_iff]
    have hstr : fromStr fmt list = if h : set.1 = 0 then .error noFormat else .ok ⟨set.1, h, set.2⟩ := by
      rw [fromStr, hwords]
      rfl
    by_cases hzero : set.1 = 0
    · rw [dif_pos hzero] at hstr
      refine .inr (.inl ⟨hstr, ?_⟩)
      -- a word would have named a format, and left its bit
      rw [List.eq_nil_iff_forall_not_mem]
      intro word hword
      obtain ⟨format, hformat⟩ := Option.ne_none_iff_exists'.1 (hall word hword)
      have hnames := formatOf_eq_some_iff.1 hformat
      have hbit := (haccepts format hnames.1).2 ⟨word, hword, hnames⟩
      rw [hzero] at hbit
      simp at hbit
    · rw [dif_neg hzero] at hstr
      refine .inl ⟨_, hstr, ?_, hall, ?_⟩
      · intro hnone
        rw [hnone] at hbits
        exact hzero hbits
      · intro format hformat
        simpa [accepts] using haccepts format hformat

/-! ## Printing one -/

/-- A name is one word, as it stands. -/
theorem name_word (format : WorkbookFormat) :
    ',' ∉ (name format).toList ∧ trim (name format).toList = (name format).toList ∧ (name format).toList ≠ [] := by
  cases format <;> decide

theorem names_name {f g : WorkbookFormat} (hf : f ∈ LISTED_ORDER) : Names (name f).toList g ↔ g = f := by
  have hself : Names (name f).toList f := ⟨hf, decide_eq_true rfl⟩
  constructor
  · intro hg
    exact hg.unique hself
  · rintro rfl
    exact hself

theorem listed_ne_nil (set : FormatSet) : LISTED_ORDER.filter set.accepts ≠ [] := by
  intro hnone
  have hbits := bitsOf_accepts set
  rw [List.filter_eq_nil_iff] at hnone
  have hzero : bitsOf set.accepts = bitsOf fun _ => false :=
    List.foldl_ext _ _ _ fun bits f hf => by rw [eq_false_of_ne_true (hnone f hf)]
  exact set.some_known (hbits.symm.trans hzero)

/-- The words of a printed set are the names of what it accepts. -/
theorem words_display (set : FormatSet) :
    words set.display = (LISTED_ORDER.filter set.accepts).map fun format => (name format).toList := by
  have hwords : ∀ formats : List WorkbookFormat,
      (((formats.map fun format => (name format).toList)).map trim).filter (· ≠ []) =
        formats.map fun format => (name format).toList := by
    intro formats
    induction formats with
    | nil => rfl
    | cons f formats ih =>
      obtain ⟨-, htrim, hne⟩ := name_word f
      rw [List.map_cons, List.map_cons, htrim, List.filter_cons_of_pos (by simpa using hne), ih]
  have hcomma : ∀ l ∈ (LISTED_ORDER.filter set.accepts).map fun format => (name format).toList, ',' ∉ l := by
    intro l hl
    obtain ⟨format, -, rfl⟩ := List.mem_map.1 hl
    exact (name_word format).1
  have hsplit := List.splitOn_intercalate ',' hcomma (by simpa using listed_ne_nil set)
  rw [words, display, String.toList_intercalate, List.map_map]
  show (List.map trim (List.splitOn ',' ([','].intercalate
    ((LISTED_ORDER.filter set.accepts).map fun format => (name format).toList)))).filter _ = _
  rw [hsplit]
  exact hwords _

/-- A printed set is read back. -/
theorem fromStr_display (fmt : Fmt) (set : FormatSet) : fromStr fmt set.display = .ok set := by
  have hwords := words_display set
  have hnamed : ∀ format, (∃ word ∈ words set.display, Names word format) ↔
      format ∈ LISTED_ORDER ∧ set.accepts format = true := by
    intro format
    rw [hwords, ← List.mem_filter]
    constructor
    · rintro ⟨word, hword, hnames⟩
      obtain ⟨f, hf, rfl⟩ := List.mem_map.1 hword
      rwa [(names_name (List.mem_of_mem_filter hf)).1 hnames]
    · intro hformat
      exact ⟨_, List.mem_map_of_mem hformat, (names_name (List.mem_of_mem_filter hformat)).2 rfl⟩
  rcases fromStr_cases fmt set.display with
    ⟨set', hok, -, -, haccepts⟩ | ⟨-, hnone⟩ | ⟨before, word, after, -, hlist, -, hno⟩
  · rw [hok]
    congr 1
    apply ext_accepts
    intro format hformat
    rw [Bool.eq_iff_iff, haccepts format hformat, hnamed]
    exact and_iff_right hformat
  · rw [hwords, List.map_eq_nil_iff] at hnone
    exact absurd hnone (listed_ne_nil set)
  · have hword : word ∈ words set.display := by simp [hlist]
    rw [hwords] at hword
    obtain ⟨f, hf, rfl⟩ := List.mem_map.1 hword
    exact absurd ((names_name (List.mem_of_mem_filter hf)).2 rfl) (formatOf_eq_none_iff.1 hno f)

/-- A configured list is read for the formats its words name, in any case and
order, as often as they come and with blanks and empty words between them; it is
refused with the first word that names none, or if it has no word at all; and a
set that is printed is read back as it was. -/
theorem format_lists (fmt : Fmt) :
    (∀ list set, fromStr fmt list = .ok set ↔
        words list ≠ [] ∧ (∀ word ∈ words list, ∃ format, Names word format) ∧ set.AcceptsNamed (words list)) ∧
      (∀ list e, fromStr fmt list = .error e ↔
        (words list = [] ∧ e = noFormat) ∨
          ∃ before word after, words list = before ++ word :: after ∧ (∀ w ∈ before, ∃ format, Names w format) ∧
            (∀ format, ¬ Names word format) ∧ e = unknownFormat fmt word) ∧
      ∀ set : FormatSet, fromStr fmt set.display = .ok set := by
  have hnamed : ∀ word, formatOf word ≠ none ↔ ∃ format, Names word format := by
    intro word
    rw [ne_eq, formatOf_eq_none_iff, not_forall_not]
  refine ⟨?_, ?_, fromStr_display fmt⟩
  · intro list set
    rcases fromStr_cases fmt list with
      ⟨set', hok, hne, hall, haccepts⟩ | ⟨herror, hnil⟩ | ⟨before, word, after, herror, hlist, -, hword⟩
    · rw [hok]
      constructor
      · intro hset
        cases hset
        exact ⟨hne, fun word hword => (hnamed word).1 (hall word hword), haccepts⟩
      · rintro ⟨-, -, hset⟩
        congr 1
        apply ext_accepts
        intro format hformat
        rw [Bool.eq_iff_iff, haccepts format hformat, hset format hformat]
    · rw [herror]
      exact ⟨nofun, fun h => absurd hnil h.1⟩
    · rw [herror]
      refine ⟨nofun, fun h => ?_⟩
      exact absurd hword ((hnamed word).2 (h.2.1 word (by simp [hlist])))
  · intro list e
    rcases fromStr_cases fmt list with
      ⟨set', hok, hne, hall, -⟩ | ⟨herror, hnil⟩ | ⟨before, word, after, herror, hlist, hbefore, hword⟩
    · rw [hok]
      refine ⟨nofun, ?_⟩
      rintro (⟨hnil, -⟩ | ⟨before, word, after, hlist, -, hword, -⟩)
      · exact absurd hnil hne
      · exact absurd (formatOf_eq_none_iff.2 hword) (hall word (by simp [hlist]))
    · rw [herror]
      constructor
      · intro h
        cases h
        exact .inl ⟨hnil, rfl⟩
      · rintro (⟨-, rfl⟩ | ⟨before, word, after, hlist, -⟩)
        · rfl
        · rw [hnil] at hlist
          simp at hlist
    · rw [herror]
      constructor
      · intro h
        cases h
        exact .inr ⟨before, word, after, hlist, fun w hw => (hnamed w).1 (hbefore w hw), formatOf_eq_none_iff.1 hword, rfl⟩
      · rintro (⟨hnil, -⟩ | ⟨before', word', after', hlist', hbefore', hword', rfl⟩)
        · rw [hnil] at hlist
          simp at hlist
        · -- both are the first word that names no format
          have hthis := find_unnamed hlist hbefore hword
          have hthat := find_unnamed hlist' (fun w hw => (hnamed w).2 (hbefore' w hw)) (formatOf_eq_none_iff.2 hword')
          rw [hthis, Option.some.injEq] at hthat
          rw [hthat]

example : (fromStr ⟨fun _ => true⟩ " XLSX ,, xls").toOption.map display = some "xlsx,xls" := by decide +kernel

end FormatSet

end GrpcCalamine
