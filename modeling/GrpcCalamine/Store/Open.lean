import GrpcCalamine.Archive.Inspect
import GrpcCalamine.Service.UploadGrammar
import GrpcCalamine.Service.Bodies
import GrpcCalamine.Store.Admission
import GrpcCalamine.Store.Formats
import GrpcCalamine.Store.Handles
/-!
# Opening a workbook

`WorkbookStore::open` of `src/store.rs`: what is refused before calamine sees
the bytes, the room that is taken for the parse, and the entry made of what
calamine reads. calamine's own part is a parameter (`Opener`), and so is what
the zip reader makes of the bytes.
-/

namespace GrpcCalamine

namespace Calamine

/-- What a reader that was just opened tells of its workbook. -/
structure Opened where
  workbookProperties : Except Error WorkbookProperties
  sheetsMetadata : List Sheet
  definedNames : List (String × String)
  has1904Epoch : Bool
  declaredTables : Except String (List DeclaredTableMetadata)
  numberFormats : List NumberFormat

/-- `open_workbook_from_rs` for each format, and
`open_workbook_auto_from_rs`. -/
structure Opener where
  fromRs : SheetsKind → List UInt8 → Except String Opened
  auto : List UInt8 → Except Error (SheetsKind × Opened)

end Calamine

open Pb (WorkbookFormat CalamineErrorKind)

def SheetsKind.format : SheetsKind → WorkbookFormat
  | xls => .xls
  | xlsx => .xlsx
  | xlsb => .xlsb
  | ods => .ods

/-- A probing reader: which it is, and what it tells. -/
abbrev Probe := SheetsKind × Calamine.Opened

/-- Why `WorkbookStore::open` did not open a workbook. -/
inductive StoreError where
  | unreadable (e : Pb.CalamineError)
  | limit (e : LimitExceeded)
  | malformed (part detail : String)
  | formatRefused (format : WorkbookFormat) (accepted : FormatSet)
  | noAcceptedFormat (accepted : FormatSet)

def StoreError.ofRejected : Rejected → StoreError
  | .limit e => .limit e
  | .malformed part detail => .malformed part detail

/-- What one reader of the workbook holds beyond the upload. -/
def Inflated.readerBytes (inflated : Inflated) : Nat := satAdd inflated.pictureBytes inflated.sharedStringsBytes

/-- What the store keeps of a workbook, next to what it is charged for. -/
structure WorkbookEntry where
  bytes : List UInt8
  format : WorkbookFormat
  headerRow : Option HeaderRow
  metadata : Pb.Metadata
  is1904 : Bool
  tables : String → Option (List Pb.DeclaredTable)
  numberFormats : List Pb.NumberFormat
  size : Footprint

/-! ## What is read of a workbook -/

section Probing
variable (calamine : Calamine.Opener) (formats : FormatSet) (bytes : List UInt8)

/-- `open_workbook_from_rs` for one format, its errors of `kind`. -/
def openFromRs (sheets : SheetsKind) (kind : CalamineErrorKind) : Except Pb.CalamineError Probe :=
  match calamine.fromRs sheets bytes with
  | .ok opened => .ok (sheets, opened)
  | .error e => .error (Convert.calamineError kind e)

/-- Open the bytes as the given format, auto-detecting when it is
unspecified. -/
def openAs : WorkbookFormat → Except Pb.CalamineError Probe
  | .unspecified =>
    match calamine.auto bytes with
    | .ok probe => .ok probe
    | .error e => .error (Convert.calamineError (Convert.errorKind e) e.text)
  | .xls => openFromRs calamine bytes .xls .xls
  | .xlsx => openFromRs calamine bytes .xlsx .xlsx
  | .xlsb => openFromRs calamine bytes .xlsb .xlsb
  | .ods => openFromRs calamine bytes .ods .ods

/-- Open the bytes as the first format accepted that they open as. -/
def detectAccepted : Except StoreError Probe :=
  match (FormatSet.DETECTION_ORDER.filter formats.accepts).findSome?
      fun format => (openAs calamine bytes format).toOption with
  | some probe => .ok probe
  | none => .error (.noAcceptedFormat formats)

/-- The probing reader of an open. -/
def probe (formatHint : WorkbookFormat) : Except StoreError Probe :=
  if formatHint = .unspecified ∧ formats ≠ .ALL then detectAccepted calamine formats bytes
  else (openAs calamine bytes formatHint).mapError .unreadable

end Probing

/-- ODS has no serial epoch. -/
def has1904Epoch : Probe → Bool
  | (.ods, _) => false
  | (_, opened) => opened.has1904Epoch

/-- `tables.entry(table.sheet_name.clone()).or_default().push(..)`. -/
def addTable (tables : String → Option (List Pb.DeclaredTable)) (table : Calamine.DeclaredTableMetadata) :
    String → Option (List Pb.DeclaredTable) :=
  fun sheet =>
    if sheet = table.sheetName then some ((tables sheet).getD [] ++ [Convert.declaredTable table]) else tables sheet

def groupTables (tables : List Calamine.DeclaredTableMetadata) : String → Option (List Pb.DeclaredTable) :=
  tables.foldl addTable fun _ => none

/-- What stands in for the number formats of an Excel workbook that has
none. -/
def generalFormat : Pb.NumberFormat := { styleId := 0, formatId := 0, code := some "General", kind := .other }

def probeProperties : Probe → Except Pb.CalamineError (Option Pb.WorkbookProperties)
  | (.xlsx, opened) | (.xlsb, opened) =>
    match opened.workbookProperties with
    | .ok properties => .ok (some (Convert.workbookProperties properties))
    | .error e => .error (Convert.calamineError (Convert.errorKind e) e.text)
  | (.xls, _) | (.ods, _) => .ok none

def probeTables : Probe → Except Pb.CalamineError (String → Option (List Pb.DeclaredTable))
  | (.xlsx, opened) =>
    match opened.declaredTables with
    | .ok tables => .ok (groupTables tables)
    | .error e => .error (Convert.calamineError .xlsx e)
  | _ => .ok fun _ => none

def probeNumberFormats : Probe → List Pb.NumberFormat
  | (.xlsx, opened) | (.xlsb, opened) =>
    let numberFormats := opened.numberFormats.map Convert.numberFormat
    if numberFormats.isEmpty then [generalFormat] else numberFormats
  | (.xls, _) | (.ods, _) => []

/-- The entry made of a probing reader. -/
def entryOf (bytes : List UInt8) (headerRow : Option HeaderRow) (size : Footprint) (probe : Probe) :
    Except Pb.CalamineError WorkbookEntry := do
  let properties ← probeProperties probe
  let tables ← probeTables probe
  return { bytes, format := probe.1.format, headerRow, is1904 := has1904Epoch probe, tables,
           numberFormats := probeNumberFormats probe, size,
           metadata := { properties, sheets := probe.2.sheetsMetadata.map Convert.sheet,
                         definedNames := probe.2.definedNames.map fun (name, definition) => { name, definition } } }

/-! ## An open -/

/-- The settings an open goes by. -/
structure OpenLimits where
  store : StoreLimits
  inflate : InflateLimits
  formats : FormatSet

namespace Store

section Open
variable (limits : OpenLimits) (zip : List UInt8 → Option (List (Option Entry))) (calamine : Calamine.Opener)

/-- What is refused before calamine sees the bytes, or the room taken for
them. -/
def admitOpen (s : Store) (bytes : List UInt8) (formatHint : WorkbookFormat) : Except StoreError Footprint × Store :=
  if formatHint ≠ .unspecified ∧ limits.formats.accepts formatHint = false then
    (.error (.formatRefused formatHint limits.formats), s)
  else
    match inspect limits.inflate (zip bytes) with
    | .error rejected => (.error (.ofRejected rejected), s)
    | .ok inflated =>
      let size : Footprint := ⟨bytes.length, inflated.readerBytes⟩
      match s.reserve limits.store size with
      | (.error e, s) => (.error (.limit e), s)
      | (.ok (), s) => (.ok size, s)

/-- The parse, which has no part in the store. -/
def parse (bytes : List UInt8) (formatHint : WorkbookFormat) (headerRow : Option HeaderRow) (size : Footprint) :
    Except StoreError WorkbookEntry := do
  let probe ← probe calamine limits.formats bytes formatHint
  (entryOf bytes headerRow size probe).mapError .unreadable

/-- What the parse comes to is registered, or the `i`th reservation is
dropped. -/
def settle (s : Store) (i : Nat) (id : String) : Except StoreError WorkbookEntry →
    Except StoreError (String × WorkbookEntry) × Store
  | .error e => (.error e, (s.abandon i).getD s)
  | .ok entry => (.ok (id, entry), (s.register i id).getD s)

/-- `WorkbookStore::open` with nothing in between, `id` being what
`Uuid::new_v4` draws. -/
def openWorkbook (s : Store) (bytes : List UInt8) (formatHint : WorkbookFormat) (headerRow : Option HeaderRow)
    (id : String) : Except StoreError (String × WorkbookEntry) × Store :=
  match s.admitOpen limits zip bytes formatHint with
  | (.error e, s) => (.error e, s)
  | (.ok size, s) => settle s (s.reservations.length - 1) id (parse limits calamine bytes formatHint headerRow size)

/-- How an open ends, and what it leaves of the store: it returns, or code that
is not the store's panics under it, be it the zip reader in `inspect` or
calamine in the parse, and no answer comes back. -/
inductive OpenEnds (s : Store) (bytes : List UInt8) (formatHint : WorkbookFormat) (headerRow : Option HeaderRow)
    (id : String) : Option (Except StoreError (String × WorkbookEntry)) → Store → Prop where
  | returned {answer s'} : s.openWorkbook limits zip calamine bytes formatHint headerRow id = (answer, s') →
      OpenEnds s bytes formatHint headerRow id (some answer) s'
  | inspectPanicked : formatHint = .unspecified ∨ limits.formats.accepts formatHint = true →
      OpenEnds s bytes formatHint headerRow id none s
  /-- The reservation is dropped as the panic unwinds. -/
  | parsePanicked {size reserved unwound} : s.admitOpen limits zip bytes formatHint = (.ok size, reserved) →
      reserved.abandon (reserved.reservations.length - 1) = some unwound →
      OpenEnds s bytes formatHint headerRow id none unwound

end Open

end Store

/-! ## What is read, as a whole -/

/-- The tables of a sheet are those declared for it, in order. -/
theorem groupTables_eq (tables : List Calamine.DeclaredTableMetadata) (sheet : String) :
    groupTables tables sheet =
      if tables.filter (·.sheetName = sheet) = [] then none
      else some ((tables.filter (·.sheetName = sheet)).map Convert.declaredTable) := by
  suffices h : (groupTables tables sheet).getD [] = (tables.filter (·.sheetName = sheet)).map Convert.declaredTable ∧
      ((groupTables tables sheet).isSome = true ↔ tables.filter (·.sheetName = sheet) ≠ []) by
    cases hgroup : groupTables tables sheet with
    | none =>
      rw [hgroup] at h
      rw [if_pos (by simpa using h.2)]
    | some group =>
      rw [hgroup] at h
      rw [if_neg (h.2.1 rfl), ← h.1]
      rfl
  unfold groupTables
  induction tables using List.reverseRecOn with
  | nil => simp
  | append_singleton tables table ih =>
    rw [List.foldl_append, List.filter_append, List.map_append]
    simp only [List.foldl_cons, List.foldl_nil, addTable]
    by_cases hsheet : sheet = table.sheetName
    · subst hsheet
      simp [ih.1]
    · have hother : [table].filter (·.sheetName = sheet) = [] := by simp [Ne.symm hsheet]
      rw [if_neg hsheet, hother]
      simpa using ih

section Probing
variable {calamine calamine' : Calamine.Opener} {formats : FormatSet} {bytes : List UInt8}

/-- A reader opened as some format is of that format. -/
theorem openAs_format {format : WorkbookFormat} {probe : Probe} (hformat : format ≠ .unspecified)
    (h : openAs calamine bytes format = .ok probe) : probe.1.format = format := by
  have hfrom : ∀ (sheets : SheetsKind) (kind : CalamineErrorKind),
      openFromRs calamine bytes sheets kind = .ok probe → probe.1.format = sheets.format := by
    intro sheets kind h
    unfold openFromRs at h
    split at h
    · cases h
      rfl
    · cases h
  cases format with
  | unspecified => exact absurd rfl hformat
  | xls => exact hfrom .xls .xls h
  | xlsx => exact hfrom .xlsx .xlsx h
  | xlsb => exact hfrom .xlsb .xlsb h
  | ods => exact hfrom .ods .ods h

theorem detectAccepted_accepts {probe : Probe} (h : detectAccepted calamine formats bytes = .ok probe) :
    formats.accepts probe.1.format = true := by
  unfold detectAccepted at h
  split at h
  · rename_i hfound
    cases h
    obtain ⟨format, hmem, hopen⟩ := List.exists_of_findSome?_eq_some hfound
    obtain ⟨hlisted, haccepts⟩ := List.mem_filter.1 hmem
    have hformat : format ≠ .unspecified := by
      rintro rfl
      simp [FormatSet.DETECTION_ORDER] at hlisted
    cases hprobe : openAs calamine bytes format with
    | error e =>
      rw [hprobe] at hopen
      cases hopen
    | ok found =>
      rw [hprobe] at hopen
      cases hopen
      rwa [openAs_format hformat hprobe]
  · cases h

theorem all_accepts (sheets : SheetsKind) : FormatSet.ALL.accepts sheets.format = true := by
  cases sheets <;> decide

/-- No reader is opened of a format that is refused. -/
theorem probe_accepts {formatHint : WorkbookFormat} {probe : Probe}
    (hgate : formatHint = .unspecified ∨ formats.accepts formatHint = true)
    (h : GrpcCalamine.probe calamine formats bytes formatHint = .ok probe) :
    formats.accepts probe.1.format = true := by
  unfold GrpcCalamine.probe at h
  split at h
  · exact detectAccepted_accepts h
  · rename_i hauto
    cases hopen : openAs calamine bytes formatHint with
    | error e =>
      rw [hopen] at h
      cases h
    | ok found =>
      rw [hopen] at h
      cases h
      by_cases hhint : formatHint = .unspecified
      · -- auto-detection is calamine's own only where every format is accepted
        obtain rfl : formats = .ALL := by simpa [hhint] using hauto
        exact all_accepts _
      · rw [openAs_format hhint hopen]
        exact hgate.resolve_left hhint

/-- `calamine'` reads the bytes as `calamine` does in every format that is
accepted. -/
def SameAccepted (formats : FormatSet) (calamine calamine' : Calamine.Opener) : Prop :=
  (∀ sheets : SheetsKind, formats.accepts sheets.format = true → calamine.fromRs sheets = calamine'.fromRs sheets) ∧
    (formats = .ALL → calamine.auto = calamine'.auto)

theorem openAs_congr (h : SameAccepted formats calamine calamine') {format : WorkbookFormat}
    (hformat : format ≠ .unspecified) (haccepts : formats.accepts format = true) :
    openAs calamine bytes format = openAs calamine' bytes format := by
  cases format with
  | unspecified => exact absurd rfl hformat
  | xls => simp only [openAs, openFromRs, h.1 .xls haccepts]
  | xlsx => simp only [openAs, openFromRs, h.1 .xlsx haccepts]
  | xlsb => simp only [openAs, openFromRs, h.1 .xlsb haccepts]
  | ods => simp only [openAs, openFromRs, h.1 .ods haccepts]

/-- What is refused is never tried. -/
theorem probe_congr (h : SameAccepted formats calamine calamine') {formatHint : WorkbookFormat}
    (hgate : formatHint = .unspecified ∨ formats.accepts formatHint = true) :
    probe calamine formats bytes formatHint = probe calamine' formats bytes formatHint := by
  unfold probe
  split
  · have hsame : ∀ format ∈ FormatSet.DETECTION_ORDER.filter formats.accepts,
        (openAs calamine bytes format).toOption = (openAs calamine' bytes format).toOption := by
      intro format hmem
      obtain ⟨hlisted, haccepts⟩ := List.mem_filter.1 hmem
      rw [openAs_congr h _ haccepts]
      rintro rfl
      simp [FormatSet.DETECTION_ORDER] at hlisted
    have htried : ∀ f : WorkbookFormat → Option Probe, (FormatSet.DETECTION_ORDER.filter formats.accepts).findSome? f =
        ((FormatSet.DETECTION_ORDER.filter formats.accepts).map f).findSome? id := by
      intro f
      rw [List.findSome?_map]
      rfl
    unfold detectAccepted
    rw [htried, htried, List.map_congr_left hsame]
  · rename_i hauto
    by_cases hhint : formatHint = .unspecified
    · have hall : formats = .ALL := by simpa [hhint] using hauto
      rw [hhint]
      simp only [openAs, h.2 hall]
    · rw [openAs_congr h hhint (hgate.resolve_left hhint)]

end Probing

/-- The tables a reader tells of for a sheet, in order. -/
def listedTables (probe : Probe) (sheet : String) : List Pb.DeclaredTable :=
  match probe with
  | (.xlsx, opened) =>
    match opened.declaredTables with
    | .ok tables => (tables.filter (·.sheetName = sheet)).map Convert.declaredTable
    | .error _ => []
  | _ => []

theorem probeTables_ok {probe : Probe} {tables : String → Option (List Pb.DeclaredTable)}
    (h : probeTables probe = .ok tables) (sheet : String) : (tables sheet).getD [] = listedTables probe sheet := by
  obtain ⟨sheets, opened⟩ := probe
  cases sheets with
  | xlsx =>
    simp only [probeTables] at h
    simp only [listedTables]
    cases hdeclared : opened.declaredTables with
    | error e =>
      rw [hdeclared] at h
      cases h
    | ok declared =>
      rw [hdeclared] at h
      cases h
      rw [groupTables_eq]
      split
      · rename_i hnone
        simp only [hnone]
        rfl
      · rfl
  | xls | xlsb | ods =>
    cases h
    rfl

/-- An entry is of the format its bytes were opened as, and has the tables the
reader told of. -/
theorem entryOf_ok {bytes : List UInt8} {headerRow : Option HeaderRow} {size : Footprint} {probe : Probe}
    {entry : WorkbookEntry} (h : entryOf bytes headerRow size probe = .ok entry) :
    entry.bytes = bytes ∧ entry.format = probe.1.format ∧ entry.headerRow = headerRow ∧ entry.size = size ∧
      ∀ sheet, (entry.tables sheet).getD [] = listedTables probe sheet := by
  unfold entryOf at h
  obtain ⟨properties, -, h⟩ := bind_ok_iff.1 h
  obtain ⟨tables, htables, h⟩ := bind_ok_iff.1 h
  cases h
  exact ⟨rfl, rfl, rfl, rfl, probeTables_ok htables⟩

namespace Store

variable {limits : OpenLimits} {zip : List UInt8 → Option (List (Option Entry))} {calamine : Calamine.Opener}
  {es : List Effect} {s : Store} {bytes : List UInt8} {formatHint : WorkbookFormat} {headerRow : Option HeaderRow}

/-! ## What an open does to the store -/

/-- The store with room taken for a workbook. -/
def withReserved (s : Store) (budget : Budget) (size : Footprint) : Store :=
  { s with budget := budget, pending := s.pending + 1, reservations := s.reservations ++ [size] }

/-- The store with the workbook in its room. -/
def withOpened (s : Store) (budget : Budget) (size : Footprint) (id : String) : Store :=
  { s with budget := budget, registered := s.registered + 1,
           workbooks := s.workbooks ++ [.ofOpen id s.registered size s.now] }

theorem reserve_cases (limits : StoreLimits) (s : Store) (size : Footprint) :
    (∃ e, s.reserve limits size = (.error e, s.sweep limits)) ∨
    ∃ budget, (s.sweep limits).budget.take size.heldBytes = .ok budget ∧
      s.reserve limits size = (.ok (), (s.sweep limits).withReserved budget size) := by
  simp only [reserve]
  cases (s.sweep limits).fitsBeside limits size.heldBytes with
  | error e => exact .inl ⟨e, rfl⟩
  | ok u =>
    cases htake : (s.sweep limits).budget.take size.heldBytes with
    | error held => exact .inl ⟨_, rfl⟩
    | ok budget => exact .inr ⟨budget, rfl, rfl⟩

/-- An open is refused as it is or once idle workbooks are closed, or holds its
room until it is settled. -/
theorem admitOpen_cases (limits : OpenLimits) (zip : List UInt8 → Option (List (Option Entry))) (bytes : List UInt8)
    (formatHint : WorkbookFormat) (s : Store) :
    (∃ e, s.admitOpen limits zip bytes formatHint = (.error e, s)) ∨
    (∃ size e, s.reserve limits.store size = (.error e, s.sweep limits.store) ∧
      s.admitOpen limits zip bytes formatHint = (.error (.limit e), s.sweep limits.store)) ∨
    ∃ inflated budget, (formatHint = .unspecified ∨ limits.formats.accepts formatHint = true) ∧
      inspect limits.inflate (zip bytes) = .ok inflated ∧
      (s.sweep limits.store).budget.take (⟨bytes.length, inflated.readerBytes⟩ : Footprint).heldBytes = .ok budget ∧
      s.reserve limits.store ⟨bytes.length, inflated.readerBytes⟩ =
        (.ok (), (s.sweep limits.store).withReserved budget ⟨bytes.length, inflated.readerBytes⟩) ∧
      s.admitOpen limits zip bytes formatHint = (.ok ⟨bytes.length, inflated.readerBytes⟩,
        (s.sweep limits.store).withReserved budget ⟨bytes.length, inflated.readerBytes⟩) := by
  unfold admitOpen
  split
  · exact .inl ⟨_, rfl⟩
  rename_i hgate
  have hgate' : formatHint = .unspecified ∨ limits.formats.accepts formatHint = true := by
    by_cases hhint : formatHint = .unspecified
    · exact .inl hhint
    · exact .inr (by simpa [hhint] using hgate)
  cases hinspect : inspect limits.inflate (zip bytes) with
  | error rejected => exact .inl ⟨_, rfl⟩
  | ok inflated =>
    rcases reserve_cases limits.store s ⟨bytes.length, inflated.readerBytes⟩ with
      ⟨e, hreserve⟩ | ⟨budget, htake, hreserve⟩
    · simp only [hreserve]
      exact .inr (.inl ⟨_, e, hreserve, rfl⟩)
    · simp only [hreserve]
      exact .inr (.inr ⟨inflated, budget, hgate', rfl, htake, hreserve, rfl⟩)

/-- An open that has its room has the sweep behind it and its size taken. -/
theorem admitOpen_ok {size : Footprint} {reserved : Store}
    (h : s.admitOpen limits zip bytes formatHint = (.ok size, reserved)) :
    ∃ inflated budget, (formatHint = .unspecified ∨ limits.formats.accepts formatHint = true) ∧
      inspect limits.inflate (zip bytes) = .ok inflated ∧ size = ⟨bytes.length, inflated.readerBytes⟩ ∧
      (s.sweep limits.store).budget.take size.heldBytes = .ok budget ∧
      s.reserve limits.store size = (.ok (), reserved) ∧ reserved = (s.sweep limits.store).withReserved budget size := by
  rcases admitOpen_cases limits zip bytes formatHint s with
    ⟨e, hcomes⟩ | ⟨_, e, -, hcomes⟩ | ⟨inflated, budget, hgate, hinspect, htake, hreserve, hcomes⟩
  · cases hcomes.symm.trans h
  · cases hcomes.symm.trans h
  · cases hcomes.symm.trans h
    exact ⟨inflated, budget, hgate, hinspect, rfl, htake, hreserve, rfl⟩

/-- What is taken and given back leaves the budget as it was. -/
theorem give_take {budget budget' : Budget} {bytes : Nat} (hmax : budget.max < U64_MAX)
    (htake : budget.take bytes = .ok budget') : budget'.give bytes = budget := by
  obtain ⟨hheld, -⟩ := Budget.take_held hmax htake
  have hsame := Budget.take_max htake
  obtain ⟨held, max⟩ := budget
  obtain ⟨held', max'⟩ := budget'
  simp only at hheld hsame
  subst hheld hsame
  simp [Budget.give]

/-- The reservation made last. -/
def lastReserved (s : Store) : Nat := s.reservations.length - 1

theorem reserved_last (s : Store) (budget : Budget) (size : Footprint) :
    (s.withReserved budget size).reservations[(s.withReserved budget size).lastReserved]? = some size ∧
      (s.withReserved budget size).reservations.eraseIdx (s.withReserved budget size).lastReserved = s.reservations := by
  have hlast : (s.withReserved budget size).lastReserved = s.reservations.length := by
    simp [withReserved, lastReserved]
  rw [hlast]
  refine ⟨by simp [withReserved], ?_⟩
  show (s.reservations ++ [size]).eraseIdx s.reservations.length = s.reservations
  rw [List.eraseIdx_append_of_length_le (Nat.le_refl _), Nat.sub_self]
  exact List.append_nil _

/-- Room that is given up leaves the store as it was before. -/
theorem abandon_reserved {budget : Budget} {size : Footprint} (hmax : s.budget.max < U64_MAX)
    (htake : s.budget.take size.heldBytes = .ok budget) :
    (s.withReserved budget size).abandon (s.withReserved budget size).lastReserved = some s := by
  obtain ⟨hlast, herase⟩ := reserved_last s budget size
  simp only [abandon, hlast, herase, Option.map_some]
  show some { s with budget := budget.give size.heldBytes, pending := s.pending + 1 - 1 } = _
  rw [give_take hmax htake, Nat.add_sub_cancel]

theorem register_reserved (s : Store) (budget : Budget) (size : Footprint) (id : String) :
    (s.withReserved budget size).register (s.withReserved budget size).lastReserved id =
      some (s.withOpened budget size id) := by
  obtain ⟨hlast, herase⟩ := reserved_last s budget size
  simp only [register, hlast, herase, Option.map_some]
  show some { s with
    budget := budget, registered := s.registered + 1, pending := s.pending + 1 - 1,
    workbooks := s.workbooks ++ [Workbook.ofOpen id s.registered size s.now] } = _
  rw [Nat.add_sub_cancel]
  rfl

/-- What a parse that succeeded has made of the bytes. -/
structure ParsedAs (limits : OpenLimits) (calamine : Calamine.Opener) (bytes : List UInt8) (formatHint : WorkbookFormat)
    (headerRow : Option HeaderRow) (size : Footprint) (entry : WorkbookEntry) : Prop where
  accepted : limits.formats.accepts entry.format = true
  asked : entry.bytes = bytes ∧ entry.headerRow = headerRow
  sized : entry.size = size
  /-- The format and the tables are those of the reader that was opened. -/
  read : ∃ found, probe calamine limits.formats bytes formatHint = .ok found ∧ entry.format = found.1.format ∧
    ∀ sheet, (entry.tables sheet).getD [] = listedTables found sheet

theorem parse_ok {size : Footprint} {entry : WorkbookEntry}
    (hgate : formatHint = .unspecified ∨ limits.formats.accepts formatHint = true)
    (h : parse limits calamine bytes formatHint headerRow size = .ok entry) :
    ParsedAs limits calamine bytes formatHint headerRow size entry := by
  unfold parse at h
  obtain ⟨found, hprobe, hentry⟩ := bind_ok_iff.1 h
  cases hmade : entryOf bytes headerRow size found with
  | error e =>
    rw [hmade] at hentry
    cases hentry
  | ok made =>
    rw [hmade] at hentry
    cases hentry
    obtain ⟨hbytes, hformat, hheader, hsize, htables⟩ := entryOf_ok hmade
    exact ⟨hformat ▸ probe_accepts hgate hprobe, ⟨hbytes, hheader⟩, hsize, ⟨found, hprobe, hformat, htables⟩⟩

theorem openWorkbook_of_refused {s' : Store} {e : StoreError}
    (h : s.admitOpen limits zip bytes formatHint = (.error e, s')) (id : String) :
    s.openWorkbook limits zip calamine bytes formatHint headerRow id = (.error e, s') := by
  rw [openWorkbook, h]

theorem openWorkbook_of_admitted {s' : Store} {budget : Budget} {size : Footprint}
    (h : s.admitOpen limits zip bytes formatHint = (.ok size, s'.withReserved budget size))
    (hmax : s'.budget.max < U64_MAX) (htake : s'.budget.take size.heldBytes = .ok budget) (id : String) :
    s.openWorkbook limits zip calamine bytes formatHint headerRow id =
      match parse limits calamine bytes formatHint headerRow size with
      | .error e => (.error e, s')
      | .ok entry => (.ok (id, entry), s'.withOpened budget size id) := by
  rw [openWorkbook, h]
  show (s'.withReserved budget size).settle (s'.withReserved budget size).lastReserved id
    (parse limits calamine bytes formatHint headerRow size) = _
  cases hparse : parse limits calamine bytes formatHint headerRow size with
  | error e =>
    rw [settle, abandon_reserved hmax htake]
    rfl
  | ok entry =>
    rw [settle, register_reserved]
    rfl

/-- What an open that succeeded has made of the bytes and of the store: the
workbook is charged its upload and what `inspect` measured. -/
structure OpenedAs (limits : OpenLimits) (zip : List UInt8 → Option (List (Option Entry))) (calamine : Calamine.Opener)
    (bytes : List UInt8) (formatHint : WorkbookFormat) (headerRow : Option HeaderRow) (id : String) (s : Store)
    (entry : WorkbookEntry) (s' : Store) : Prop where
  parsed : ParsedAs limits calamine bytes formatHint headerRow entry.size entry
  charged : ∃ inflated budget, inspect limits.inflate (zip bytes) = .ok inflated ∧
    entry.size = ⟨bytes.length, inflated.readerBytes⟩ ∧
    (s.sweep limits.store).budget.take entry.size.heldBytes = .ok budget ∧
    s' = (s.sweep limits.store).withOpened budget entry.size id

/-- How an open that returns ends. -/
theorem openWorkbook_cases (hmax : s.budget.max < U64_MAX) (id : String) :
    (∃ e, s.openWorkbook limits zip calamine bytes formatHint headerRow id = (.error e, s)) ∨
    (∃ e, s.openWorkbook limits zip calamine bytes formatHint headerRow id = (.error e, s.sweep limits.store)) ∨
    ∃ entry s', s.openWorkbook limits zip calamine bytes formatHint headerRow id = (.ok (id, entry), s') ∧
      OpenedAs limits zip calamine bytes formatHint headerRow id s entry s' := by
  rcases admitOpen_cases limits zip bytes formatHint s with
    ⟨e, hcomes⟩ | ⟨size, e, -, hcomes⟩ | ⟨inflated, budget, hgate, hinspect, htake, -, hcomes⟩
  · exact .inl ⟨e, openWorkbook_of_refused hcomes id⟩
  · exact .inr (.inl ⟨_, openWorkbook_of_refused hcomes id⟩)
  · have hswept : (s.sweep limits.store).budget.max < U64_MAX := (sweep_max limits.store s).trans_lt hmax
    rw [openWorkbook_of_admitted hcomes hswept htake id]
    cases hparse : parse limits calamine bytes formatHint headerRow ⟨bytes.length, inflated.readerBytes⟩ with
    | error e => exact .inr (.inl ⟨e, rfl⟩)
    | ok entry =>
      have hparsed := parse_ok hgate hparse
      refine .inr (.inr ⟨entry, _, rfl, hparsed.sized ▸ hparsed, inflated, budget, hinspect, hparsed.sized, ?_, ?_⟩)
      · rw [hparsed.sized]
        exact htake
      · rw [hparsed.sized]

/-- A panic leaves nothing behind: there was no room yet, or it is given up. -/
theorem panicked_cases {s' : Store} {id : String} (hmax : s.budget.max < U64_MAX)
    (h : s.OpenEnds limits zip calamine bytes formatHint headerRow id none s') : s' = s ∨ s' = s.sweep limits.store := by
  cases h with
  | inspectPanicked _ => exact .inl rfl
  | parsePanicked hadmitted hunwound =>
    obtain ⟨-, budget, -, -, -, htake, -, rfl⟩ := admitOpen_ok hadmitted
    have habandoned := abandon_reserved ((sweep_max limits.store s).trans_lt hmax) htake
    exact .inr (Option.some.inj (hunwound.symm.trans habandoned))

/-- An open goes by what calamine makes of the bytes in accepted formats
alone. -/
theorem openWorkbook_congr (hmax : s.budget.max < U64_MAX) {calamine' : Calamine.Opener}
    (hsame : SameAccepted limits.formats calamine calamine') (id : String) :
    s.openWorkbook limits zip calamine bytes formatHint headerRow id =
      s.openWorkbook limits zip calamine' bytes formatHint headerRow id := by
  rcases admitOpen_cases limits zip bytes formatHint s with
    ⟨e, hcomes⟩ | ⟨size, e, -, hcomes⟩ | ⟨inflated, budget, hgate, -, htake, -, hcomes⟩
  · rw [openWorkbook_of_refused hcomes, openWorkbook_of_refused hcomes]
  · rw [openWorkbook_of_refused hcomes, openWorkbook_of_refused hcomes]
  · have hswept : (s.sweep limits.store).budget.max < U64_MAX := (sweep_max limits.store s).trans_lt hmax
    have hparse : parse limits calamine bytes formatHint headerRow ⟨bytes.length, inflated.readerBytes⟩ =
        parse limits calamine' bytes formatHint headerRow ⟨bytes.length, inflated.readerBytes⟩ := by
      simp only [parse, probe_congr hsame hgate]
    rw [openWorkbook_of_admitted hcomes hswept htake, openWorkbook_of_admitted hcomes hswept htake, hparse]

theorem runs_refused (h : Runs limits.store es s) (hw : s.writer = none) {e : StoreError} {refused : Store}
    (hrefused : s.admitOpen limits zip bytes formatHint = (.error e, refused)) : ∃ es', Runs limits.store es' refused := by
  rcases admitOpen_cases limits zip bytes formatHint s with
    ⟨_, hcomes⟩ | ⟨size, _, hreserve, hcomes⟩ | ⟨_, _, -, -, -, -, hcomes⟩
  · cases hcomes.symm.trans hrefused
    exact ⟨es, h⟩
  · cases hcomes.symm.trans hrefused
    have hruns := runs_reserve h hw size
    rwa [hreserve] at hruns
  · cases hcomes.symm.trans hrefused

/-- The id is fresh when it is drawn, and stays so while idle workbooks
close. -/
theorem runs_admitted (h : Runs limits.store es s) (hw : s.writer = none) {id : String} (hfresh : s.entry id = none)
    {size : Footprint} {reserved : Store} (hadmitted : s.admitOpen limits zip bytes formatHint = (.ok size, reserved)) :
    (∃ es', Runs limits.store es' reserved) ∧ reserved.writer = none ∧ reserved.entry id = none := by
  obtain ⟨-, budget, -, -, -, -, hreserve, rfl⟩ := admitOpen_ok hadmitted
  have hruns := runs_reserve h hw size
  rw [hreserve] at hruns
  refine ⟨hruns, (sweep_writer limits.store s).trans hw, ?_⟩
  rw [Store.entry, List.find?_eq_none]
  intro w hmem hid
  obtain ⟨v, hv, hvid⟩ := mem_of_mem_sweep hmem (by simpa using hid)
  exact entry_none hfresh v hv hvid

theorem runs_settle {limits : StoreLimits} (h : Runs limits es s) (hw : s.writer = none) {id : String}
    (hfresh : s.entry id = none) (i : Nat) (parsed : Except StoreError WorkbookEntry) :
    ∃ es', Runs limits es' (s.settle i id parsed).2 := by
  cases parsed with
  | error e =>
    rw [settle]
    cases habandon : s.abandon i with
    | none => exact ⟨es, h⟩
    | some s' => exact runs_abandon h hw habandon
  | ok entry =>
    rw [settle]
    cases hregister : s.register i id with
    | none => exact ⟨es, h⟩
    | some s' => exact runs_register h hw hfresh hregister

/-- An open that nothing comes between is a run of the store's steps. -/
theorem runs_openEnds (h : Runs limits.store es s) (hw : s.writer = none) {id : String} (hfresh : s.entry id = none)
    {answer : Option (Except StoreError (String × WorkbookEntry))} {s' : Store}
    (hends : s.OpenEnds limits zip calamine bytes formatHint headerRow id answer s') :
    ∃ es', Runs limits.store es' s' := by
  cases hends with
  | inspectPanicked _ => exact ⟨es, h⟩
  | parsePanicked hadmitted hunwound =>
    obtain ⟨⟨_, hruns⟩, hfree, -⟩ := runs_admitted h hw hfresh hadmitted
    exact runs_abandon hruns hfree hunwound
  | returned hreturned =>
    obtain rfl := congrArg Prod.snd hreturned
    rw [openWorkbook]
    split
    · next e refused hrefused => exact runs_refused h hw hrefused
    · next size reserved hadmitted =>
      obtain ⟨⟨_, hruns⟩, hfree, hunused⟩ := runs_admitted h hw hfresh hadmitted
      exact runs_settle hruns hfree hunused _ _

/-- An open, in any state that the store's threads bring it to. One that fails,
or panics, leaves the store as it was but for idle workbooks, closed and given
back in full; one that succeeds adds one workbook, charged its upload and what
`inspect` measured, of an accepted format and with the tables that were read.
What calamine would make of the bytes in a refused format has no part in it;
and where nobody holds the registry's lock it is a run of the store's steps,
however it ends. -/
theorem open_whole_or_nothing (h : Runs limits.store es s) (hlimit : limits.store.maxStoreBytes < U64_MAX)
    {id : String} (hfresh : s.entry id = none) :
    (∀ answer s', s.OpenEnds limits zip calamine bytes formatHint headerRow id answer s' →
      ((answer = none ∨ ∃ e, answer = some (.error e)) ∧
        (s' = s ∨ s' = s.sweep limits.store ∧ OnlyIdleClosed limits.store s s')) ∨
      ∃ entry, answer = some (.ok (id, entry)) ∧
        OpenedAs limits zip calamine bytes formatHint headerRow id s entry s') ∧
    (∀ calamine', SameAccepted limits.formats calamine calamine' →
      s.openWorkbook limits zip calamine bytes formatHint headerRow id =
        s.openWorkbook limits zip calamine' bytes formatHint headerRow id) ∧
    (s.writer = none → ∀ answer s', s.OpenEnds limits zip calamine bytes formatHint headerRow id answer s' →
      ∃ es', Runs limits.store es' s') := by
  have hmax : s.budget.max < U64_MAX := by
    rw [(runs_inv h).max]
    exact hlimit
  have hswept : ∀ s', s' = s.sweep limits.store → s' = s.sweep limits.store ∧ OnlyIdleClosed limits.store s s' := by
    rintro _ rfl
    exact ⟨rfl, onlyIdleClosed_sweep hlimit h⟩
  refine ⟨fun answer s' hends => ?_, fun _ hsame => openWorkbook_congr hmax hsame id,
    fun hw _ _ hends => runs_openEnds h hw hfresh hends⟩
  cases answer with
  | none => exact .inl ⟨.inl rfl, (panicked_cases hmax hends).imp_right (hswept s')⟩
  | some answer =>
    cases hends with
    | returned hreturned =>
      rcases @openWorkbook_cases limits zip calamine s bytes formatHint headerRow hmax id with
        ⟨e, hopen⟩ | ⟨e, hopen⟩ | ⟨entry, _, hopen, hopened⟩
      · cases hopen.symm.trans hreturned
        exact .inl ⟨.inr ⟨e, rfl⟩, .inl rfl⟩
      · cases hopen.symm.trans hreturned
        exact .inl ⟨.inr ⟨e, rfl⟩, .inr (hswept _ rfl)⟩
      · cases hopen.symm.trans hreturned
        exact .inr ⟨entry, rfl, hopened⟩

/-- A server of xlsx workbooks only, with room for a few bytes. -/
def xlsxOnly : OpenLimits where
  store := ⟨4, 100, 10⟩
  inflate := .default
  formats := ⟨2, by decide, by decide⟩

/-- What a reader tells of an empty workbook. -/
def emptyWorkbook : Calamine.Opened where
  workbookProperties := .ok ⟨none, none, none, none, none, none, none, none, none, none, none, none, none, none, none,
    none, none⟩
  sheetsMetadata := []
  definedNames := []
  has1904Epoch := false
  declaredTables := .ok []
  numberFormats := []

/-- Bytes that open as any format. -/
def opensAsAny : Calamine.Opener := ⟨fun _ _ => .ok emptyWorkbook, fun _ => .ok (.xls, emptyWorkbook)⟩

/-- Bytes that open as xlsx alone. -/
def opensAsXlsx : Calamine.Opener where
  fromRs
    | .xlsx, _ => .ok emptyWorkbook
    | _, _ => .error "not this format"
  auto _ := .error ⟨.msg, "no format"⟩

/-- Beside a workbook of 60 bytes that two streams read, bytes that
auto-detection takes for xls are opened as the format accepted, whatever an xls
reader makes of them, and a panic of one leaves the 120 bytes that were held. -/
theorem open_whole_or_nothing_detected : ∃ es s, Runs ⟨4, 200, 0⟩ es s ∧ s.chargedBytes = 30 ∧
    (∃ entry s', s.openWorkbook { xlsxOnly with store := ⟨4, 200, 0⟩ } (fun _ => none) opensAsAny [1, 2, 3]
      .unspecified none "b" = (.ok ("b", entry), s') ∧ entry.format = .xlsx ∧
      entry.numberFormats = [generalFormat] ∧ s'.budget.held = 123) ∧
    s.openWorkbook { xlsxOnly with store := ⟨4, 200, 0⟩ } (fun _ => none) opensAsAny [1, 2, 3] .unspecified none "b" =
      s.openWorkbook { xlsxOnly with store := ⟨4, 200, 0⟩ } (fun _ => none) opensAsXlsx [1, 2, 3] .unspecified none
        "b" ∧
    ∀ s', s.OpenEnds { xlsxOnly with store := ⟨4, 200, 0⟩ } (fun _ => none) opensAsAny [1, 2, 3] .unspecified none "b"
      none s' → s'.budget.held = 120 := by
  obtain ⟨_, hopen⟩ := runs_first ⟨4, 200, 0⟩ ⟨60, 30⟩ rfl (by decide) (by decide) "a"
  obtain ⟨_, hread⟩ := runs_reuse hopen [] [] rfl (by decide) rfl
  have hask := hread.step (.reader rfl (.ask (by decide) rfl) rfl)
  have h := hask.step (.reader rfl (.charge rfl) rfl)
  have hsame : SameAccepted xlsxOnly.formats opensAsAny opensAsXlsx := by
    refine ⟨?_, fun hall => absurd hall (by decide)⟩
    intro sheets haccepts
    cases sheets with
    | xlsx => rfl
    | xls | xlsb | ods => cases haccepts
  obtain ⟨hends, hcongr, -⟩ := @open_whole_or_nothing { xlsxOnly with store := ⟨4, 200, 0⟩ } (fun _ => none) opensAsAny
    _ _ [1, 2, 3] .unspecified none h (by decide) "b" rfl
  refine ⟨_, _, h, rfl, ⟨_, _, rfl, rfl, rfl, rfl⟩, hcongr opensAsXlsx hsame, fun s' hpanic => ?_⟩
  -- with no TTL nothing is swept
  rcases hends none s' hpanic with ⟨-, rfl | ⟨rfl, -⟩⟩ | ⟨_, hnone, -⟩
  · rfl
  · rfl
  · cases hnone

end Store

end GrpcCalamine
