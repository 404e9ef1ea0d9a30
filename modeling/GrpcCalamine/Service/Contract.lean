import GrpcCalamine.Service.Client
import GrpcCalamine.Service.Plain
import GrpcCalamine.Service.Sheet
import GrpcCalamine.Service.Lossless
/-!
# Range streams keep their contract

Whatever the body of `StreamWorksheetRange` sends, a client that holds it to
its contract takes: the incremental stream however its cells are ordered
(`rangeEvents_takes`), the buffered one (`emitRange_takes`), the body as a
whole, and what a consumer has received of it at any moment of any interleaving
(`range_contract`).
-/

namespace GrpcCalamine

open Emit (Stops)
open Grid (announce)
open Receiver (Takes)
open RowBatcher (AllCarried Carried)

/-! ## Rows whose ids are known -/

/-- What `Defined` asks of a row here. -/
abbrev IdsKnown (entries : List String) (row : Pb.WorksheetRow) : Prop := row.Known entries.length

theorem Defined.mono {ok ok' : List String → Pb.WorksheetRow → Prop} (h : ∀ entries row, ok entries row → ok' entries row)
    {entries : List String} {items : List (Item Pb.RangeEvent)} (hd : Defined ok entries items) :
    Defined ok' entries items := by
  intro before i after hsplit
  have hi := hd before i after hsplit
  cases i with
  | status s => trivial
  | event e => cases e with
    | stringTable chunk => exact hi
    | row row => exact h _ _ hi
    | rows rows => exact fun row hr => h _ _ (hi row hr)
    | _ => trivial

/-- What comes after the header is as well defined as the stream. -/
theorem Defined.tail {ok : List String → Pb.WorksheetRow → Prop} {entries : List String} {i : Item Pb.RangeEvent}
    {items : List (Item Pb.RangeEvent)} (h : Defined ok entries (i :: items)) :
    Defined ok (entries ++ entriesIn i) items := by
  intro before j after hsplit
  have hj := h (i :: before) j after (by rw [hsplit]; rfl)
  rwa [entriesOf_cons, ← List.append_assoc] at hj

theorem plain_known {row : Pb.WorksheetRow} (h : row.Plain) (entries : Nat) : row.Known entries := by
  intro v hv
  unfold Pb.CellData.known
  split
  · next id hid => exact absurd hid (h v hv id)
  · rfl

theorem RowOk.known {is1904 : Bool} {pairs : List (ReadCell × (Nat × Nat × Pb.CellData))} {all : List String}
    {row : Pb.WorksheetRow} (h : RowOk is1904 pairs all row) : row.Known all.length := by
  intro v hv
  unfold Pb.CellData.known
  split
  · next id hid =>
    obtain ⟨col, hcol⟩ := List.mem_iff_getElem?.1 hv
    rcases h col v hcol with rfl | ⟨c, -, hids, -⟩
    · cases hid
    · obtain ⟨s, -, hall⟩ := hids id hid
      obtain ⟨hlt, -⟩ := List.getElem?_eq_some_iff.1 hall
      exact decide_eq_true hlt
  · rfl

/-- Without a string table every row is known. -/
theorem defined_of_plain {items : List (Item Pb.RangeEvent)} (h : ∀ i ∈ items, PlainItem i) (entries : List String) :
    Defined IdsKnown entries items := by
  intro before i after hsplit
  have hi := h i (by rw [hsplit]; simp)
  cases i with
  | status s => trivial
  | event e => cases e with
    | stringTable chunk => exact hi.elim
    | row row => exact plain_known hi _
    | rows rows => exact fun row hr => plain_known (hi row hr) _
    | _ => trivial

/-! ## What the terms allow -/

/-- The terms `b` sends by. -/
structure Terms.Match (t : Terms) (b : RowBatcher) : Prop where
  single : t.single = b.single
  cap : b.single = false → b.cap ≤ t.cap

theorem Carried.allows {t : Terms} {b : RowBatcher} (ht : t.Match b) {entries : List String} {e : Pb.RangeEvent}
    (hc : Carried b.single b.cap e) (hi : ItemOk IdsKnown entries (.event e))
    (hplain : t.dictionary = false → PlainItem (.event e)) : t.Allows entries.length e := by
  cases e with
  | row row => exact ⟨ht.single.trans hc, hi⟩
  | rows rows => exact ⟨⟨ht.single.trans hc.1, hc.2.1, hc.2.2.1, hc.2.2.2.trans (ht.cap hc.1)⟩, hi⟩
  | rowGap first count => trivial
  | stringTable chunk =>
    refine ⟨?_, hi.nonempty, hi.firstId⟩
    by_contra hdict
    exact hplain (Bool.eq_false_iff.2 hdict)
  | started header => exact hc.elim
  | error err => exact hc.elim

/-- A stretch of the stream after its header: carried as it must be, its ids
known, its rows announced from where the next is expected. -/
structure Stretch (t : Terms) (b : RowBatcher) (start : Option Nat) (rows : List Pb.WorksheetRow)
    (items : List (Item Pb.RangeEvent)) : Prop where
  carried : AllCarried b items
  flat : flatten items = announce (·.rowIndex) start rows
  defined : Defined IdsKnown [] items
  plain : t.dictionary = false → ∀ i ∈ items, PlainItem i
  ascending : rows.Pairwise fun x y => x.rowIndex ≤ y.rowIndex
  once : t.strict = true → rows.Pairwise fun x y => x.rowIndex < y.rowIndex
  first : ∀ n ∈ start, ∀ row ∈ rows, n ≤ row.rowIndex

/-- The client after the header. -/
def RangeClient.opened (start : Option Nat) : RangeClient :=
  { started := true, failed := false, position := ⟨start, none, false⟩, entries := 0 }

theorem Stretch.takes {t : Terms} {b : RowBatcher} (ht : t.Match b) {start : Option Nat} {rows : List Pb.WorksheetRow}
    {items : List (Item Pb.RangeEvent)} (h : Stretch t b start rows items) :
    Takes (Receipt.take (RangeClient.take t)) ⟨.opened start, false⟩ items (RangeClient.Open (entriesOf items).length) := by
  have hallows : ∀ before i after, items = before ++ i :: after →
      ∃ e, i = .event e ∧ t.Allows (0 + (entriesOf before).length) e := by
    intro before i after hsplit
    have hmem : i ∈ items := by rw [hsplit]; simp
    obtain ⟨e, rfl, hc⟩ := h.carried i hmem
    refine ⟨e, rfl, ?_⟩
    have hi := h.defined before _ after hsplit
    rw [List.nil_append] at hi
    rw [Nat.zero_add]
    exact Carried.allows ht hc hi fun hd => h.plain hd _ hmem
  have hfits : Position.Fits t.strict ⟨start, none, false⟩ rows :=
    ⟨rfl, h.ascending, h.once, fun e he row hr => .inl (h.first e he row (List.mem_of_head? hr))⟩
  have hplace := Position.takes_announce hfits
  rw [← h.flat] at hplace
  have htakes := RangeClient.takes_allowed (c := .opened start) rfl rfl hallows hplace
  simpa [RangeClient.opened] using htakes

/-- A whole stream: its header, a stretch, and a terminal error or none. -/
theorem Stretch.takes_whole {t : Terms} {b : RowBatcher} (ht : t.Match b) {header : Pb.RangeStarted}
    {rows : List Pb.WorksheetRow} {items : List (Item Pb.RangeEvent)} (h : Stretch t b (t.opening header) rows items)
    {last : List (Item Pb.RangeEvent)}
    (hlast : last = [] ∨ ∃ err, last = [.event (.error { error := some err, terminal := true })]) :
    Takes (Receipt.take (RangeClient.take t)) ⟨.fresh, false⟩ (.event (.started header) :: (items ++ last))
      RangeClient.MayEnd := by
  have hstart : Receipt.take (RangeClient.take t) ⟨.fresh, false⟩ (.event (.started header)) =
      some ⟨.opened (t.opening header), false⟩ := rfl
  refine .cons hstart ((h.takes ht).append ?_)
  intro r hr
  rcases hlast with rfl | ⟨err, rfl⟩
  · exact .nil ⟨.inl hr.started, hr.closed⟩
  · have htake : r.take (RangeClient.take t) (.event (.error { error := some err, terminal := true })) =
        some ⟨{ r.client with failed := true }, false⟩ := by
      simp only [Receipt.take, hr.going.2, RangeClient.take_error hr.going.1 hr.closed, Bool.false_eq_true, if_false,
        Option.map_some]
    exact .cons htake (.nil ⟨.inl hr.started, hr.closed⟩)

theorem takes_failed (t : Terms) (kind : Pb.CalamineErrorKind) (err : String) :
    Takes (Receipt.take (RangeClient.take t)) ⟨.fresh, false⟩ (abortWith kind err : Stream Pb.RangeEvent Unit).events
      RangeClient.MayEnd :=
  .cons rfl (.nil ⟨.inr (.inl rfl), rfl⟩)

/-! ## The incremental stream -/

/-- A reader the stream's numbers hold: no row is `u32::MAX`, and with a table
equal borrows are equal texts and there are ids enough. -/
structure Readable (dictionary : Bool) (cells : List ReadCell) : Prop where
  rows : ∀ c ∈ cells, c.row < 2 ^ 32 - 1
  borrowed : dictionary = true → Borrowed (borrows cells)

/-- The terms of a request to an incremental reader. -/
def incrementalTerms (maxRows : Nat) (dictionary strict : Bool) (headerRow : Option Nat) : Terms :=
  { single := decide (allowedRows maxRows = 1), cap := allowedRows maxRows, dictionary, strict,
    opening := fun _ => headerRow }

theorem match_of_limits {t : Terms} {maxRows : Nat} (hs : t.single = decide (allowedRows maxRows = 1))
    (hc : t.cap = allowedRows maxRows) {b : RowBatcher} (hb : b.single = decide (allowedRows maxRows = 1))
    (hcap : b.cap = if allowedRows maxRows = 1 then DEFAULT_MAX_ROWS_PER_MESSAGE else allowedRows maxRows) :
    t.Match b := by
  refine ⟨hs.trans hb.symm, ?_⟩
  intro hsingle
  rw [hb, decide_eq_false_iff_not] at hsingle
  rw [hcap, if_neg hsingle, hc]

section incremental

variable (rt : Runtime) (r : IncrementalRead) (maxRows : Nat) (tables : List Pb.DeclaredTable)
  (formats : List Pb.NumberFormat) {dictionary : Bool}

theorem rangeEvents_known (h : Readable dictionary r.cells) :
    Defined IdsKnown [] (rangeEvents rt r maxRows (tableOf dictionary) tables formats) ∧
      (dictionary = false → ∀ i ∈ rangeEvents rt r maxRows (tableOf dictionary) tables formats, PlainItem i) := by
  cases dictionary with
  | true =>
    refine ⟨?_, nofun⟩
    exact (rangeEvents_defined rt r maxRows tables formats (h.borrowed rfl)).mono fun _ _ hrow => hrow.known
  | false =>
    have hplain : RowBatcher.Plain (rangeBatcher maxRows none tables formats) := ⟨rfl, List.forall_mem_nil _⟩
    have hitems := (emitIncremental_plain rt r hplain).events
    exact ⟨defined_of_plain hitems [], fun _ => hitems⟩

/-- A kept cell is not above the header row. -/
theorem headerRow_le {headerRow : Option Nat} {tuples : List (Nat × Nat × Pb.CellData)} {i : Nat}
    (h : i ∈ (kept headerRow tuples).map (·.row)) : ∀ n ∈ headerRow, n ≤ i := by
  intro n hn
  obtain ⟨w, hw, rfl⟩ := List.mem_map.1 h
  obtain ⟨t, ht, rfl⟩ := List.mem_map.1 hw
  have hk := (List.mem_filter.1 ht).2
  simp only [keeps, Option.mem_def.1 hn, Option.any_some, Bool.and_eq_true, Bool.not_eq_true',
    decide_eq_false_iff_not, Nat.not_lt] at hk
  exact hk.1

variable {rt r maxRows tables formats} in
/-- Rows in order are never requeued. -/
theorem not_requeues_of_sorted {strings : Option StringTable} (hrows : ∀ c ∈ r.cells, c.row < 2 ^ 32 - 1)
    (hsorted : r.cells.Pairwise fun c c' => c.row ≤ c'.row) {pre post : List ReadCell} {c : ReadCell} {w : Walk}
    (hsplit : r.cells = pre ++ c :: post) (hreach : Reaches rt r (startWalk r maxRows strings tables formats) pre w) :
    ¬ w.Requeues r.headerRow (w.tuple r c) := by
  rintro ⟨-, ho, hlt, -⟩
  obtain ⟨-, hinv⟩ := head_of_turn hrows hsplit hreach
  have hcur := current_le_of_sorted hsorted hsplit hinv ho
  have hrow : c.row < w.currentRow := hlt
  omega

/-- What the walk has sent on its way, however far it got. -/
theorem walk_stretch {strict : Bool} (h : Readable dictionary r.cells)
    (hstrict : strict = true → r.cells.Pairwise fun c c' => c.row ≤ c'.row) {pre post : List ReadCell} {w : Walk}
    (hsplit : r.cells = pre ++ post)
    (hreach : Reaches rt r (startWalk r maxRows (tableOf dictionary) tables formats) pre w)
    {last : List (Item Pb.RangeEvent)}
    (hev : rangeEvents rt r maxRows (tableOf dictionary) tables formats =
      startedEvent r maxRows (tableOf dictionary) tables formats ::
        ((walkCells rt r (startWalk r maxRows (tableOf dictionary) tables formats) pre).events ++ last)) :
    ∃ rows, Stretch (incrementalTerms maxRows dictionary strict r.headerRow)
      (startWalk r maxRows (tableOf dictionary) tables formats).batcher r.headerRow rows
      (walkCells rt r (startWalk r maxRows (tableOf dictionary) tables formats) pre).events := by
  obtain ⟨hdefined, hplain⟩ := rangeEvents_known rt r maxRows tables formats h
  rw [hev] at hdefined hplain
  have hpre : ∀ c ∈ pre, c.row < 2 ^ 32 - 1 := fun c hc => h.rows c (by rw [hsplit]; exact List.mem_append_left _ hc)
  obtain ⟨new, hs, hinv, hd⟩ := walkCells_inv startWalk_inv hpre hreach
  have hdelivery := hs.delivery.ascending
  rw [List.nil_append] at hdelivery
  rw [List.nil_append] at hd
  refine ⟨new, hs.carried, hs.flat, ?_, fun hdict i hi => hplain hdict i (by simp [hi]), hdelivery, ?_, ?_⟩
  · have hbody := hdefined.tail.of_initial (List.prefix_append _ last)
    simpa [startedEvent, entriesIn] using hbody
  · intro hst
    have hnodup : w.Distinct new := by
      refine hd.2 ⟨startWalk_distinct, fun pre' c post' w₁ hsplit' hreach' => ?_⟩
      have hcells : r.cells = pre' ++ c :: (post' ++ post) := by rw [hsplit, hsplit', List.append_assoc, List.cons_append]
      exact not_requeues_of_sorted h.rows (hstrict hst) hcells hreach'
    have hsent : (new.map (·.rowIndex)).Nodup := by
      unfold Walk.Distinct at hnodup
      rw [List.map_append, List.map_append] at hnodup
      exact hnodup.of_append_left.of_append_right
    exact (hdelivery.and (List.pairwise_map.1 hsent)).imp fun hx => Nat.lt_of_le_of_ne hx.1 hx.2
  · intro n hn row hrow
    rw [List.nil_append] at hinv
    have hmem := (hinv.holds.indices row.rowIndex).1 (List.mem_map_of_mem (by simp [hrow]))
    exact headerRow_le hmem n hn

/-- An incremental stream keeps its contract: strictly, if its rows come in
order. -/
theorem rangeEvents_takes {strict : Bool} (h : Readable dictionary r.cells)
    (hstrict : strict = true → r.cells.Pairwise fun c c' => c.row ≤ c'.row) :
    Takes (Receipt.take (RangeClient.take (incrementalTerms maxRows dictionary strict r.headerRow))) ⟨.fresh, false⟩
      (rangeEvents rt r maxRows (tableOf dictionary) tables formats) RangeClient.MayEnd := by
  have hlimits := startWalk_limits r maxRows (tableOf dictionary) tables formats
  have ht : (incrementalTerms maxRows dictionary strict r.headerRow).Match
      (startWalk r maxRows (tableOf dictionary) tables formats).batcher := match_of_limits rfl rfl hlimits.1 hlimits.2
  cases hw : (walkCells rt r (startWalk r maxRows (tableOf dictionary) tables formats) r.cells).result with
  | none =>
    obtain ⟨pre, c, post, w, hsplit, hreach, hlate⟩ := stops_tooLate h.rows hw
    obtain ⟨-, hev⟩ := rangeEvents_tooLate h.rows hsplit hreach hlate
    obtain ⟨rows, hstretch⟩ := walk_stretch rt r maxRows tables formats h hstrict hsplit hreach hev
    rw [hev]
    exact hstretch.takes_whole ht (.inr ⟨_, rfl⟩)
  | some w =>
    cases hfail : r.failure with
    | some e =>
      have hev : rangeEvents rt r maxRows (tableOf dictionary) tables formats =
          startedEvent r maxRows (tableOf dictionary) tables formats ::
            ((walkCells rt r (startWalk r maxRows (tableOf dictionary) tables formats) r.cells).events ++
              [.event (readError r e)]) := by
        rw [rangeEvents_eq, hw, hfail]
      obtain ⟨rows, hstretch⟩ :=
        walk_stretch rt r maxRows tables formats h hstrict (List.append_nil _).symm hw hev
      rw [hev]
      exact hstretch.takes_whole ht (.inr ⟨_, rfl⟩)
    | none =>
      obtain ⟨rest, all, hev, hc, hflat, hasc, hholds, hn⟩ := rangeEvents_through h.rows hfail hw
      obtain ⟨hdefined, hplain⟩ := rangeEvents_known rt r maxRows tables formats h
      rw [hev] at hdefined hplain
      have hstretch : Stretch (incrementalTerms maxRows dictionary strict r.headerRow)
          (startWalk r maxRows (tableOf dictionary) tables formats).batcher r.headerRow all rest := by
        refine ⟨hc, hflat, ?_, fun hdict i hi => hplain hdict i (List.mem_cons_of_mem _ hi), hasc, ?_, ?_⟩
        · simpa [startedEvent, entriesIn] using hdefined.tail
        · intro hst
          have hnodup := hn.2 fun pre c post w₁ hsplit hreach =>
            not_requeues_of_sorted h.rows (hstrict hst) hsplit hreach
          exact (hasc.and (List.pairwise_map.1 hnodup)).imp fun hx => Nat.lt_of_le_of_ne hx.1 hx.2
        · intro n hn' row hrow
          exact headerRow_le ((hholds.indices row.rowIndex).1 (List.mem_map_of_mem hrow)) n hn'
      rw [hev, ← List.append_nil rest]
      exact hstretch.takes_whole ht (.inl rfl)

end incremental

/-! ## The buffered stream -/

theorem denseRows_plain {is1904 : Bool} {pad row : Nat} {rows : List (List Calamine.Data)} :
    ∀ x ∈ denseRows is1904 pad row rows, x.Plain := by
  induction rows generalizing row with
  | nil => exact List.forall_mem_nil _
  | cons data rows ih =>
    rw [denseRows]
    split
    · exact ih
    · refine List.forall_mem_cons.2 ⟨?_, ih⟩
      intro v hv id
      rcases List.mem_append.1 hv with hv | hv
      · rw [List.eq_of_mem_replicate hv]
        exact plain_empty id
      · obtain ⟨d, -, rfl⟩ := List.mem_map.1 hv
        cases d <;> simp [dataCell, Convert.cellData, Convert.dataValue]

/-- Items that carry rows alone are plain if the rows are. -/
theorem plainItem_of_rowItem {items : List (Item Pb.RangeEvent)} (hitems : ∀ i ∈ items, RowItem i)
    (hrows : ∀ row ∈ Grid.rowsIn (flatten items), row.Plain) : ∀ i ∈ items, PlainItem i := by
  intro i hi
  obtain ⟨before, after, rfl⟩ := List.append_of_mem hi
  have hone : ∀ e, i = .event e → ∀ row ∈ Grid.rowsIn (rowEvents e), row.Plain := by
    rintro e rfl row hrow
    apply hrows row
    simp [hrow]
  cases i with
  | status s => exact (hitems _ hi).elim
  | event e => cases e with
    | row row => exact hone _ rfl row (List.mem_singleton_self row)
    | rows rows => exact fun row hrow => hone _ rfl row (by rw [rowEvents, Grid.rowsIn_map_row]; exact hrow)
    | stringTable chunk => exact (hitems _ hi).elim
    | _ => trivial

/-- The row a range starts at, as its header says. -/
def declaredStart (header : Pb.RangeStarted) : Option Nat := (header.dimensions.bind (·.start)).map (·.row)

/-- The terms of a request, with the row its stream opens at. -/
def RangeRequest.terms (req : RangeRequest) (strict : Bool) (opening : Pb.RangeStarted → Option Nat) : Terms :=
  { single := decide (allowedRows req.maxRowsPerMessage = 1), cap := allowedRows req.maxRowsPerMessage,
    dictionary := req.useStringTable, strict, opening }

/-- The header of a range says where it starts. -/
theorem declaredStart_rangeHeader (s : Setup) (sheetName : String) {range : Calamine.Range Calamine.Data}
    (h : range.Built) (merged : List Pb.Dimensions) :
    declaredStart (s.batcher.header (rangeHeader sheetName range merged)) = range.start.map (·.1) := by
  rcases h with ⟨hnone, -⟩ | ⟨lo, hi, hd⟩
  · simp [declaredStart, RowBatcher.header, rangeHeader, hnone]
  · simp [declaredStart, RowBatcher.header, rangeHeader, hd.start, hd.last, Convert.cellPosition]

theorem readRows_start {range : Calamine.Range Calamine.Data} {is1904 : Bool} :
    ∀ n ∈ range.start.map (·.1), ∀ row ∈ range.readRows is1904, n ≤ row.rowIndex := by
  unfold Calamine.Range.readRows
  cases range.start with
  | none => exact fun _ hn => by cases hn
  | some start =>
    rintro n ⟨⟩ row hrow
    exact (denseRows_index hrow).1

theorem readRows_plain {range : Calamine.Range Calamine.Data} {is1904 : Bool} :
    ∀ row ∈ range.readRows is1904, row.Plain := by
  unfold Calamine.Range.readRows
  cases range.start with
  | none => exact List.forall_mem_nil _
  | some start => exact denseRows_plain

/-- A buffered stream keeps its contract, strictly. -/
theorem emitRange_takes (rt : Runtime) (req : RangeRequest) (strict : Bool) (entry : EntryView) (sheetName : String)
    {range : Calamine.Range Calamine.Data} (h : range.Readable) (merged : List Pb.Dimensions) (is1904 : Bool)
    (maxDenseCells : Nat) :
    Takes (Receipt.take (RangeClient.take (req.terms strict declaredStart))) ⟨.fresh, false⟩
      ((req.setup rt entry sheetName).buffered sheetName range merged is1904 maxDenseCells) RangeClient.MayEnd := by
  rcases emitRange_cases (req.setup rt entry sheetName) sheetName h merged is1904 maxDenseCells with
    ⟨status, hev⟩ | ⟨rest, hev, hcarried, hitems, hin, hflat⟩
  · rw [hev]
    exact takes_refused status ⟨.inr (.inr rfl), rfl⟩
  · have ht : (req.terms strict declaredStart).Match (req.setup rt entry sheetName).batcher :=
      match_of_limits rfl rfl (rangeBatcher_single ..) (rangeBatcher_cap ..)
    have hrows : Grid.rowsIn (flatten rest) = range.readRows is1904 := by rw [hflat, Grid.rowsIn_announce]
    have hplain := plainItem_of_rowItem hitems (hrows ▸ readRows_plain)
    have hstretch : Stretch (req.terms strict declaredStart) (req.setup rt entry sheetName).batcher
        ((req.terms strict declaredStart).opening
          ((req.setup rt entry sheetName).batcher.header (rangeHeader sheetName range merged)))
        (range.readRows is1904) rest := by
      rw [show (req.terms strict declaredStart).opening _ = _ from
        declaredStart_rangeHeader (req.setup rt entry sheetName) sheetName h.built merged]
      exact ⟨hcarried, hflat, defined_of_plain hplain [], fun _ => hplain, hin.ascending.imp Nat.le_of_lt,
        fun _ => hin.ascending, readRows_start⟩
    rw [hev, ← List.append_nil rest]
    exact hstretch.takes_whole ht (.inl rfl)

/-! ## The body -/

/-- The stream's numbers hold what is read; `strict` asks for rows in order. -/
def Reading.Readable (dictionary strict : Bool) : Reading → Prop
  | .cells read => GrpcCalamine.Readable dictionary read.cells ∧ (strict = true → read.Sorted)
  | .dense _ range => range.Readable

theorem Reading.Readable.counted {dictionary strict : Bool} {reading : Reading}
    (h : reading.Readable dictionary strict) : reading.Counted := by
  cases reading with
  | cells read => exact h.1.rows
  | dense merged range => exact h

/-- The row a stream of this workbook opens at: the header row selected, or
the first row of a range read whole. -/
def OpensAt (entry : EntryView) (opening : Pb.RangeStarted → Option Nat) : Prop :=
  opening = (fun _ => entry.selectedRow) ∨ opening = declaredStart

section body

variable (rt : Runtime) {entry : EntryView} {req : RangeRequest} {strict : Bool}

theorem runStreamWorksheetRange_takes (maxDenseCells : Nat)
    (h : ∀ name reading, req.reading entry = some (name, reading) → reading.Readable req.useStringTable strict) :
    ∃ opening, OpensAt entry opening ∧ Takes (Receipt.take (RangeClient.take (req.terms strict opening))) ⟨.fresh, false⟩
      (runStreamWorksheetRange rt entry req maxDenseCells).events RangeClient.MayEnd := by
  rcases runStreamWorksheetRange_cases rt entry req maxDenseCells with
    ⟨status, hev⟩ | ⟨kind, err, hev, -⟩ | ⟨name, reading, hreading, hev⟩
  · rw [hev]
    exact ⟨declaredStart, .inr rfl, takes_refused status ⟨.inr (.inr rfl), rfl⟩⟩
  · rw [hev]
    exact ⟨declaredStart, .inr rfl, takes_failed _ kind err⟩
  · rw [hev]
    have hreadable := h name reading hreading
    cases reading with
    | cells read =>
      have hrow := RangeRequest.reading_headerRow hreading
      refine ⟨fun _ => entry.selectedRow, .inl rfl, ?_⟩
      rw [← hrow]
      exact rangeEvents_takes rt read _ _ _ hreadable.1 hreadable.2
    | dense merged range =>
      exact ⟨declaredStart, .inr rfl, emitRange_takes rt req strict entry name hreadable merged entry.is1904 maxDenseCells⟩

/-- Whatever the interleaving, and however far the stream has come, what the
consumer of a range stream has received keeps the contract of its request. A
stream that ends with no status tells the whole sheet, or with a terminal error
that the sheet cannot be read through. -/
theorem range_contract {maxDenseCells : Nat} {stale : Option Status} {s : Served Pb.RangeEvent}
    (hreach : Reached (runStreamWorksheetRange rt entry req maxDenseCells) stale s)
    (h : ∀ name reading, req.reading entry = some (name, reading) → reading.Readable req.useStringTable strict) :
    (∃ opening, OpensAt entry opening ∧
      Takes (Receipt.take (RangeClient.take (req.terms strict opening))) ⟨.fresh, false⟩ s.received fun r =>
        s.consumer = .ended → RangeClient.MayEnd r) ∧
      (s.consumer = .ended → Answered entry req rt s.received) := by
  have hstops := runStreamWorksheetRange_stops rt entry req maxDenseCells
  obtain ⟨opening, hopens, hbody⟩ := runStreamWorksheetRange_takes rt maxDenseCells h
  have hanswers := runStreamWorksheetRange_answers rt maxDenseCells fun name reading hr => (h name reading hr).counted
  exact ⟨⟨opening, hopens, served_takes hstops hbody hreach⟩, served_ends hstops hanswers hreach⟩

end body

/-! ## A run to the end -/

section
variable {T : Type}

/-- A consumer that takes each event as it comes takes them all. -/
theorem runs_through {p : Stream T Unit} (hev : ∀ i ∈ p.events, i.isEvent = true) {s : Served T}
    (hp : s.parser = .running p) (hc : s.consumer = .reading) (hq : s.queue = []) :
    Relation.ReflTransGen Step s
      { s with parser := .running (.done ()), tried := s.tried ++ p.events, received := s.received ++ p.events } := by
  induction p generalizing s with
  | done u =>
    obtain ⟨parser, reason, queue, supervisor, consumer, received, slots, tried, timedOut⟩ := s
    obtain rfl : parser = .running (.done u) := hp
    rw [Emit.events_done, List.append_nil, List.append_nil]
  | send i k ih =>
    obtain ⟨hi, hrest⟩ := List.forall_mem_cons.1 hev
    have haccept := Step.accept hp hc (by simp [hq, STREAM_CHANNEL_CAPACITY])
    have htake := @Step.take T { s with parser := .running (k true), queue := s.queue ++ [i], tried := s.tried ++ [i] }
      i [] hc (by rw [hq]; rfl)
    have hreading : Consumer.after i = .reading := by
      cases i with
      | event e => rfl
      | status st => cases hi
    have hnext := ih true hrest (s := { s with
      parser := .running (k true), queue := [], tried := s.tried ++ [i], received := s.received ++ [i],
      consumer := Consumer.after i }) rfl hreading rfl
    refine .head haccept (.head htake ?_)
    simpa [hreading, hc, hq, List.append_assoc] using hnext

/-- The run in which nothing goes wrong. -/
theorem reached_end (body : Stream T Unit) (hev : ∀ i ∈ body.events, i.isEvent = true) (stale : Option Status) :
    ∃ s, Reached body stale s ∧ s.consumer = .ended ∧ s.received = body.events := by
  have hthrough := runs_through hev (s := { Served.start body stale with parser := .running body, reason := none })
    rfl rfl rfl
  refine ⟨_, .tail (.tail (.tail ((Relation.ReflTransGen.single (.enter rfl)).trans hthrough) (.finish rfl))
    (.join rfl rfl)) (.seeEnd rfl rfl rfl), rfl, rfl⟩

end

/-- A sheet of two rows with space between them, in dictionary mode. -/
def cornersEntry : EntryView where
  format := .xlsx
  sheetNames := ["Sheet1"]
  tables _ := none
  numberFormats := []
  is1904 := false
  headerRow := none
  reader := .ok {
    kind := .xlsx
    mergeCellsBySheetName _ := .ok []
    worksheetCellsReader _ := .ok {
      dimensions := ⟨(0, 0), (2, 0)⟩
      cells := (sharedRead.cells, none)
      cellsWithFormula := (sharedRead.cells, none)
      formulas := ([], none) }
    worksheetRange _ := .error "no such sheet"
    worksheetFormula _ := .error "no such sheet"
    vbaProject := .ok none
    pictures := [] }

def cornersRequest : RangeRequest := ⟨some (some (.sheetIndex 0)), 0, true, false⟩

theorem cornersEntry_readable {name : String} {reading : Reading}
    (h : cornersRequest.reading cornersEntry = some (name, reading)) : reading.Readable true true := by
  cases h
  have hread : Readable true sharedRead.cells := ⟨by decide, fun _ => ⟨by decide, by decide⟩⟩
  have hsorted : sharedRead.Sorted := by decide
  exact ⟨hread, fun _ => hsorted⟩

theorem range_contract_corners :
    ∃ s, Reached (runStreamWorksheetRange insertionRuntime cornersEntry cornersRequest 0) none s ∧
      s.consumer = .ended ∧ Answered cornersEntry cornersRequest insertionRuntime s.received ∧ ∃ opening,
        Takes (Receipt.take (RangeClient.take (cornersRequest.terms true opening))) ⟨.fresh, false⟩ s.received
          RangeClient.MayEnd := by
  obtain ⟨s, hreach, hended, -⟩ := reached_end
    (runStreamWorksheetRange insertionRuntime cornersEntry cornersRequest 0) (by decide) none
  obtain ⟨⟨opening, -, htakes⟩, hanswered⟩ :=
    range_contract insertionRuntime hreach fun _ _ h => cornersEntry_readable h
  exact ⟨s, hreach, hended, hanswered hended, opening, htakes.mono fun c hc => hc hended⟩

end GrpcCalamine
