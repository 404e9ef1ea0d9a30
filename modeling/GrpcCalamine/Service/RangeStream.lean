import GrpcCalamine.Service.Walk
/-!
# The incremental range stream, whole

What `emit_incremental` sends over all its cells, every send taken. The
reference is the dense reading of the kept cells, announced row by row. The
stream is the reference unless a turn requeued a row (`stream_exact_iff`),
which rows in order never do (`in_order_streams_agree`), and whatever the
order of the cells it loses none of them silently (`no_cell_lost`).
-/

namespace GrpcCalamine

open Grid (announce expectedAfter rowsIn)
open RowBatcher (Delivery Sends Carried AllCarried)

/-- The sequence of rows and gaps the sheet stands for. -/
def reference (r : IncrementalRead) (strings : Option StringTable) : List (Grid.Announced Pb.WorksheetRow) :=
  announce (·.rowIndex) r.headerRow
    ((Grid.rows Convert.emptyCellData (kept r.headerRow (yields r.is1904 strings r.cells))).map
      fun x => ⟨x.1, x.2⟩)

/-- How many rows a `rows` event may hold. -/
def allowedRows (maxRowsPerMessage : Nat) : Nat :=
  if maxRowsPerMessage = 0 then DEFAULT_MAX_ROWS_PER_MESSAGE else min maxRowsPerMessage MAX_ROWS_PER_MESSAGE_CEILING

/-- The error that reports a cell at `row`, `col` as too late. -/
def unsortedError (rt : Runtime) (r : IncrementalRead) (row col : Nat) : Pb.RangeEvent :=
  .error { error := some (Convert.calamineError r.kind (unsortedMessage rt.fmt r.header.sheetName row col)),
           terminal := true }

/-- The error that reports what the reader failed with. -/
def readError (r : IncrementalRead) (e : String) : Pb.RangeEvent :=
  .error { error := some (Convert.calamineError r.kind e), terminal := true }

/-- A runtime whose clock stands still and which sorts by insertion. -/
def insertionRuntime : Runtime where
  fmt := ⟨fun _ => true⟩
  now := fun _ => 0
  sort := fun rows => rows.insertionSort fun x y => x.rowIndex ≤ y.rowIndex
  sort_perm := fun rows => List.perm_insertionSort _ rows
  sort_sorted := fun rows => by
    have : Std.Total fun x y : Pb.WorksheetRow => x.rowIndex ≤ y.rowIndex := ⟨fun x y => Nat.le_total _ _⟩
    have : IsTrans Pb.WorksheetRow fun x y => x.rowIndex ≤ y.rowIndex := ⟨fun _ _ _ => Nat.le_trans⟩
    exact List.pairwise_map.2 (List.pairwise_insertionSort _ rows)

/-- A sheet of integers, one to a cell. -/
def numbersRead (headerRow : Option Nat) (cells : List (Nat × Nat × Int)) : IncrementalRead :=
  { header := { sheetName := "Sheet1", dimensions := none, totalCells := 0, mergedRegions := [], tables := [],
                numberFormats := [] },
    dims := ⟨(0, 0), (0, 0)⟩, headerRow, kind := .xlsx, is1904 := false,
    cells := cells.map fun c => ⟨c.1, c.2.1, .int c.2.2, none, none⟩, failure := none }

section
variable (rt : Runtime) (r : IncrementalRead) (maxRows : Nat) (strings : Option StringTable)
  (tables : List Pb.DeclaredTable) (formats : List Pb.NumberFormat)

/-- The walk as the stream starts it. -/
def startWalk : Walk := Walk.start r (rangeBatcher maxRows strings tables formats)

/-- The header event of the stream. -/
def startedEvent : Item Pb.RangeEvent :=
  .event (.started ((rangeBatcher maxRows strings tables formats).header r.header))

/-- The whole stream, every send taken. -/
def rangeEvents : List (Item Pb.RangeEvent) :=
  (emitIncremental rt r (rangeBatcher maxRows strings tables formats)).events

/-- What has been sent by the time the walk has gone over `pre`. -/
def sentAfter (pre : List ReadCell) : List Pb.WorksheetRow :=
  rowsIn (flatten (walkCells rt r (startWalk r maxRows strings tables formats) pre).events)

end

section
variable {rt : Runtime} {r : IncrementalRead} {maxRows : Nat} {strings : Option StringTable}
  {tables : List Pb.DeclaredTable} {formats : List Pb.NumberFormat}

theorem startWalk_strings : (startWalk r maxRows strings tables formats).batcher.strings = strings := by
  unfold startWalk Walk.start
  cases r.headerRow <;> rfl

variable (maxRows strings tables formats) in
theorem rangeBatcher_cap : (rangeBatcher maxRows strings tables formats).cap =
    if allowedRows maxRows = 1 then DEFAULT_MAX_ROWS_PER_MESSAGE else allowedRows maxRows := by
  simp only [rangeBatcher, RowBatcher.new, allowedRows, beq_iff_eq]
  rfl

variable (maxRows strings tables formats) in
theorem rangeBatcher_single :
    (rangeBatcher maxRows strings tables formats).single = decide (allowedRows maxRows = 1) := by
  simp only [rangeBatcher, RowBatcher.new, allowedRows]
  rfl

theorem allowedRows_pos (maxRows : Nat) : 0 < allowedRows maxRows := by
  unfold allowedRows DEFAULT_MAX_ROWS_PER_MESSAGE MAX_ROWS_PER_MESSAGE_CEILING
  split <;> omega

theorem startWalk_inv : (startWalk r maxRows strings tables formats).Inv r.headerRow [] [] := by
  have hroom : 0 < (rangeBatcher maxRows strings tables formats).cap := by
    rw [rangeBatcher_cap]
    have := allowedRows_pos maxRows
    split
    · exact Nat.succ_pos _
    · exact this
  unfold startWalk Walk.start
  cases r.headerRow with
  | none => exact ⟨⟨rfl, rfl, .nil, nofun, hroom⟩, fun _ => ⟨rfl, rfl, rfl⟩, nofun, .nil, nofun⟩
  | some n => exact ⟨⟨rfl, rfl, .nil, nofun, hroom⟩, fun _ => ⟨rfl, rfl, rfl⟩, nofun, .nil, nofun⟩

theorem startWalk_distinct : (startWalk r maxRows strings tables formats).Distinct [] := by
  unfold startWalk Walk.start
  cases r.headerRow <;> simp [Walk.Distinct, Walk.opened, rangeBatcher, RowBatcher.new, RowBatcher.openAt]

variable (r maxRows strings tables formats) in
/-- The limits the walk starts with. -/
theorem startWalk_limits :
    (startWalk r maxRows strings tables formats).batcher.single = decide (allowedRows maxRows = 1) ∧
      (startWalk r maxRows strings tables formats).batcher.cap =
        if allowedRows maxRows = 1 then DEFAULT_MAX_ROWS_PER_MESSAGE else allowedRows maxRows := by
  rw [← rangeBatcher_single maxRows strings tables formats, ← rangeBatcher_cap maxRows strings tables formats]
  unfold startWalk Walk.start
  cases r.headerRow <;> exact ⟨rfl, rfl⟩

/-- The stream is its header, what the walk sends, and how it ends. -/
theorem rangeEvents_eq :
    rangeEvents rt r maxRows strings tables formats = startedEvent r maxRows strings tables formats ::
      ((walkCells rt r (startWalk r maxRows strings tables formats) r.cells).events ++
        match (walkCells rt r (startWalk r maxRows strings tables formats) r.cells).result with
        | none => []
        | some w =>
          match r.failure with
          | some e => [.event (readError r e)]
          | none => (finish rt r w).events) := by
  simp only [rangeEvents, emitIncremental, sendEvent, Emit.ask_bind, Emit.events_send, if_true, Emit.events_bind,
    startedEvent, startWalk]
  cases (walkCells rt r (Walk.start r (rangeBatcher maxRows strings tables formats)) r.cells).result with
  | none => rfl
  | some w => cases r.failure <;> rfl

/-- What was sent so far, read off the events. -/
theorem sentAfter_eq {pre : List ReadCell} {new : List Pb.WorksheetRow} {b : RowBatcher}
    (h : Sends r.headerRow [] new (startWalk r maxRows strings tables formats).batcher b
      (walkCells rt r (startWalk r maxRows strings tables formats) pre).events) :
    sentAfter rt r maxRows strings tables formats pre = new := by
  rw [sentAfter, h.flat, Grid.rowsIn_announce]

/-- The head of a turn of the stream: what was sent, and the invariant. -/
theorem head_of_turn {pre post : List ReadCell} {w : Walk} (hrows : ∀ c ∈ r.cells, c.row < 2 ^ 32 - 1)
    (hsplit : r.cells = pre ++ post) (hreach : Reaches rt r (startWalk r maxRows strings tables formats) pre w) :
    Sends r.headerRow [] (sentAfter rt r maxRows strings tables formats pre)
        (startWalk r maxRows strings tables formats).batcher w.batcher
        (walkCells rt r (startWalk r maxRows strings tables formats) pre).events ∧
      w.Inv r.headerRow (kept r.headerRow (yields r.is1904 strings pre))
        (sentAfter rt r maxRows strings tables formats pre) := by
  have hpre : ∀ c ∈ pre, c.row < 2 ^ 32 - 1 := by
    intro c hc
    apply hrows c
    rw [hsplit]
    exact List.mem_append_left _ hc
  obtain ⟨new, hs, hinv, -⟩ := walkCells_inv startWalk_inv hpre hreach
  rw [List.nil_append, List.nil_append, startWalk_strings] at hinv
  rw [sentAfter_eq hs]
  exact ⟨hs, hinv⟩

/-! ## A cell too late -/

/-- A stream that does not get through its cells ends at one that comes too late. -/
theorem stops_tooLate (hrows : ∀ c ∈ r.cells, c.row < 2 ^ 32 - 1)
    (hw : (walkCells rt r (startWalk r maxRows strings tables formats) r.cells).result = none) :
    ∃ pre c post w, r.cells = pre ++ c :: post ∧ Reaches rt r (startWalk r maxRows strings tables formats) pre w ∧
      TooLate r.headerRow (sentAfter rt r maxRows strings tables formats pre) (w.tuple r c) := by
  obtain ⟨pre, c, post, w, new, hsplit, hreach, hs, hlate⟩ := walkCells_none startWalk_inv hrows hw
  refine ⟨pre, c, post, w, hsplit, hreach, ?_⟩
  rwa [sentAfter_eq hs]

/-- The stream up to a cell that comes too late, and the error it ends with. -/
theorem rangeEvents_tooLate {pre post : List ReadCell} {c : ReadCell} {w : Walk}
    (hrows : ∀ c ∈ r.cells, c.row < 2 ^ 32 - 1) (hsplit : r.cells = pre ++ c :: post)
    (hreach : Reaches rt r (startWalk r maxRows strings tables formats) pre w)
    (hlate : TooLate r.headerRow (sentAfter rt r maxRows strings tables formats pre) (w.tuple r c)) :
    (walkCells rt r (startWalk r maxRows strings tables formats) r.cells).result = none ∧
      rangeEvents rt r maxRows strings tables formats = startedEvent r maxRows strings tables formats ::
        ((walkCells rt r (startWalk r maxRows strings tables formats) pre).events ++
          [.event (unsortedError rt r c.row c.col)]) := by
  obtain ⟨-, hinv⟩ := head_of_turn hrows hsplit hreach
  have hturn := turn_tooLate rt hinv hlate
  have hnone : (turn rt r w c).result = none := by rw [hturn]; rfl
  obtain ⟨hres, hev⟩ := walkCells_append hreach (c :: post)
  obtain ⟨hres', hev'⟩ := walkCells_cons_none hnone post
  rw [← hsplit] at hres hev
  refine ⟨hres.trans hres', ?_⟩
  rw [rangeEvents_eq, hres, hres', hev, hev', hturn, List.append_nil]
  rfl

/-! ## Through to the end -/

/-- Everything a run has sent when its cells are through: the kept cells, each
row index once unless a turn requeued one. -/
theorem rangeEvents_through {w : Walk} (hrows : ∀ c ∈ r.cells, c.row < 2 ^ 32 - 1) (hfail : r.failure = none)
    (hw : Reaches rt r (startWalk r maxRows strings tables formats) r.cells w) :
    ∃ rest all,
      rangeEvents rt r maxRows strings tables formats = startedEvent r maxRows strings tables formats :: rest ∧
      AllCarried (startWalk r maxRows strings tables formats).batcher rest ∧
      flatten rest = announce (·.rowIndex) r.headerRow all ∧
      all.Pairwise (fun x y => x.rowIndex ≤ y.rowIndex) ∧
      Holds (kept r.headerRow (yields r.is1904 strings r.cells)) all ∧
      ((all.map (·.rowIndex)).Nodup ↔
        ∀ pre c post w₁, r.cells = pre ++ c :: post → Reaches rt r (startWalk r maxRows strings tables formats) pre w₁ →
          ¬ w₁.Requeues r.headerRow (w₁.tuple r c)) := by
  obtain ⟨new, hs, hinv, hd⟩ := walkCells_inv startWalk_inv hrows hw
  obtain ⟨b', last, hp, hs'⟩ := finish_spec rt hinv
  have hall := hs.trans hs'
  have hperm : (new ++ last).Perm (w.opened ++ new ++ w.batcher.rows) := by
    apply (hp.append_left new).trans
    rw [← List.append_assoc]
    exact List.perm_append_comm.append_right _
  refine ⟨_, new ++ last, rangeEvents_eq, ?_, ?_, hall.delivery.ascending, ?_, ?_⟩
  · rw [hw, hfail]
    exact hall.carried
  · rw [hw, hfail]
    exact hall.flat
  · rw [List.nil_append, startWalk_strings] at hinv
    exact hinv.holds.perm hperm
  · rw [(hperm.map _).nodup_iff]
    exact hd.trans (and_iff_right startWalk_distinct)

/-- Rows in order, none twice, are the reference. -/
theorem announce_eq_reference {all : List Pb.WorksheetRow}
    (hasc : all.Pairwise fun x y => x.rowIndex ≤ y.rowIndex)
    (hholds : Holds (kept r.headerRow (yields r.is1904 strings r.cells)) all) :
    announce (·.rowIndex) r.headerRow all = reference r strings ↔ (all.map (·.rowIndex)).Nodup := by
  constructor
  · intro h
    have hrows := congrArg rowsIn h
    simp only [reference, Grid.rowsIn_announce] at hrows
    rw [hrows, List.map_map]
    have hindex : (Pb.WorksheetRow.rowIndex ∘ fun x : Nat × List Pb.CellData => ⟨x.1, x.2⟩) = Prod.fst := rfl
    rw [hindex, Grid.rows, List.map_map]
    have hid : ((Prod.fst : Nat × List Pb.CellData → Nat) ∘ fun i =>
      (i, Grid.denseRow Convert.emptyCellData (kept r.headerRow (yields r.is1904 strings r.cells)) i)) = id := rfl
    rw [hid, List.map_id]
    exact (Grid.populated_ascending _).imp (fun h => Nat.ne_of_lt h)
  · intro hn
    have hlt : ((all.map fun row => (row.rowIndex, row.values)).map Prod.fst).Pairwise (· < ·) := by
      rw [List.map_map]
      exact List.pairwise_map.2 ((hasc.and (List.pairwise_map.1 hn)).imp fun h => lt_of_le_of_ne h.1 h.2)
    have hrows := Grid.eq_rows Convert.emptyCellData _ _ hlt
      (fun i => by rw [List.map_map]; exact hholds.indices i)
      (fun x hx => by
        obtain ⟨row, hr, rfl⟩ := List.mem_map.1 hx
        exact hholds.exact hn row hr)
    rw [reference, ← hrows, List.map_map]
    exact congrArg _ (List.map_id all).symm

variable (rt r maxRows strings tables formats) in
/-- The stream that ends cleanly is the reference, announced with well-formed
carriers, exactly when no turn requeued a row: found one at a queued index that
is past the row queued last, so that the ascending path of `push` took it for
new. -/
theorem stream_exact_iff (hrows : ∀ c ∈ r.cells, c.row < 2 ^ 32 - 1)
    (hclean : ∀ e, Pb.RangeEvent.error e ∉ eventsOf (rangeEvents rt r maxRows strings tables formats)) :
    ∃ rest, rangeEvents rt r maxRows strings tables formats = startedEvent r maxRows strings tables formats :: rest ∧
      AllCarried (startWalk r maxRows strings tables formats).batcher rest ∧
      (flatten rest = reference r strings ↔
        ∀ pre c post w, r.cells = pre ++ c :: post → Reaches rt r (startWalk r maxRows strings tables formats) pre w →
          ¬ w.Requeues r.headerRow (w.tuple r c)) := by
  cases hw : (walkCells rt r (startWalk r maxRows strings tables formats) r.cells).result with
  | none =>
    -- A cell came too late, and the stream ended with an error.
    exfalso
    obtain ⟨pre, c, post, w₁, hsplit, hreach, hlate⟩ := stops_tooLate hrows hw
    obtain ⟨-, hev⟩ := rangeEvents_tooLate hrows hsplit hreach hlate
    apply hclean { error := some (Convert.calamineError r.kind
      (unsortedMessage rt.fmt r.header.sheetName c.row c.col)), terminal := true }
    rw [hev]
    simp [startedEvent, unsortedError]
  | some w =>
    cases hfail : r.failure with
    | some e =>
      refine absurd ?_ (hclean { error := some (Convert.calamineError r.kind e), terminal := true })
      rw [rangeEvents_eq, hw, hfail]
      simp [startedEvent, readError]
    | none =>
      obtain ⟨rest, all, hev, hc, hflat, hasc, hholds, hn⟩ := rangeEvents_through hrows hfail hw
      exact ⟨rest, hev, hc, by rw [hflat, announce_eq_reference hasc hholds, hn]⟩

/-- Row 3 comes, row 5, then row 1 late, and row 3 once more. -/
def revisitedRead : IncrementalRead := numbersRead none [(3, 0, 1), (5, 0, 2), (1, 0, 3), (3, 0, 4)]

def Pb.RangeEvent.isError : Pb.RangeEvent → Bool
  | .error _ => true
  | .started _ | .row _ | .rows _ | .stringTable _ | .rowGap _ _ => false

theorem revisitedRead_clean (e : Pb.StreamError) :
    Pb.RangeEvent.error e ∉ eventsOf (rangeEvents insertionRuntime revisitedRead 0 none [] []) := by
  intro he
  have hno : (eventsOf (rangeEvents insertionRuntime revisitedRead 0 none [] [])).any Pb.RangeEvent.isError = false := by
    decide
  exact List.any_eq_false.1 hno _ he rfl

/-- Row 3 is queued, late row 1 is queued behind it, and row 3, revisited, is
past row 1: it is queued and sent a second time. -/
theorem revisited_row_sent_twice :
    (∀ c ∈ revisitedRead.cells, c.row < 2 ^ 32 - 1) ∧
      (∀ e, Pb.RangeEvent.error e ∉ eventsOf (rangeEvents insertionRuntime revisitedRead 0 none [] [])) ∧
      (rowsIn (flatten (rangeEvents insertionRuntime revisitedRead 0 none [] []))).map (·.rowIndex) = [1, 3, 3, 5] ∧
      flatten (rangeEvents insertionRuntime revisitedRead 0 none [] []) ≠ reference revisitedRead none :=
  ⟨by decide, revisitedRead_clean, by decide, by decide⟩

theorem stream_exact_iff_revisited :
    ∃ rest, rangeEvents insertionRuntime revisitedRead 0 none [] [] = startedEvent revisitedRead 0 none [] [] :: rest ∧
      AllCarried (startWalk revisitedRead 0 none [] []).batcher rest ∧
      (flatten rest = reference revisitedRead none ↔
        ∀ pre c post w, revisitedRead.cells = pre ++ c :: post →
          Reaches insertionRuntime revisitedRead (startWalk revisitedRead 0 none [] []) pre w →
            ¬ w.Requeues revisitedRead.headerRow (w.tuple revisitedRead c)) :=
  stream_exact_iff insertionRuntime revisitedRead 0 none [] [] (by decide) revisitedRead_clean

/-! ## Rows in order -/

theorem yields_row_mem {is1904 : Bool} {table : Option StringTable} {cells : List ReadCell}
    {t : Nat × Nat × Pb.CellData} (h : t ∈ yields is1904 table cells) : ∃ c ∈ cells, c.row = t.1 := by
  induction cells generalizing table with
  | nil => cases h
  | cons c cells ih =>
    rcases List.mem_cons.1 h with rfl | h
    · exact ⟨c, List.mem_cons_self, rfl⟩
    · obtain ⟨c', hc, he⟩ := ih h
      exact ⟨c', List.mem_cons_of_mem _ hc, he⟩

theorem kept_row_mem {headerRow : Option Nat} {is1904 : Bool} {table : Option StringTable} {cells : List ReadCell}
    {i : Nat} (h : i ∈ (kept headerRow (yields is1904 table cells)).map (·.row)) : ∃ c ∈ cells, c.row = i := by
  obtain ⟨k, hk, rfl⟩ := List.mem_map.1 h
  obtain ⟨t, ht, rfl⟩ := List.mem_map.1 hk
  exact yields_row_mem (List.mem_filter.1 ht).1

/-- When rows come in order, no cell is behind the row under construction. -/
theorem current_le_of_sorted {pre post : List ReadCell} {c : ReadCell} {w : Walk}
    {new : List Pb.WorksheetRow} (hsorted : r.cells.Pairwise fun c c' => c.row ≤ c'.row)
    (hsplit : r.cells = pre ++ c :: post)
    (hinv : w.Inv r.headerRow (kept r.headerRow (yields r.is1904 strings pre)) new) (ho : w.isOpen = true) :
    w.currentRow ≤ c.row := by
  have hmem : w.currentRow ∈ (kept r.headerRow (yields r.is1904 strings pre)).map (·.row) := by
    apply (hinv.holds.indices _).1
    simp [Walk.opened, ho]
  obtain ⟨c', hc', he⟩ := kept_row_mem hmem
  rw [hsplit] at hsorted
  rw [← he]
  exact (List.pairwise_append.1 hsorted).2.2 c' hc' c List.mem_cons_self

variable (rt r maxRows strings tables formats) in
/-- Rows in order get through, none of them requeued: the stream is the
reference. -/
theorem rangeEvents_sorted (hrows : ∀ c ∈ r.cells, c.row < 2 ^ 32 - 1)
    (hsorted : r.cells.Pairwise fun c c' => c.row ≤ c'.row) (hfail : r.failure = none) :
    ∃ rest, rangeEvents rt r maxRows strings tables formats = startedEvent r maxRows strings tables formats :: rest ∧
      AllCarried (startWalk r maxRows strings tables formats).batcher rest ∧ flatten rest = reference r strings := by
  have hhead : ∀ {pre c post w}, r.cells = pre ++ c :: post →
      Reaches rt r (startWalk r maxRows strings tables formats) pre w → w.isOpen = true → w.currentRow ≤ c.row := by
    intro pre c post w hsplit hreach ho
    obtain ⟨-, hinv⟩ := head_of_turn hrows hsplit hreach
    exact current_le_of_sorted hsorted hsplit hinv ho
  cases hw : (walkCells rt r (startWalk r maxRows strings tables formats) r.cells).result with
  | none =>
    -- The row too late would be at or past the current one, which is past every row sent.
    exfalso
    obtain ⟨pre, c, post, w, hsplit, hreach, -, row, hr, hle⟩ := stops_tooLate hrows hw
    obtain ⟨-, hinv⟩ := head_of_turn hrows hsplit hreach
    have ho : w.isOpen = true := by
      by_contra ho
      obtain ⟨hnil, -, -⟩ := hinv.unopened (by simpa using ho)
      rw [hnil] at hr
      cases hr
    have hcur := hhead hsplit hreach ho
    have hlt := hinv.below ho row (List.mem_append_left _ hr)
    have hrow : c.row ≤ row.rowIndex := hle
    omega
  | some w =>
    obtain ⟨rest, all, hev, hc, hflat, hasc, hholds, hn⟩ := rangeEvents_through hrows hfail hw
    refine ⟨rest, hev, hc, ?_⟩
    rw [hflat, announce_eq_reference hasc hholds, hn]
    rintro pre c post w₁ hsplit hreach ⟨-, ho, hlt, -⟩
    have hcur := hhead hsplit hreach ho
    have hrow : c.row < w₁.currentRow := hlt
    omega

/-- The carriers a stream may use after its header: no errors, batches that are non-empty,
consecutive and within the bound asked for, and none at all when that is 1. -/
def WellCarried (maxRows : Nat) (items : List (Item Pb.RangeEvent)) : Prop :=
  (∀ i ∈ items, ∃ e, i = .event e ∧ (∀ h, e ≠ .started h) ∧ ∀ err, e ≠ .error err) ∧
    (∀ rs, .rows rs ∈ eventsOf items →
      rs ≠ [] ∧ Grid.Consecutive (·.rowIndex) rs ∧ rs.length ≤ allowedRows maxRows) ∧
    (maxRows = 1 → ∀ rs, .rows rs ∉ eventsOf items)

theorem mem_eventsOf {T : Type} {items : List (Item T)} {e : T} (h : e ∈ eventsOf items) : .event e ∈ items := by
  obtain ⟨i, hi, he⟩ := List.mem_filterMap.1 h
  cases i with
  | event e' => cases he; exact hi
  | status s => cases he

theorem wellCarried_of_allCarried {items : List (Item Pb.RangeEvent)}
    (h : AllCarried (startWalk r maxRows strings tables formats).batcher items) : WellCarried maxRows items := by
  obtain ⟨hsingle, hcap⟩ := startWalk_limits r maxRows strings tables formats
  have hbatch : ∀ rs, .rows rs ∈ eventsOf items → allowedRows maxRows ≠ 1 ∧ rs ≠ [] ∧
      Grid.Consecutive (·.rowIndex) rs ∧ rs.length ≤ allowedRows maxRows := by
    intro rs hrs
    obtain ⟨e, he, hc⟩ := h _ (mem_eventsOf hrs)
    cases he
    obtain ⟨hs, hne, hcons, hlen⟩ := hc
    rw [hsingle, decide_eq_false_iff_not] at hs
    rw [hcap, if_neg hs] at hlen
    exact ⟨hs, hne, hcons, hlen⟩
  refine ⟨?_, ?_, ?_⟩
  · intro i hi
    obtain ⟨e, rfl, hc⟩ := h i hi
    refine ⟨e, rfl, ?_, ?_⟩
    · rintro header rfl
      exact hc
    · rintro err rfl
      exact hc
  · intro rs hrs
    exact (hbatch rs hrs).2
  · intro hone rs hrs
    apply (hbatch rs hrs).1
    subst hone
    rfl

variable (rt r maxRows strings tables formats) in
/-- Two streams of a sheet whose rows come in order, whatever their batch
bounds and clocks, never abort and deliver the same rows and gaps: the
reference. -/
theorem in_order_streams_agree (rt' : Runtime) (maxRows' : Nat) (hrows : ∀ c ∈ r.cells, c.row < 2 ^ 32 - 1)
    (hsorted : r.cells.Pairwise fun c c' => c.row ≤ c'.row) (hfail : r.failure = none) :
    ∃ rest rest',
      rangeEvents rt r maxRows strings tables formats = startedEvent r maxRows strings tables formats :: rest ∧
      rangeEvents rt' r maxRows' strings tables formats = startedEvent r maxRows' strings tables formats :: rest' ∧
      flatten rest = flatten rest' ∧ flatten rest = reference r strings ∧
      WellCarried maxRows rest ∧ WellCarried maxRows' rest' := by
  obtain ⟨rest, hev, hc, hflat⟩ := rangeEvents_sorted rt r maxRows strings tables formats hrows hsorted hfail
  obtain ⟨rest', hev', hc', hflat'⟩ := rangeEvents_sorted rt' r maxRows' strings tables formats hrows hsorted hfail
  exact ⟨rest, rest', hev, hev', hflat.trans hflat'.symm, hflat, wellCarried_of_allCarried hc,
    wellCarried_of_allCarried hc'⟩

theorem in_order_streams_agree_gap :
    ∃ rest rest',
      rangeEvents insertionRuntime (numbersRead (some 1) [(2, 3, 7), (2, 0, 8), (6, 1, 9)]) 0 none [] [] =
        startedEvent (numbersRead (some 1) [(2, 3, 7), (2, 0, 8), (6, 1, 9)]) 0 none [] [] :: rest ∧
      rangeEvents insertionRuntime (numbersRead (some 1) [(2, 3, 7), (2, 0, 8), (6, 1, 9)]) 1 none [] [] =
        startedEvent (numbersRead (some 1) [(2, 3, 7), (2, 0, 8), (6, 1, 9)]) 1 none [] [] :: rest' ∧
      flatten rest = flatten rest' ∧
      flatten rest = reference (numbersRead (some 1) [(2, 3, 7), (2, 0, 8), (6, 1, 9)]) none ∧
      WellCarried 0 rest ∧ WellCarried 1 rest' :=
  in_order_streams_agree insertionRuntime (numbersRead (some 1) [(2, 3, 7), (2, 0, 8), (6, 1, 9)]) 0 none [] []
    insertionRuntime 1 (by decide) (by decide) rfl

/-! ## Any order -/

variable (rt r maxRows strings tables formats) in
/-- However the stream ends, what it has sent is announced in order. -/
theorem rangeEvents_ordered (hrows : ∀ c ∈ r.cells, c.row < 2 ^ 32 - 1) :
    ∃ all, flatten (rangeEvents rt r maxRows strings tables formats) = announce (·.rowIndex) r.headerRow all ∧
      all.Pairwise fun x y => x.rowIndex ≤ y.rowIndex := by
  have hheader : ∀ items, flatten (startedEvent r maxRows strings tables formats :: items) = flatten items := by
    intro items
    rfl
  cases hw : (walkCells rt r (startWalk r maxRows strings tables formats) r.cells).result with
  | none =>
    obtain ⟨pre, c, post, w₁, hsplit, hreach, hlate⟩ := stops_tooLate hrows hw
    obtain ⟨-, hev⟩ := rangeEvents_tooLate hrows hsplit hreach hlate
    obtain ⟨hs, -⟩ := head_of_turn hrows hsplit hreach
    refine ⟨_, ?_, hs.delivery.ascending⟩
    rw [hev, hheader, flatten_append, hs.flat]
    exact List.append_nil _
  | some w =>
    obtain ⟨hs, -⟩ := head_of_turn hrows (List.append_nil _).symm hw
    cases hfail : r.failure with
    | some e =>
      refine ⟨_, ?_, hs.delivery.ascending⟩
      rw [rangeEvents_eq, hw, hfail, hheader, flatten_append, hs.flat]
      exact List.append_nil _
    | none =>
      obtain ⟨rest, all, hev, -, hflat, hasc, -⟩ := rangeEvents_through hrows hfail hw
      exact ⟨all, by rw [hev, hheader, hflat], hasc⟩

variable (rt r maxRows strings tables formats) in
/-- At the head of every turn each position written by a kept cell is filled in
a row sent, queued or under construction, and these come in this order, so the
row under construction is always accepted. The stream ends with the
unsorted-rows error exactly when it reaches a kept cell at or below a row
already sent, and no row inside an announced gap is sent later. -/
theorem no_cell_lost (hrows : ∀ c ∈ r.cells, c.row < 2 ^ 32 - 1) :
    (∀ pre post w, r.cells = pre ++ post → Reaches rt r (startWalk r maxRows strings tables formats) pre w →
      (∀ k ∈ kept r.headerRow (yields r.is1904 strings pre),
        ∃ row ∈ sentAfter rt r maxRows strings tables formats pre ++ w.batcher.rows ++ w.opened,
          row.rowIndex = k.row ∧ ∃ v, row.values[k.col]? = some v ∧ v.carries = true) ∧
      (w.isOpen = true →
        (∀ row ∈ sentAfter rt r maxRows strings tables formats pre ++ w.batcher.rows, row.rowIndex < w.currentRow) ∧
          w.batcher.accepts w.currentRow = true)) ∧
    (∀ pre c post w, r.cells = pre ++ c :: post → Reaches rt r (startWalk r maxRows strings tables formats) pre w →
      TooLate r.headerRow (sentAfter rt r maxRows strings tables formats pre) (w.tuple r c) →
      rangeEvents rt r maxRows strings tables formats = startedEvent r maxRows strings tables formats ::
        ((walkCells rt r (startWalk r maxRows strings tables formats) pre).events ++
          [.event (unsortedError rt r c.row c.col)])) ∧
    ((∀ pre c post w, r.cells = pre ++ c :: post → Reaches rt r (startWalk r maxRows strings tables formats) pre w →
        ¬ TooLate r.headerRow (sentAfter rt r maxRows strings tables formats pre) (w.tuple r c)) →
      ∃ rest, rangeEvents rt r maxRows strings tables formats = startedEvent r maxRows strings tables formats ::
          (rest ++ (r.failure.map fun e => .event (readError r e)).toList) ∧
        AllCarried (startWalk r maxRows strings tables formats).batcher rest) ∧
    (∀ before first count after,
      flatten (rangeEvents rt r maxRows strings tables formats) = before ++ .gap first count :: after →
        ∀ row ∈ rowsIn after, first + count ≤ row.rowIndex) := by
  refine ⟨?_, ?_, ?_, ?_⟩
  · intro pre post w hsplit hreach
    obtain ⟨-, hinv⟩ := head_of_turn hrows hsplit hreach
    constructor
    · intro k hk
      obtain ⟨row, hr, hc⟩ := hinv.holds.carried k hk
      refine ⟨row, ?_, hc⟩
      simp only [List.mem_append] at hr ⊢
      tauto
    · intro ho
      exact ⟨hinv.below ho, hinv.accepts_current ho⟩
  · intro pre c post w hsplit hreach hlate
    exact (rangeEvents_tooLate hrows hsplit hreach hlate).2
  · -- Never too late, the walk gets through its cells; what follows is the reader's failure or the last rows.
    intro hnever
    cases hw : (walkCells rt r (startWalk r maxRows strings tables formats) r.cells).result with
    | none =>
      obtain ⟨pre, c, post, w, hsplit, hreach, hlate⟩ := stops_tooLate hrows hw
      exact absurd hlate (hnever pre c post w hsplit hreach)
    | some w =>
      obtain ⟨hs, -⟩ := head_of_turn hrows (List.append_nil _).symm hw
      cases hfail : r.failure with
      | some e =>
        refine ⟨_, ?_, hs.carried⟩
        rw [rangeEvents_eq, hw, hfail]
        rfl
      | none =>
        obtain ⟨rest, -, hev, hc, -⟩ := rangeEvents_through hrows hfail hw
        exact ⟨rest, by rw [hev]; simp, hc⟩
  · intro before first count after h
    obtain ⟨all, hall, hasc⟩ := rangeEvents_ordered rt r maxRows strings tables formats hrows
    exact Grid.announce_after_gap _ hasc (hall.symm.trans h)

end

/-- The revisited row again: sent twice, but no cell of it is lost. -/
theorem no_cell_lost_revisited :
    ∃ w, Reaches insertionRuntime revisitedRead (startWalk revisitedRead 0 none [] []) revisitedRead.cells w ∧
      ∀ k ∈ kept none (yields false none revisitedRead.cells),
        ∃ row ∈ sentAfter insertionRuntime revisitedRead 0 none [] [] revisitedRead.cells ++ w.batcher.rows ++ w.opened,
          row.rowIndex = k.row ∧ ∃ v, row.values[k.col]? = some v ∧ v.carries = true := by
  have hsome : (walkCells insertionRuntime revisitedRead (startWalk revisitedRead 0 none [] [])
      revisitedRead.cells).result.isSome = true := by decide
  obtain ⟨w, hw⟩ := Option.isSome_iff_exists.1 hsome
  have hkept := no_cell_lost insertionRuntime revisitedRead 0 none [] [] (by decide)
  exact ⟨w, hw, (hkept.1 revisitedRead.cells [] w (List.append_nil _).symm hw).1⟩

end GrpcCalamine
