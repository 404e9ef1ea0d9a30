import GrpcCalamine.Service.Ascending
import GrpcCalamine.Service.Walk
import GrpcCalamine.Service.Headers
import Mathlib.Data.List.DropRight
/-!
# One range, buffered and incremental

`emit_range` pads the rows of a dense range and pushes those that hold
something; `emit_incremental`, given the same range's non-empty cells, grows
each row to its last value. Both push rows in order, so both announce what
they push (`pushRangeRows_delivers`, `walkThrough_delivers`), and the rows
differ by their trailing empty cells only (`grow_eq`).
-/

namespace GrpcCalamine

open Grid (announce rowsIn)

/-! ## The cells of a range -/

/-- A cell calamine has built, as a reader would yield it. -/
def Calamine.Data.asRef : Calamine.Data → Calamine.DataRef
  | .int v => .int v
  | .float v => .float v
  | .string v => .string v
  | .bool v => .bool v
  | .dateTime v => .dateTime v
  | .dateTimeIso v => .dateTimeIso v
  | .durationIso v => .durationIso v
  | .error e => .error e
  | .empty => .empty

/-- The cell `emit_range` makes of a value. -/
def dataCell (is1904 : Bool) (d : Calamine.Data) : Pb.CellData := Convert.cellData (Convert.dataValue d is1904)

/-- The non-empty cells of a row, `data` being what it holds from column
`col`. -/
def rowCells (row : Nat) : (col : Nat) → List Calamine.Data → List ReadCell
  | _, [] => []
  | col, d :: data =>
    if d = .empty then rowCells row (col + 1) data
    else ⟨row, col, d.asRef, none, none⟩ :: rowCells row (col + 1) data

/-- The non-empty cells of rows from row `row` and column `col`, in row-major
order. -/
def usedCells (col : Nat) : (row : Nat) → List (List Calamine.Data) → List ReadCell
  | _, [] => []
  | row, data :: rows => rowCells row col data ++ usedCells col (row + 1) rows

/-- The rows `emit_range` pushes. -/
def denseRows (is1904 : Bool) (pad : Nat) : (row : Nat) → List (List Calamine.Data) → List Pb.WorksheetRow
  | _, [] => []
  | row, data :: rows =>
    if data.all fun d => d = .empty then denseRows is1904 pad (row + 1) rows
    else ⟨row, List.replicate pad Convert.emptyCellData ++ data.map (dataCell is1904)⟩ ::
      denseRows is1904 pad (row + 1) rows

theorem nextCell_asRef (is1904 : Bool) (table : Option StringTable) (row col : Nat) (d : Calamine.Data) :
    nextCell is1904 table ⟨row, col, d.asRef, none, none⟩ = ((row, col, dataCell is1904 d), table) := by
  cases d <;> cases table <;> rfl

theorem dataCell_empty (is1904 : Bool) : dataCell is1904 .empty = Convert.emptyCellData := rfl

theorem dataCell_ne_empty (is1904 : Bool) {d : Calamine.Data} (h : d ≠ .empty) :
    dataCell is1904 d ≠ Convert.emptyCellData := by
  cases d with
  | empty => exact absurd rfl h
  | _ => simp [dataCell, Convert.emptyCellData, Convert.cellData, Convert.dataValue]

/-- A kept cell: it is not above the header row and not blank. -/
theorem keeps_dataCell {headerRow : Option Nat} {row : Nat} (hrow : ∀ n ∈ headerRow, n ≤ row) (col : Nat)
    (is1904 : Bool) {d : Calamine.Data} (h : d ≠ .empty) :
    keeps headerRow (row, col, dataCell is1904 d) = true := by
  have hblank : (dataCell is1904 d).isBlank = false := by
    cases d with
    | empty => exact absurd rfl h
    | _ => rfl
  cases headerRow with
  | none => simp [keeps, hblank]
  | some n => simpa [keeps, hblank] using hrow n rfl

theorem rowCells_blank {data : List Calamine.Data} (h : data.all fun d => d = .empty) (row col : Nat) :
    rowCells row col data = [] := by
  induction data generalizing col with
  | nil => rfl
  | cons d data ih =>
    simp only [List.all_cons, Bool.and_eq_true, decide_eq_true_eq] at h
    rw [rowCells, if_pos h.1, ih h.2]

theorem denseRows_index {is1904 : Bool} {pad row : Nat} {rows : List (List Calamine.Data)} {x : Pb.WorksheetRow}
    (hx : x ∈ denseRows is1904 pad row rows) : row ≤ x.rowIndex ∧ x.rowIndex < row + rows.length := by
  induction rows generalizing row with
  | nil => cases hx
  | cons data rows ih =>
    simp only [denseRows] at hx
    simp only [List.length_cons]
    split at hx
    · have := ih hx
      omega
    · rcases List.mem_cons.1 hx with rfl | hx
      · simp only []
        omega
      · have := ih hx
        omega

theorem denseRows_ascending (is1904 : Bool) (pad row : Nat) (rows : List (List Calamine.Data)) :
    (denseRows is1904 pad row rows).Pairwise fun x y => x.rowIndex < y.rowIndex := by
  induction rows generalizing row with
  | nil => exact .nil
  | cons data rows ih =>
    simp only [denseRows]
    split
    · exact ih (row + 1)
    · refine List.pairwise_cons.2 ⟨?_, ih (row + 1)⟩
      intro x hx
      exact (denseRows_index hx).1

theorem denseRows_inOrder (is1904 : Bool) (pad : Nat) {row : Nat} {rows : List (List Calamine.Data)}
    (h : row + rows.length ≤ 2 ^ 32) : InOrder (denseRows is1904 pad row rows) := by
  refine ⟨denseRows_ascending is1904 pad row rows, ?_⟩
  intro x hx
  have := denseRows_index hx
  omega

/-! ## Trailing empty cells -/

/-- A row without its trailing empty cells. -/
def trimRow (row : Pb.WorksheetRow) : Pb.WorksheetRow :=
  { row with values := row.values.rdropWhile fun cell => cell = Convert.emptyCellData }

/-- Rows and gaps, each row without its trailing empty cells. -/
def trimmed (as : List (Grid.Announced Pb.WorksheetRow)) : List (Grid.Announced Pb.WorksheetRow) :=
  as.map (.map trimRow)

theorem trimRow_trimRow (row : Pb.WorksheetRow) : trimRow (trimRow row) = trimRow row := by
  simp [trimRow, List.rdropWhile_idempotent]

theorem trimmed_announce (start : Option Nat) (rows : List Pb.WorksheetRow) :
    trimmed (announce (·.rowIndex) start rows) = announce (·.rowIndex) start (rows.map trimRow) :=
  (Grid.announce_map Pb.WorksheetRow.rowIndex Pb.WorksheetRow.rowIndex trimRow (fun _ => rfl) start rows).symm

/-- What the walk makes of a row under construction, `data` being what the row
holds from column `col`. -/
def grow (is1904 : Bool) (values : List Pb.CellData) : (col : Nat) → List Calamine.Data → List Pb.CellData
  | _, [] => values
  | col, d :: data =>
    if d = .empty then grow is1904 values (col + 1) data
    else grow is1904 (place values col (dataCell is1904 d)) (col + 1) data

theorem place_past {values : List Pb.CellData} {col : Nat} (h : values.length ≤ col) (v : Pb.CellData) :
    place values col v = values ++ List.replicate (col - values.length) Convert.emptyCellData ++ [v] := by
  have hlen : (values ++ List.replicate (col - values.length) Convert.emptyCellData).length = col := by
    rw [List.length_append, List.length_replicate]
    omega
  have hgrow : col + 1 - values.length = (col - values.length) + 1 := by omega
  rw [place, hgrow, List.replicate_succ', ← List.append_assoc, List.set_append_right _ _ (by omega), hlen]
  simp

/-- A row grown cell by cell is the dense row, up to its last value. -/
theorem grow_eq (is1904 : Bool) {values : List Pb.CellData} {col : Nat} (data : List Calamine.Data)
    (hlen : values.length ≤ col)
    (htrim : values.rdropWhile (fun cell => cell = Convert.emptyCellData) = values) :
    grow is1904 values col data =
      (values ++ List.replicate (col - values.length) Convert.emptyCellData ++
        data.map (dataCell is1904)).rdropWhile fun cell => cell = Convert.emptyCellData := by
  induction data generalizing values col with
  | nil =>
    rw [grow, List.map_nil, List.append_nil]
    induction col - values.length with
    | zero => rw [List.replicate_zero, List.append_nil, htrim]
    | succ n ih => rw [List.replicate_succ', ← List.append_assoc, List.rdropWhile_concat_pos _ _ _ (by simp), ← ih]
  | cons d data ih =>
    rw [grow, List.map_cons]
    split
    · next hd =>
      -- an empty cell is one blank more before the next value
      have hgrow : col + 1 - values.length = (col - values.length) + 1 := by omega
      rw [ih (by omega) htrim, hd, dataCell_empty, hgrow, List.replicate_succ']
      simp only [List.append_assoc, List.singleton_append]
    · next hd =>
      have hplace := place_past hlen (dataCell is1904 d)
      have hfull : (place values col (dataCell is1904 d)).length = col + 1 := by
        rw [hplace]
        simp only [List.length_append, List.length_replicate, List.length_singleton]
        omega
      have hval : place values col (dataCell is1904 d) ++
          List.replicate (col + 1 - (place values col (dataCell is1904 d)).length) Convert.emptyCellData =
            values ++ List.replicate (col - values.length) Convert.emptyCellData ++ [dataCell is1904 d] := by
        rw [hfull, Nat.sub_self, List.replicate_zero, List.append_nil, hplace]
      rw [ih (Nat.le_of_eq hfull), hval]
      · simp only [List.append_assoc, List.singleton_append]
      · rw [hplace, List.rdropWhile_concat_neg]
        simpa using dataCell_ne_empty is1904 hd

theorem trimRow_dense (is1904 : Bool) (pad row : Nat) (data : List Calamine.Data) :
    trimRow ⟨row, List.replicate pad Convert.emptyCellData ++ data.map (dataCell is1904)⟩ =
      ⟨row, grow is1904 [] pad data⟩ := by
  rw [trimRow, grow_eq is1904 data (Nat.zero_le pad) rfl]
  rfl

/-! ## The buffered walk -/

open RowBatcher (Ready Pays)

/-- All of `todo` leaves the batcher, and nothing but rows and gaps. -/
structure Delivers (b : RowBatcher) (todo : List Pb.WorksheetRow) (items : List (Item Pb.RangeEvent)) : Prop where
  flat : flatten items = b.owes todo
  rowItems : ∀ i ∈ items, RowItem i

theorem Delivers.after {b b' : RowBatcher} {todo todo' : List Pb.WorksheetRow} {is js : List (Item Pb.RangeEvent)}
    (h : Delivers b' todo' js) (hp : Pays b todo b' todo' is) : Delivers b todo (is ++ js) where
  flat := by rw [flatten_append, h.flat, hp.flat]
  rowItems := List.forall_mem_append.2 ⟨hp.rowItems, h.rowItems⟩

/-- The flush at the end of either walk. -/
theorem flush_delivers (rt : Runtime) {b : RowBatcher} (h : b.Ready []) : Delivers b [] (b.flush rt).events := by
  obtain ⟨b', -, hrows, hp⟩ := RowBatcher.flush_ready rt h
  refine ⟨?_, hp.rowItems⟩
  rw [← hp.flat, RowBatcher.owes, hrows]
  exact (List.append_nil _).symm

theorem pushRangeRows_delivers (rt : Runtime) (is1904 : Bool) (pad : Nat) {b : RowBatcher} {row : Nat}
    {rows : List (List Calamine.Data)} (hrow : row + rows.length ≤ 2 ^ 32)
    (h : b.Ready (denseRows is1904 pad row rows)) :
    Delivers b (denseRows is1904 pad row rows) (pushRangeRows rt is1904 pad b row rows).events := by
  induction rows generalizing b row with
  | nil => simpa [pushRangeRows, denseRows] using flush_delivers rt h
  | cons data rows ih =>
    rw [List.length_cons] at hrow
    -- the row after the last of a `u32` is never looked at
    have hnext : ∀ b', pushRangeRows rt is1904 pad b' ((row + 1) % 2 ^ 32) rows =
        pushRangeRows rt is1904 pad b' (row + 1) rows := by
      intro b'
      cases rows with
      | nil => rfl
      | cons data' rows =>
        rw [List.length_cons] at hrow
        rw [Nat.mod_eq_of_lt (by omega)]
    simp only [denseRows] at h ⊢
    rw [pushRangeRows]
    simp only [hnext]
    split
    · next hblank =>
      rw [if_pos hblank] at h
      exact ih (by omega) h
    · next hblank =>
      rw [if_neg hblank] at h
      obtain ⟨b', hr, hp⟩ := RowBatcher.push_ready rt h
      have hrest := (ih (by omega) hp.ready).after hp
      show Delivers b _ (b.push rt ⟨row, List.replicate pad Convert.emptyCellData ++ data.map (dataCell is1904)⟩ >>=
        fun x => if x.1 = true then pushRangeRows rt is1904 pad x.2 (row + 1) rows else .done ()).events
      rw [Emit.events_bind, hr]
      exact hrest

/-! ## The incremental walk -/

section walk

variable (rt : Runtime) (r : IncrementalRead)

/-- Deliver the row under construction, if there is one. -/
def Walk.close (w : Walk) : Stream Pb.RangeEvent (Bool × RowBatcher) :=
  if w.isOpen then w.batcher.push rt ⟨w.currentRow, w.values⟩ else .done (true, w.batcher)

/-- A walk ready to go on with `todo`, all of it past the row under
construction. -/
structure Walk.Ready (w : Walk) (todo : List Pb.WorksheetRow) : Prop where
  batcher : w.batcher.Ready (w.opened ++ todo)
  unopened : w.isOpen = false → w.values = []

variable {rt r} {w : Walk}

variable (rt) in
theorem Walk.Ready.close {todo : List Pb.WorksheetRow} (h : w.Ready todo) :
    ∃ b', (w.close rt).result = (true, b') ∧ Pays w.batcher (w.opened ++ todo) b' todo (w.close rt).events := by
  have hready := h.batcher
  cases ho : w.isOpen with
  | false =>
    rw [Walk.opened_of_closed ho] at hready ⊢
    refine ⟨w.batcher, by simp [Walk.close, ho], ?_⟩
    simpa [Walk.close, ho] using (⟨rfl, nofun, hready⟩ : Pays w.batcher todo w.batcher todo [])
  | true =>
    rw [Walk.opened_of_open ho] at hready ⊢
    simpa [Walk.close, ho] using RowBatcher.push_ready rt hready

theorem Walk.Ready.accepts {todo : List Pb.WorksheetRow} (h : w.Ready todo) (ho : w.isOpen = true) :
    w.batcher.accepts w.currentRow = true := by
  have hready := h.batcher
  rw [Walk.opened_of_open ho] at hready
  exact hready.accepts _ List.mem_cons_self

theorem Walk.Ready.current_lt {row : Pb.WorksheetRow} {todo : List Pb.WorksheetRow} (h : w.Ready (row :: todo))
    (ho : w.isOpen = true) : w.currentRow < row.rowIndex := by
  have hasc := h.batcher.inOrder.ascending
  rw [Walk.opened_of_open ho] at hasc
  exact (List.pairwise_cons.1 (List.pairwise_append.1 hasc).2.1).1 row List.mem_cons_self

/-! ### One row of cells -/

variable {row : Nat}

variable (rt) in
theorem turn_used (hrow : ∀ n ∈ r.headerRow, n ≤ row) (col : Nat) {d : Calamine.Data} (hd : d ≠ .empty) :
    keeps r.headerRow (row, col, dataCell r.is1904 d) = true ∧
      turn rt r w ⟨row, col, d.asRef, none, none⟩ = walkCell rt r w (row, col, dataCell r.is1904 d) := by
  refine ⟨keeps_dataCell hrow col r.is1904 hd, ?_⟩
  rw [turn, nextCell_asRef]

/-- The cells of the row under construction grow it. -/
theorem walkCells_grow (hrow : ∀ n ∈ r.headerRow, n ≤ row) (col : Nat) (data : List Calamine.Data)
    (cells : List ReadCell) (ho : w.isOpen = true) (hcur : row = w.currentRow) :
    walkCells rt r w (rowCells row col data ++ cells) =
      walkCells rt r { w with values := grow r.is1904 w.values col data } cells := by
  induction data generalizing w col with
  | nil => rfl
  | cons d data ih =>
    rw [rowCells, grow]
    split
    · exact ih (col + 1) ho hcur
    · next hd =>
      obtain ⟨hk, ht⟩ := turn_used rt (w := w) hrow col hd
      rw [List.cons_append, walkCells, ht, walkCell_placed_eq rt r hk fun _ => hcur, Emit.done_bind]
      simp only []
      rw [ih (col + 1) rfl rfl]
      subst hcur
      rw [← ho]

variable (rt) in
/-- The first cell of a row closes the one before, and the rest grow it. -/
theorem walkCells_row (hrow : ∀ n ∈ r.headerRow, n ≤ row) (col : Nat) {data : List Calamine.Data}
    (hdata : (data.all fun d => d = .empty) = false) (cells : List ReadCell) (hnew : w.isOpen = false → w.values = [])
    (hpast : w.isOpen = true → w.currentRow < row ∧ w.batcher.accepts w.currentRow = true) :
    walkCells rt r w (rowCells row col data ++ cells) = w.close rt >>= fun x =>
      if x.1 then walkCells rt r ⟨x.2, row, true, grow r.is1904 [] col data⟩ cells else .done none := by
  induction data generalizing col with
  | nil => cases hdata
  | cons d data ih =>
    rw [rowCells, grow]
    split
    · next hd =>
      apply ih (col + 1)
      simpa [hd] using hdata
    · next hd =>
      obtain ⟨hk, ht⟩ := turn_used rt (w := w) hrow col hd
      rw [List.cons_append, walkCells, ht]
      cases ho : w.isOpen with
      | false =>
        rw [walkCell_placed_eq rt r hk (by simp [ho]), hnew ho, Walk.close, ho]
        exact walkCells_grow hrow (col + 1) data cells rfl rfl
      | true =>
        obtain ⟨hlt, ha⟩ := hpast ho
        rw [walkCell_next_eq rt r hk ho hlt ha, Walk.close, ho, if_pos rfl, Emit.bind_assoc]
        congr 1
        funext x
        obtain ⟨ok, b⟩ := x
        cases ok with
        | false => rfl
        | true => exact walkCells_grow hrow (col + 1) data cells rfl rfl

/-! ### The whole walk -/

variable (rt r) in
/-- The cells still to come, and the end of the sheet. -/
def walkThrough (w : Walk) (cells : List ReadCell) : Stream Pb.RangeEvent Unit :=
  walkCells rt r w cells >>= fun
    | some w => finish rt r w
    | none => .done ()

/-- The rows the cells of a dense range make, each up to its last value. -/
def grownRows (is1904 : Bool) (pad row : Nat) (rows : List (List Calamine.Data)) : List Pb.WorksheetRow :=
  (denseRows is1904 pad row rows).map trimRow

variable (rt) in
theorem finish_delivers (h : w.Ready []) : Delivers w.batcher w.opened (finish rt r w).events := by
  obtain ⟨b', hr, hp⟩ := h.close rt
  rw [List.append_nil] at hp
  have hall := (flush_delivers rt hp.ready).after hp
  have hfinish : (finish rt r w).events = (w.close rt).events ++ (b'.flush rt).events := by
    cases ho : w.isOpen with
    | false =>
      obtain rfl : w.batcher = b' := by simpa [Walk.close, ho] using hr
      simp [finish, Walk.close, ho]
    | true =>
      simp only [Walk.close, ho, if_true] at hr
      simp [finish, Walk.close, ho, h.accepts ho, hr]
  rw [hfinish]
  exact hall

variable (rt) in
theorem walkThrough_delivers {pad : Nat} {rows : List (List Calamine.Data)} (hrow : ∀ n ∈ r.headerRow, n ≤ row)
    (h : w.Ready (grownRows r.is1904 pad row rows)) :
    Delivers w.batcher (w.opened ++ grownRows r.is1904 pad row rows)
      (walkThrough rt r w (usedCells pad row rows)).events := by
  induction rows generalizing w row with
  | nil =>
    rw [grownRows, denseRows, List.map_nil] at h ⊢
    rw [List.append_nil]
    exact finish_delivers rt h
  | cons data rows ih =>
    have hrow' : ∀ n ∈ r.headerRow, n ≤ row + 1 := fun n hn => Nat.le_succ_of_le (hrow n hn)
    rw [grownRows, denseRows] at h ⊢
    rw [usedCells]
    split
    · next hblank =>
      rw [if_pos hblank] at h
      rw [rowCells_blank hblank]
      exact ih hrow' h
    · next hblank =>
      rw [if_neg hblank, List.map_cons, trimRow_dense] at h
      rw [List.map_cons, trimRow_dense]
      have hstep := walkCells_row rt hrow pad (Bool.eq_false_iff.2 hblank) (usedCells pad (row + 1) rows)
        h.unopened fun ho => ⟨h.current_lt ho, h.accepts ho⟩
      obtain ⟨b', hr, hp⟩ := h.close rt
      have hrest := (ih (w := ⟨b', row, true, grow r.is1904 [] pad data⟩) hrow' ⟨hp.ready, nofun⟩).after hp
      rw [walkThrough, hstep, Emit.bind_assoc, Emit.events_bind, hr]
      exact hrest

end walk

end GrpcCalamine
