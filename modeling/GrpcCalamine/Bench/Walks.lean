import GrpcCalamine.Bench.Densify
import GrpcCalamine.Lib.Fill
/-!
# What the dense walk hands on

`walk_dense` over cells in order hands on every populated row and every row
between two of them (`walkDense_eq`): a populated row as wide as anything in it
or above it, and the rows before it just as wide. The walk is followed cell by
cell and, between two cells, row by row (`At`).
-/

namespace GrpcCalamine.Bench

open Grid (Write lastAt populated populated_filter_concat filter_succ between filled filled_concat filled_congr)

variable {T : Type}

/-! ## The cells so far -/

section cells

variable (empty : T) (first : Nat)

/-- The cells with a value, as writes. -/
def valued (cells : List (Nat × Nat × T × Bool)) : List (Write T) :=
  (cells.filter fun c => !c.2.2.2).map fun c => ⟨c.1, c.2.1, c.2.2.1⟩

/-- As wide as any of the cells reaches, and no less than `first`. -/
def widthOf (cells : List (Nat × Nat × T × Bool)) : Nat := cells.foldl (fun n c => max n (c.2.1 + 1)) first

/-- As wide as a cell in a row or above it reaches. -/
def widthAt (cells : List (Nat × Nat × T × Bool)) (row : Nat) : Nat := widthOf first (cells.filter (·.1 ≤ row))

/-- A row, `width` cells of it. -/
def cellsAt (ws : List (Write T)) (width row : Nat) : List T :=
  (List.range width).map fun c => (lastAt ws row c).getD empty

/-- The rows `walk_dense` makes of cells in order. -/
def denseGrid (cells : List (Nat × Nat × T × Bool)) (rows : List Nat) : List (Nat × List T) :=
  filled empty (fun _ i => widthAt first cells i) (fun i => cellsAt empty (valued cells) (widthAt first cells i) i) none rows

variable {empty first}

theorem valued_append (cells cells' : List (Nat × Nat × T × Bool)) :
    valued (cells ++ cells') = valued cells ++ valued cells' := by
  simp [valued]

theorem widthOf_concat (cells : List (Nat × Nat × T × Bool)) (c : Nat × Nat × T × Bool) :
    widthOf first (cells ++ [c]) = max (widthOf first cells) (c.2.1 + 1) := by
  simp [widthOf]

/-- Any number is wide enough that every cell and `first` keep within. -/
theorem widthOf_le_iff {cells : List (Nat × Nat × T × Bool)} {n : Nat} :
    widthOf first cells ≤ n ↔ first ≤ n ∧ ∀ c ∈ cells, c.2.1 < n := by
  induction cells using List.reverseRecOn with
  | nil => simp [widthOf]
  | append_singleton cells c ih =>
    rw [widthOf_concat, Nat.max_le, ih, and_assoc]
    simp only [List.mem_append, List.mem_singleton, or_imp, forall_and, forall_eq]
    rfl

theorem mem_valued {cells : List (Nat × Nat × T × Bool)} {w : Write T} (h : w ∈ valued cells) :
    (w.row, w.col, w.val, false) ∈ cells := by
  obtain ⟨c, hc, rfl⟩ := List.mem_map.1 h
  obtain ⟨hmem, hval⟩ := List.mem_filter.1 hc
  obtain ⟨row, col, val, isEmpty⟩ := c
  obtain rfl : isEmpty = false := by simpa using hval
  exact hmem

/-- A position no write reaches. -/
theorem lastAt_eq_none {ws : List (Write T)} {row col : Nat} (h : ∀ w ∈ ws, ¬ (w.row = row ∧ w.col = col)) :
    lastAt ws row col = none := by
  rw [Grid.lastAt_eq_filter, List.filter_eq_nil_iff.2 fun w hw => by simpa using h w hw]
  rfl

theorem length_cellsAt (ws : List (Write T)) (width row : Nat) : (cellsAt empty ws width row).length = width := by
  rw [cellsAt, List.length_map, List.length_range]

/-- Past every cell a row is blank. -/
theorem lastAt_of_widthOf_le {cells : List (Nat × Nat × T × Bool)} (row : Nat) {col : Nat}
    (h : widthOf first cells ≤ col) : lastAt (valued cells) row col = none := by
  apply lastAt_eq_none
  rintro w hw ⟨-, rfl⟩
  exact absurd ((widthOf_le_iff.1 h).2 _ (mem_valued hw)) (Nat.lt_irrefl _)

/-- Below every cell a row is blank. -/
theorem cellsAt_below {cells : List (Nat × Nat × T × Bool)} {row : Nat} (h : ∀ c ∈ cells, c.1 < row) (width : Nat) :
    cellsAt empty (valued cells) width row = List.replicate width empty := by
  apply List.ext_getElem
  · simp [cellsAt]
  · intro n h₁ h₂
    have hnone : lastAt (valued cells) row n = none := by
      apply lastAt_eq_none
      rintro w hw ⟨hrow, -⟩
      exact absurd (h _ (mem_valued hw)) (by simp [hrow])
    simp [cellsAt, hnone]

/-- A cell further down changes no row above it. -/
theorem denseGrid_concat (cells : List (Nat × Nat × T × Bool)) (c : Nat × Nat × T × Bool) {rows : List Nat}
    (h : ∀ i ∈ rows, i < c.1) : denseGrid empty first (cells ++ [c]) rows = denseGrid empty first cells rows := by
  apply filled_congr
  intro i hi
  have hlt := h i hi
  have hwidth : widthAt first (cells ++ [c]) i = widthAt first cells i := by
    rw [widthAt, List.filter_append, List.filter_cons_of_neg (by simpa using hlt), List.filter_nil, List.append_nil]
    rfl
  refine ⟨fun _ => hwidth, ?_⟩
  rw [hwidth]
  apply List.map_congr_left
  intro col _
  have hvalued : valued [c] = [] ∨ valued [c] = [⟨c.1, c.2.1, c.2.2.1⟩] := by
    cases hempty : c.2.2.2 <;> simp [valued, hempty]
  rw [valued_append]
  rcases hvalued with hnil | hone
  · rw [hnil, List.append_nil]
  · rw [hone, Grid.lastAt_concat, if_neg]
    rintro ⟨hrow, -⟩
    exact absurd hrow (Nat.ne_of_gt hlt)

end cells

/-! ## The walk -/

/-- The populated rows above `row`. -/
def above (cells : List (Nat × Nat × T × Bool)) (row : Nat) : List Nat := (populated (valued cells)).filter (· < row)

/-- Where `walk_dense` is after `cells`, at a row none of them is below. -/
structure DenseWalk.At (empty : T) (first : Nat) (cells : List (Nat × Nat × T × Bool)) (w : DenseWalk T) : Prop where
  bottom : ∀ c ∈ cells, c.1 ≤ w.currentRow
  width : w.width = widthOf first cells
  values : w.values = cellsAt empty (valued cells) w.width w.currentRow
  hasValue : w.rowHasValue = decide (w.currentRow ∈ populated (valued cells))
  rows : w.rows = denseGrid empty first cells (above cells w.currentRow)
  started : w.started = !(above cells w.currentRow).isEmpty
  pending : w.pendingEmpty = ((above cells w.currentRow).getLast?.map fun p => w.currentRow - (p + 1)).getD 0

namespace DenseWalk

variable {empty : T} {first : Nat} {cells : List (Nat × Nat × T × Bool)} {w : DenseWalk T}

theorem At.length_values (h : w.At empty first cells) : w.values.length = w.width := by
  rw [h.values, length_cellsAt]

/-- Nothing is below the row the walk is at. -/
theorem At.widthAt_current (h : w.At empty first cells) : widthAt first cells w.currentRow = w.width := by
  rw [widthAt, List.filter_eq_self.2 fun c hc => by simpa using h.bottom c hc, h.width]

theorem above_succ (cells : List (Nat × Nat × T × Bool)) (row : Nat) :
    above cells (row + 1) = above cells row ++ if row ∈ populated (valued cells) then [row] else [] :=
  filter_succ (Grid.populated_ascending _) row

theorem At.above_succ_current (h : w.At empty first cells) :
    above cells (w.currentRow + 1) = populated (valued cells) := by
  apply List.filter_eq_self.2
  intro r hr
  obtain ⟨x, hx, rfl⟩ := List.mem_map.1 ((Grid.mem_populated _ _).1 hr)
  have hle : x.row ≤ w.currentRow := h.bottom _ (mem_valued hx)
  exact decide_eq_true (Nat.lt_succ_of_le hle)

/-- The rows handed on once a row with a value is complete. -/
theorem At.release (h : w.At empty first cells) (hv : w.currentRow ∈ populated (valued cells)) :
    w.rows ++ w.release empty = denseGrid empty first cells (above cells (w.currentRow + 1)) := by
  rw [above_succ, if_pos hv, denseGrid, filled_concat, ← denseGrid, ← h.rows, Option.or_none, h.widthAt_current,
    ← h.values, DenseWalk.release, h.pending]
  congr 2
  cases hlast : (above cells w.currentRow).getLast? with
  | none => rfl
  | some p =>
    have hp : p < w.currentRow := of_decide_eq_true (List.mem_filter.1 (List.mem_of_getLast? hlast)).2
    simp only [Option.map_some, Option.getD_some, between, h.widthAt_current]
    apply List.ext_getElem
    · simp
    · intro k h₁ h₂
      rw [List.length_map, List.length_reverse, List.length_range'] at h₁
      simp only [List.getElem_map, List.getElem_reverse, List.getElem_range', List.getElem_range, List.length_range',
        Prod.mk.injEq, and_true]
      omega

/-- One row down nothing is written yet. -/
theorem At.down (h : w.At empty first cells) {w' : DenseWalk T} (hrow : w'.currentRow = w.currentRow + 1)
    (hwidth : w'.width = w.width) (hvalues : w'.values = List.replicate w.width empty) (hvalue : w'.rowHasValue = false)
    (hrows : w'.rows = denseGrid empty first cells (above cells w'.currentRow))
    (hstarted : w'.started = !(above cells w'.currentRow).isEmpty)
    (hpending : w'.pendingEmpty = ((above cells w'.currentRow).getLast?.map fun p => w'.currentRow - (p + 1)).getD 0) :
    w'.At empty first cells := by
  have hbottom : ∀ c ∈ cells, c.1 < w'.currentRow := fun c hc => hrow ▸ Nat.lt_succ_of_le (h.bottom c hc)
  refine ⟨fun c hc => Nat.le_of_lt (hbottom c hc), hwidth.trans h.width, ?_, ?_, hrows, hstarted, hpending⟩
  · rw [hvalues, hwidth, cellsAt_below hbottom]
  · rw [hvalue]
    symm
    apply decide_eq_false
    intro hmem
    obtain ⟨x, hx, hxrow⟩ := List.mem_map.1 ((Grid.mem_populated _ _).1 hmem)
    exact absurd (hbottom _ (mem_valued hx)) (by simp [hxrow])

/-- Walking down a row. -/
theorem At.nextRow (h : w.At empty first cells) : (w.nextRow empty).At empty first cells := by
  by_cases hv : w.currentRow ∈ populated (valued cells)
  · have hhas : w.rowHasValue = true := by rw [h.hasValue, decide_eq_true hv]
    have habove := above_succ cells w.currentRow
    rw [if_pos hv] at habove
    have hlast : (above cells (w.currentRow + 1)).getLast? = some w.currentRow := by
      rw [habove, List.getLast?_append, List.getLast?_singleton]
      rfl
    unfold DenseWalk.nextRow
    simp only [hhas, if_true]
    refine h.down rfl rfl rfl rfl (h.release hv) ?_ ?_
    · simp [habove]
    · simp [hlast]
  · have hhas : w.rowHasValue = false := by rw [h.hasValue, decide_eq_false hv]
    have habove := above_succ cells w.currentRow
    rw [if_neg hv, List.append_nil] at habove
    have hrows : w.rows = denseGrid empty first cells (above cells (w.currentRow + 1)) := habove ▸ h.rows
    unfold DenseWalk.nextRow
    simp only [hhas, Bool.false_eq_true, if_false]
    cases hlast : (above cells w.currentRow).getLast? with
    | none =>
      -- no row has been handed on, and none is pending
      have hnil : above cells w.currentRow = [] := List.getLast?_eq_none_iff.1 hlast
      have hstarted : w.started = false := by rw [h.started, hnil]; rfl
      have hpending : w.pendingEmpty = 0 := by rw [h.pending, hnil]; rfl
      simp only [hstarted, Bool.false_eq_true, if_false]
      refine h.down rfl rfl rfl rfl hrows ?_ ?_
      · simp only [habove, hnil]
        rfl
      · simp only [habove, hnil, hpending]
        rfl
    | some p =>
      have hp : p < w.currentRow := of_decide_eq_true (List.mem_filter.1 (List.mem_of_getLast? hlast)).2
      have hne : above cells w.currentRow ≠ [] := List.ne_nil_of_mem (List.mem_of_getLast? hlast)
      have hstarted : w.started = true := by simpa [h.started] using hne
      have hpending := h.pending
      rw [hlast, Option.map_some, Option.getD_some] at hpending
      simp only [hstarted, if_true]
      refine h.down rfl rfl rfl rfl hrows ?_ ?_
      · simpa [habove] using hne
      · simp only [habove, hlast, Option.map_some, Option.getD_some, hpending]
        omega

theorem At.advance (h : w.At empty first cells) (count : Nat) :
    (w.advance empty count).At empty first cells ∧ (w.advance empty count).currentRow = w.currentRow + count := by
  induction count generalizing w with
  | zero => exact ⟨h, rfl⟩
  | succ count ih =>
    have hrow : (w.nextRow empty).currentRow = w.currentRow + 1 := rfl
    obtain ⟨hat, hcur⟩ := ih h.nextRow
    refine ⟨hat, ?_⟩
    rw [DenseWalk.advance, hcur, hrow]
    omega

theorem At.getElem?_values (h : w.At empty first cells) (n : Nat) :
    w.values[n]?.getD empty = (lastAt (valued cells) w.currentRow n).getD empty := by
  rcases Nat.lt_or_ge n w.width with hlt | hge
  · rw [h.values, cellsAt, List.getElem?_map, List.getElem?_range hlt]
    rfl
  · rw [List.getElem?_eq_none (h.length_values ▸ hge), lastAt_of_widthOf_le w.currentRow (h.width ▸ hge)]

/-- The row the walk is at, with a value written where none was. -/
theorem At.put_values (h : w.At empty first cells) {col : Nat} {value : T} {isEmpty : Bool}
    (hempty : isEmpty = true → value = empty) (hnew : ∀ d ∈ cells, d.1 = w.currentRow → d.2.1 ≠ col) :
    Grid.put empty w.values col value =
      cellsAt empty (valued (cells ++ [(w.currentRow, col, value, isEmpty)])) (max w.width (col + 1)) w.currentRow := by
  apply List.ext_getElem
  · rw [Grid.length_put, length_cellsAt, h.length_values]
  · intro n h₁ h₂
    simp only [Grid.getElem_put, h.getElem?_values, cellsAt, List.getElem_map, List.getElem_range, valued_append]
    cases isEmpty with
    | true =>
      obtain rfl : value = empty := hempty rfl
      have hnone : valued [(w.currentRow, col, value, true)] = [] := rfl
      rw [hnone, List.append_nil]
      split
      · next hcol =>
        rw [lastAt_eq_none]
        · rfl
        · rintro x hx ⟨hxr, hxc⟩
          exact hnew _ (mem_valued hx) hxr (hxc.trans hcol)
      · rfl
    | false =>
      have hone : valued [(w.currentRow, col, value, false)] = [⟨w.currentRow, col, value⟩] := rfl
      rw [hone, Grid.lastAt_concat]
      split
      · next hcol => rw [if_pos ⟨rfl, hcol.symm⟩, Option.getD_some]
      · next hcol => rw [if_neg fun hboth => hcol hboth.2.symm]

/-- Writing a cell at the row the walk is at. -/
theorem At.put (h : w.At empty first cells) {c : Nat × Nat × T × Bool} (hrow : c.1 = w.currentRow)
    (hempty : c.2.2.2 = true → c.2.2.1 = empty) (hnew : ∀ d ∈ cells, d.1 = c.1 → d.2.1 ≠ c.2.1) :
    (w.put empty c.2.1 c.2.2.1 c.2.2.2).At empty first (cells ++ [c]) := by
  obtain ⟨row, col, value, isEmpty⟩ := c
  obtain rfl : row = w.currentRow := hrow
  have hwidth : (w.put empty col value isEmpty).width = max w.width (col + 1) := by
    simp only [DenseWalk.put, List.length_append, List.length_replicate, h.length_values]
    omega
  have habove : above (cells ++ [(w.currentRow, col, value, isEmpty)]) w.currentRow = above cells w.currentRow := by
    unfold above
    rw [valued_append]
    cases isEmpty with
    | true => rw [show valued [(w.currentRow, col, value, true)] = [] from rfl, List.append_nil]
    | false => exact populated_filter_concat (valued cells) ⟨w.currentRow, col, value⟩
  have hrows : denseGrid empty first (cells ++ [(w.currentRow, col, value, isEmpty)]) (above cells w.currentRow) =
      denseGrid empty first cells (above cells w.currentRow) := by
    apply denseGrid_concat
    intro i hi
    exact of_decide_eq_true (List.mem_filter.1 hi).2
  have hmem : w.currentRow ∈ populated (valued (cells ++ [(w.currentRow, col, value, isEmpty)])) ↔
      w.currentRow ∈ populated (valued cells) ∨ isEmpty = false := by
    rw [valued_append, Grid.mem_populated, Grid.mem_populated, List.map_append, List.mem_append]
    cases isEmpty <;> simp [valued]
  constructor
  · intro d hd
    rcases List.mem_append.1 hd with hd | hd
    · exact h.bottom d hd
    · rw [List.mem_singleton.1 hd]
      exact Nat.le_refl _
  · rw [hwidth, widthOf_concat, h.width]
  · rw [hwidth]
    exact h.put_values hempty hnew
  · show (w.rowHasValue || !isEmpty) = decide (w.currentRow ∈ _)
    rw [h.hasValue]
    cases isEmpty <;> simp [hmem]
  · show w.rows = denseGrid empty first _ (above _ w.currentRow)
    rw [habove, hrows, h.rows]
  · show w.started = !(above _ w.currentRow).isEmpty
    rw [habove, h.started]
  · show w.pendingEmpty = ((above _ w.currentRow).getLast?.map fun p => w.currentRow - (p + 1)).getD 0
    rw [habove, h.pending]

/-- Before the first cell, whatever its row. -/
theorem start_at (empty : T) (dims : Calamine.Dimensions) (row : Nat) :
    At empty (dims.end.2 + 1) [] { start empty dims with currentRow := row, isOpen := true } := by
  have hnone : ∀ c ∈ ([] : List (Nat × Nat × T × Bool)), c.1 < row := fun c hc => absurd hc List.not_mem_nil
  exact ⟨fun c hc => absurd hc List.not_mem_nil, rfl, (cellsAt_below hnone _).symm, rfl, rfl, rfl, rfl⟩

theorem advance_isOpen (count : Nat) (w : DenseWalk T) : (w.advance empty count).isOpen = w.isOpen := by
  induction count generalizing w with
  | zero => rfl
  | succ count ih =>
    rw [DenseWalk.advance, ih]
    unfold DenseWalk.nextRow
    split
    · rfl
    · split <;> rfl

/-- The walk over cells in order, each after the ones before it by row and then by column. -/
theorem walk_at {cells : List (Nat × Nat × T × Bool)}
    (hasc : cells.Pairwise fun a b => a.1 < b.1 ∨ a.1 = b.1 ∧ a.2.1 < b.2.1)
    (hempty : ∀ c ∈ cells, c.2.2.2 = true → c.2.2.1 = empty) (dims : Calamine.Dimensions) :
    cells = [] ∨ ((cells.foldl (next empty) (.start empty dims)).At empty (dims.end.2 + 1) cells ∧
      (cells.foldl (next empty) (.start empty dims)).isOpen = true ∧
      ∃ c ∈ cells, c.1 = (cells.foldl (next empty) (.start empty dims)).currentRow) := by
  induction cells using List.reverseRecOn with
  | nil => exact .inl rfl
  | append_singleton cells c ih =>
    obtain ⟨hbefore, -, hlate⟩ := List.pairwise_append.1 hasc
    have hnew : ∀ d ∈ cells, d.1 = c.1 → d.2.1 ≠ c.2.1 := by
      intro d hd hrow hcol
      rcases hlate d hd c (List.mem_singleton.2 rfl) with hlt | ⟨-, hlt⟩ <;> omega
    have hblank : c.2.2.2 = true → c.2.2.1 = empty := hempty c (by simp)
    refine .inr ?_
    rw [List.foldl_append]
    rcases ih hbefore fun d hd => hempty d (List.mem_append_left _ hd) with rfl | ⟨hat, hopen, d, hd, hrow⟩
    · have hput := (start_at empty dims c.1).put rfl hblank hnew
      exact ⟨hput, rfl, c, by simp, rfl⟩
    · -- the walk goes down to the row of the cell and writes it there
      have hle : (cells.foldl (next empty) (.start empty dims)).currentRow ≤ c.1 := by
        rw [← hrow]
        rcases hlate d hd c (List.mem_singleton.2 rfl) with hlt | ⟨heq, -⟩
        · exact Nat.le_of_lt hlt
        · exact Nat.le_of_eq heq
      generalize cells.foldl (next empty) (.start empty dims) = w at hat hopen hle
      obtain ⟨hdown, hcur⟩ := hat.advance (c.1 - w.currentRow)
      rw [Nat.add_sub_cancel' hle] at hcur
      have hput := hdown.put hcur.symm hblank hnew
      have hstep : next empty w c = (w.advance empty (c.1 - w.currentRow)).put empty c.2.1 c.2.2.1 c.2.2.2 := by
        rw [next, hopen, if_pos rfl]
      rw [List.foldl_cons, List.foldl_nil, hstep]
      exact ⟨hput, (advance_isOpen _ _).trans hopen, c, by simp, hcur.symm⟩

end DenseWalk

theorem walkDense_eq {empty : T} {cells : List (Nat × Nat × T × Bool)}
    (hasc : cells.Pairwise fun a b => a.1 < b.1 ∨ a.1 = b.1 ∧ a.2.1 < b.2.1)
    (hempty : ∀ c ∈ cells, c.2.2.2 = true → c.2.2.1 = empty) (dims : Calamine.Dimensions) :
    walkDense empty dims cells = denseGrid empty (dims.end.2 + 1) cells (populated (valued cells)) := by
  rcases DenseWalk.walk_at hasc hempty dims with rfl | ⟨hat, hopen, -⟩
  · rfl
  · unfold walkDense
    generalize cells.foldl (DenseWalk.next empty) (.start empty dims) = w at hat hopen
    by_cases hv : w.currentRow ∈ populated (valued cells)
    · have hhas : w.rowHasValue = true := by rw [hat.hasValue, decide_eq_true hv]
      simp only [hopen, hhas, Bool.and_self, if_true]
      rw [hat.release hv, hat.above_succ_current]
    · have hhas : w.rowHasValue = false := by rw [hat.hasValue, decide_eq_false hv]
      have habove := DenseWalk.above_succ cells w.currentRow
      rw [if_neg hv, List.append_nil, hat.above_succ_current] at habove
      simp only [hopen, hhas, Bool.and_false, Bool.false_eq_true, if_false]
      rw [hat.rows, habove]

/-! ## Values changed -/

/-- The walk over other values. -/
def DenseWalk.map {U : Type} (g : T → U) (w : DenseWalk T) : DenseWalk U where
  width := w.width
  currentRow := w.currentRow
  values := w.values.map g
  isOpen := w.isOpen
  rowHasValue := w.rowHasValue
  started := w.started
  pendingEmpty := w.pendingEmpty
  rows := w.rows.map fun x => (x.1, x.2.map g)

section map

variable {U : Type} (g : T → U) (empty : T)

theorem DenseWalk.release_map (w : DenseWalk T) :
    (w.map g).release (g empty) = (w.release empty).map fun x => (x.1, x.2.map g) := by
  simp [DenseWalk.release, DenseWalk.map]

theorem DenseWalk.nextRow_map (w : DenseWalk T) : (w.map g).nextRow (g empty) = (w.nextRow empty).map g := by
  have hvalue : (w.map g).rowHasValue = w.rowHasValue := rfl
  have hstarted : (w.map g).started = w.started := rfl
  simp only [DenseWalk.nextRow, hvalue, hstarted, w.release_map g empty]
  split
  · simp [DenseWalk.map]
  · split <;> simp [DenseWalk.map]

theorem DenseWalk.advance_map (count : Nat) (w : DenseWalk T) :
    (w.map g).advance (g empty) count = (w.advance empty count).map g := by
  induction count generalizing w with
  | zero => rfl
  | succ count ih => rw [DenseWalk.advance, DenseWalk.advance, nextRow_map, ih]

theorem DenseWalk.next_map (w : DenseWalk T) (c : Nat × Nat × T × Bool) :
    (w.map g).next (g empty) (c.1, c.2.1, g c.2.2.1, c.2.2.2) = (w.next empty c).map g := by
  have hput : ∀ w : DenseWalk T, (w.map g).put (g empty) c.2.1 (g c.2.2.1) c.2.2.2 =
      (w.put empty c.2.1 c.2.2.1 c.2.2.2).map g := by
    intro w
    simp [DenseWalk.put, DenseWalk.map]
  have hopen : (w.map g).isOpen = w.isOpen := rfl
  simp only [DenseWalk.next, hopen]
  split
  · rw [← hput, ← advance_map]
    rfl
  · exact hput { w with currentRow := c.1, isOpen := true }

/-- The walk does nothing with a value but place it. -/
theorem walkDense_map (dims : Calamine.Dimensions) (cells : List (Nat × Nat × T × Bool)) :
    walkDense (g empty) dims (cells.map fun c => (c.1, c.2.1, g c.2.2.1, c.2.2.2)) =
      (walkDense empty dims cells).map fun x => (x.1, x.2.map g) := by
  have hfold : ∀ w : DenseWalk T,
      (cells.map fun c => (c.1, c.2.1, g c.2.2.1, c.2.2.2)).foldl (DenseWalk.next (g empty)) (w.map g) =
        (cells.foldl (DenseWalk.next empty) w).map g := by
    intro w
    rw [List.foldl_map]
    induction cells generalizing w with
    | nil => rfl
    | cons c cells ih => rw [List.foldl_cons, List.foldl_cons, DenseWalk.next_map, ih]
  have hstart : DenseWalk.start (g empty) dims = (DenseWalk.start empty dims).map g := by
    simp [DenseWalk.start, DenseWalk.map]
  unfold walkDense
  rw [hstart, hfold]
  generalize cells.foldl (DenseWalk.next empty) (.start empty dims) = w
  have hrelease := w.release_map g empty
  have hboth : ((w.map g).isOpen && (w.map g).rowHasValue) = (w.isOpen && w.rowHasValue) := rfl
  have hrows : (w.map g).rows = w.rows.map fun x => (x.1, x.2.map g) := rfl
  simp only [hboth, hrelease, hrows, ← List.map_append]
  split <;> rfl

end map

/-- Every value handed on was read, or is blank. -/
theorem walkDense_forall {P : T → Prop} {empty : T} (hempty : P empty) (dims : Calamine.Dimensions)
    {cells : List (Nat × Nat × T × Bool)} (h : ∀ c ∈ cells, P c.2.2.1) :
    ∀ x ∈ walkDense empty dims cells, ∀ v ∈ x.2, P v := by
  have hcells : cells = (cells.attach.map fun c => (c.1.1, c.1.2.1, (⟨c.1.2.2.1, h c.1 c.2⟩ : Subtype P), c.1.2.2.2)).map
      fun c => (c.1, c.2.1, c.2.2.1.1, c.2.2.2) := by
    rw [List.map_map]
    exact (List.attach_map_subtype_val cells).symm
  have hmap := walkDense_map Subtype.val (⟨empty, hempty⟩ : Subtype P) dims
    (cells.attach.map fun c => (c.1.1, c.1.2.1, (⟨c.1.2.2.1, h c.1 c.2⟩ : Subtype P), c.1.2.2.2))
  rw [← hcells] at hmap
  rw [hmap]
  intro x hx v hv
  obtain ⟨y, -, rfl⟩ := List.mem_map.1 hx
  obtain ⟨u, -, rfl⟩ := List.mem_map.1 hv
  exact u.2

/-! ## Rows under one another -/

/-- Rows with nothing left out between them, none narrower than one before. -/
structure Stack (first : Nat) (rows : List (Nat × List T)) : Prop where
  indices : rows.map (·.1) = List.range' first rows.length
  widths : rows.Pairwise fun x y => x.2.length ≤ y.2.length
  positive : ∀ x ∈ rows, 0 < x.2.length

theorem Stack.append {first : Nat} {rows rows' : List (Nat × List T)} (h : Stack first rows)
    (h' : Stack (first + rows.length) rows') (hw : ∀ x ∈ rows, ∀ y ∈ rows', x.2.length ≤ y.2.length) :
    Stack first (rows ++ rows') where
  indices := by
    rw [List.map_append, h.indices, h'.indices, List.length_append]
    exact List.range'_append_1
  widths := List.pairwise_append.2 ⟨h.widths, h'.widths, hw⟩
  positive x hx := (List.mem_append.1 hx).elim (h.positive x) (h'.positive x)

theorem Stack.infix {first : Nat} {before rows after : List (Nat × List T)}
    (h : Stack first (before ++ rows ++ after)) : Stack (first + before.length) rows where
  indices := by
    have hindices := h.indices
    rw [List.append_assoc, List.map_append, List.map_append, List.length_append, List.length_append,
      ← List.range'_append_1, ← List.range'_append_1] at hindices
    have hdrop := List.append_inj_right hindices (by simp)
    exact List.append_inj_left hdrop (by simp)
  widths := (List.pairwise_append.1 (List.pairwise_append.1 h.widths).1).2.1
  positive x hx := h.positive x (List.mem_append_left _ (List.mem_append_right _ hx))

/-- Where the dense walk is, whatever cells it was given. -/
structure DenseWalk.Stacked (w : DenseWalk T) : Prop where
  stack : ∃ first, Stack first w.rows ∧ first + w.rows.length + w.pendingEmpty = w.currentRow
  within : ∀ x ∈ w.rows, x.2.length ≤ w.width
  values : w.values.length = w.width
  positive : 0 < w.width
  started : w.started = false → w.rows = [] ∧ w.pendingEmpty = 0
  opened : w.isOpen = false → w.started = false

namespace DenseWalk

variable {empty : T} {w : DenseWalk T}

theorem Stacked.width_release (h : w.Stacked) : ∀ x ∈ w.release empty, x.2.length = w.width := by
  intro x hx
  rcases List.mem_append.1 hx with hx | hx
  · obtain ⟨_, -, rfl⟩ := List.mem_map.1 hx
    exact List.length_replicate
  · rw [List.mem_singleton.1 hx]
    exact h.values

variable (empty) in
/-- A row with a value brings the blank ones before it along. -/
theorem Stacked.release (h : w.Stacked) :
    ∃ first, Stack first (w.rows ++ w.release empty) ∧
      first + (w.rows ++ w.release empty).length = w.currentRow + 1 := by
  obtain ⟨first, hstack, hcur⟩ := h.stack
  have hlen : (w.release empty).length = w.pendingEmpty + 1 := by simp [DenseWalk.release]
  have hindices : (w.release empty).map (·.1) = List.range' (first + w.rows.length) (w.release empty).length := by
    rw [hlen]
    apply List.ext_getElem
    · rw [List.length_map, hlen, List.length_range']
    · intro k h₁ h₂
      rw [List.length_map, hlen] at h₁
      rw [List.getElem_map, List.getElem_range']
      unfold DenseWalk.release
      rw [List.getElem_append]
      split
      · next hk =>
        simp only [List.length_map, List.length_reverse, List.length_range'] at hk
        simp only [List.getElem_map, List.getElem_reverse, List.getElem_range', List.length_range']
        omega
      · next hk =>
        simp only [List.length_map, List.length_reverse, List.length_range'] at hk
        simp only [List.getElem_singleton]
        omega
  have hrelease : Stack (first + w.rows.length) (w.release empty) := by
    refine ⟨hindices, List.pairwise_of_forall_mem_list fun x hx y hy => ?_, fun x hx => ?_⟩
    · rw [h.width_release x hx, h.width_release y hy]
    · rw [h.width_release x hx]
      exact h.positive
  refine ⟨first, hstack.append hrelease fun x hx y hy => ?_, ?_⟩
  · rw [h.width_release y hy]
    exact h.within x hx
  · rw [List.length_append, hlen]
    omega

theorem Stacked.nextRow (h : w.Stacked) (hopen : w.isOpen = true) : (w.nextRow empty).Stacked := by
  obtain ⟨first, hrows, hcur⟩ := h.release empty
  obtain ⟨first', hstack, hcur'⟩ := h.stack
  unfold DenseWalk.nextRow
  cases hv : w.rowHasValue with
  | true =>
    refine ⟨⟨first, hrows, hcur⟩, ?_, List.length_replicate, h.positive, nofun, fun hc => absurd (hopen.symm.trans hc) nofun⟩
    intro x hx
    rcases List.mem_append.1 hx with hx | hx
    · exact h.within x hx
    · exact Nat.le_of_eq (h.width_release x hx)
  | false =>
    cases hs : w.started with
    | true =>
      have hnext : first' + w.rows.length + (w.pendingEmpty + 1) = w.currentRow + 1 := by omega
      exact ⟨⟨first', hstack, hnext⟩, h.within, List.length_replicate, h.positive, nofun,
        fun hc => absurd (hopen.symm.trans hc) nofun⟩
    | false =>
      -- nothing has been handed on, and nothing is
      obtain ⟨hnil, hpending⟩ := h.started hs
      refine ⟨⟨w.currentRow + 1, ?_, ?_⟩, h.within, List.length_replicate, h.positive, fun _ => ⟨hnil, hpending⟩,
        fun _ => hs⟩
      · show Stack _ w.rows
        rw [hnil]
        exact ⟨rfl, .nil, fun x hx => absurd hx List.not_mem_nil⟩
      · show w.currentRow + 1 + w.rows.length + w.pendingEmpty = w.currentRow + 1
        rw [hnil, hpending]
        rfl

theorem Stacked.advance (h : w.Stacked) (hopen : w.isOpen = true) (count : Nat) : (w.advance empty count).Stacked := by
  induction count generalizing w with
  | zero => exact h
  | succ count ih =>
    have hone : (w.nextRow empty).isOpen = true := (advance_isOpen 1 w).trans hopen
    exact ih (h.nextRow hopen) hone

theorem Stacked.put (h : w.Stacked) (idx : Nat) (value : T) (isEmpty : Bool) : (w.put empty idx value isEmpty).Stacked := by
  have hlen : (w.values ++ List.replicate (idx + 1 - w.values.length) empty).length = max w.width (idx + 1) := by
    rw [List.length_append, List.length_replicate, h.values]
    omega
  have hpos := h.positive
  refine ⟨h.stack, fun x hx => Nat.le_trans (h.within x hx) (Nat.le_max_left _ _), ?_,
    Nat.lt_of_lt_of_le hpos (Nat.le_max_left _ _), h.started, h.opened⟩
  show List.length (List.set _ idx value) = max w.width _
  rw [List.length_set, hlen]
  omega

theorem Stacked.next (h : w.Stacked) (c : Nat × Nat × T × Bool) : (w.next empty c).Stacked := by
  unfold DenseWalk.next
  cases hopen : w.isOpen with
  | true => exact (h.advance hopen _).put _ _ _
  | false =>
    have hstarted := h.opened hopen
    obtain ⟨hnil, hpending⟩ := h.started hstarted
    have hat : ({ w with currentRow := c.1, isOpen := true } : DenseWalk T).Stacked := by
      refine ⟨⟨c.1, ?_, ?_⟩, h.within, h.values, h.positive, h.started, fun _ => hstarted⟩
      · show Stack _ w.rows
        rw [hnil]
        exact ⟨rfl, .nil, fun x hx => absurd hx List.not_mem_nil⟩
      · show c.1 + w.rows.length + w.pendingEmpty = c.1
        rw [hnil, hpending]
        rfl
    exact hat.put _ _ _

end DenseWalk

/-- The rows handed on stand one under the other, in whatever order the cells come. -/
theorem walkDense_stack (empty : T) (dims : Calamine.Dimensions) (cells : List (Nat × Nat × T × Bool)) :
    ∃ first, Stack first (walkDense empty dims cells) := by
  have hstart : (DenseWalk.start empty dims).Stacked :=
    ⟨⟨dims.start.1, ⟨rfl, .nil, fun x hx => absurd hx List.not_mem_nil⟩, rfl⟩, fun x hx => absurd hx List.not_mem_nil,
      List.length_replicate, Nat.succ_pos _, fun _ => ⟨rfl, rfl⟩, fun _ => rfl⟩
  have hrun : (cells.foldl (DenseWalk.next empty) (.start empty dims)).Stacked := by
    induction cells using List.reverseRecOn with
    | nil => exact hstart
    | append_singleton cells c ih =>
      rw [List.foldl_append]
      exact ih.next c
  unfold walkDense
  dsimp only
  split
  · obtain ⟨first, hstack, -⟩ := hrun.release empty
    exact ⟨first, hstack⟩
  · obtain ⟨first, hstack, -⟩ := hrun.stack
    exact ⟨first, hstack⟩

end GrpcCalamine.Bench
