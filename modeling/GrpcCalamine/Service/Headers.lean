import GrpcCalamine.Service.Bodies
import GrpcCalamine.Service.FormulaSpec
/-!
# The cell counts of headers

Three builders multiply the sides of an extent in a `u64` or a `usize`. The
product is exact unless the extent is the whole grid of 2^32 rows by 2^32
columns (`product_lt_iff`), and then it is zero.
-/

namespace GrpcCalamine

open Grid (corners)

/-- Rows times columns, 0 when an end precedes its start. -/
def extentCells (lo hi : Nat × Nat) : Nat :=
  if hi.1 < lo.1 ∨ hi.2 < lo.2 then 0 else (hi.1 - lo.1 + 1) * (hi.2 - lo.2 + 1)

/-- The extent of all `u32` rows and columns. -/
def WholeGrid (lo hi : Nat × Nat) : Prop := lo = (0, 0) ∧ hi = (2 ^ 32 - 1, 2 ^ 32 - 1)

/-- No step of `(u64::from(hi.0 - lo.0) + 1) * (u64::from(hi.1 - lo.1) + 1)`
leaves its type. -/
structure StepsFit (lo hi : Nat × Nat) : Prop where
  rows : lo.1 ≤ hi.1 ∧ hi.1 - lo.1 + 1 < 2 ^ 64
  columns : lo.2 ≤ hi.2 ∧ hi.2 - lo.2 + 1 < 2 ^ 64
  product : (hi.1 - lo.1 + 1) * (hi.2 - lo.2 + 1) < 2 ^ 64

section

variable {lo hi : Nat × Nat}

theorem product_lt_iff (hu : hi.1 < 2 ^ 32 ∧ hi.2 < 2 ^ 32) (hle : lo.1 ≤ hi.1 ∧ lo.2 ≤ hi.2) :
    (hi.1 - lo.1 + 1) * (hi.2 - lo.2 + 1) < 2 ^ 64 ↔ ¬ WholeGrid lo hi := by
  constructor
  · rintro hlt ⟨rfl, rfl⟩
    exact absurd hlt (by decide)
  · intro hnot
    have hside : hi.1 - lo.1 + 1 ≤ 2 ^ 32 - 1 ∨ hi.2 - lo.2 + 1 ≤ 2 ^ 32 - 1 := by
      by_contra hbig
      refine hnot ⟨Prod.ext ?_ ?_, Prod.ext ?_ ?_⟩ <;> simp only [] <;> omega
    have hrows : hi.1 - lo.1 + 1 ≤ 2 ^ 32 := by omega
    have hcols : hi.2 - lo.2 + 1 ≤ 2 ^ 32 := by omega
    rcases hside with h | h
    · exact Nat.lt_of_le_of_lt (Nat.mul_le_mul h hcols) (by decide)
    · exact Nat.lt_of_le_of_lt (Nat.mul_le_mul hrows h) (by decide)

theorem stepsFit_iff (hu : hi.1 < 2 ^ 32 ∧ hi.2 < 2 ^ 32) (hle : lo.1 ≤ hi.1 ∧ lo.2 ≤ hi.2) :
    StepsFit lo hi ↔ ¬ WholeGrid lo hi := by
  rw [← product_lt_iff hu hle]
  exact ⟨StepsFit.product, fun h => ⟨⟨hle.1, by omega⟩, ⟨hle.2, by omega⟩, h⟩⟩

theorem extentCells_ordered (hle : lo.1 ≤ hi.1 ∧ lo.2 ≤ hi.2) :
    extentCells lo hi = (hi.1 - lo.1 + 1) * (hi.2 - lo.2 + 1) :=
  if_neg (by omega)

end

/-- The header counts the cells of its extent, and no step on the way
overflows. -/
def CountExact (total : Nat) (lo hi : Nat × Nat) : Prop :=
  total = extentCells lo hi ∧ (lo.1 ≤ hi.1 ∧ lo.2 ≤ hi.2 → StepsFit lo hi)

/-- The wrapping product of an ordered extent. -/
theorem countExact_wrapMul_iff {lo hi : Nat × Nat} (hu : hi.1 < 2 ^ 32 ∧ hi.2 < 2 ^ 32)
    (hle : lo.1 ≤ hi.1 ∧ lo.2 ≤ hi.2) :
    CountExact (wrapMul (hi.1 - lo.1 + 1) (hi.2 - lo.2 + 1)) lo hi ↔ ¬ WholeGrid lo hi := by
  rw [CountExact, extentCells_ordered hle, wrapMul_eq_iff, product_lt_iff hu hle, stepsFit_iff hu hle]
  exact ⟨And.left, fun h => ⟨h, fun _ => h⟩⟩

theorem declared_exact_iff (dims : Calamine.Dimensions) (hu : dims.end.1 < 2 ^ 32 ∧ dims.end.2 < 2 ^ 32) :
    CountExact (declaredTotalCells dims) dims.start dims.end ↔ ¬ WholeGrid dims.start dims.end := by
  by_cases hle : dims.start.1 ≤ dims.end.1 ∧ dims.start.2 ≤ dims.end.2
  · rw [declaredTotalCells, if_neg (by omega)]
    exact countExact_wrapMul_iff hu hle
  · have hempty : dims.end.1 < dims.start.1 ∨ dims.end.2 < dims.start.2 := by omega
    rw [declaredTotalCells, if_pos hempty, CountExact, extentCells, if_pos hempty]
    refine ⟨fun _ hgrid => hle ?_, fun _ => ⟨rfl, fun h => absurd h hle⟩⟩
    rw [hgrid.1, hgrid.2]
    decide

/-- What calamine keeps of a range with cells: corners in order, a row for each
row from one to the other, each as wide as their columns. Both sides are counted
in a `u32`: a side of 2^32 would wrap to 0, and such a range comes out empty. -/
structure Calamine.Range.Dense {α : Type} (range : Calamine.Range α) (lo hi : Nat × Nat) : Prop where
  start : range.start = some lo
  last : range.end = some hi
  ordered : lo.1 ≤ hi.1 ∧ lo.2 ≤ hi.2
  u32 : hi.1 < 2 ^ 32 ∧ hi.2 < 2 ^ 32
  sides : hi.1 - lo.1 + 1 < 2 ^ 32 ∧ hi.2 - lo.2 + 1 < 2 ^ 32
  size : range.size = (hi.1 - lo.1 + 1, hi.2 - lo.2 + 1)
  height : range.rows.length = hi.1 - lo.1 + 1
  width : ∀ row ∈ range.rows, row.length = hi.2 - lo.2 + 1

/-- Its sides are too short for the whole grid. -/
theorem Calamine.Range.Dense.not_wholeGrid {α : Type} {range : Calamine.Range α} {lo hi : Nat × Nat}
    (h : range.Dense lo hi) : ¬ WholeGrid lo hi := by
  rintro ⟨rfl, rfl⟩
  exact absurd h.sides.1 (by decide)

theorem dense_exact {α : Type} (sheetName : String) {range : Calamine.Range α} {lo hi : Nat × Nat}
    (h : range.Dense lo hi) (merged : List Pb.Dimensions) :
    CountExact (rangeHeader sheetName range merged).totalCells lo hi := by
  have htotal : (rangeHeader sheetName range merged).totalCells =
      wrapMul (hi.1 - lo.1 + 1) (hi.2 - lo.2 + 1) := by
    simp only [rangeHeader, h.start, h.last, h.size]
  rw [htotal, countExact_wrapMul_iff h.u32 h.ordered]
  exact h.not_wholeGrid

/-- Five rows of four cells: 1.0 at the top left, 9.0 at the bottom right. -/
def gapRange : Calamine.Range Calamine.Data :=
  { start := some (0, 0), «end» := some (4, 3), size := (5, 4),
    rows := [[.float 0x3FF0000000000000, .empty, .empty, .empty], [.empty, .empty, .empty, .empty],
      [.empty, .empty, .empty, .empty], [.empty, .empty, .empty, .empty],
      [.empty, .empty, .empty, .float 0x4022000000000000]] }

theorem gapRange_dense : gapRange.Dense (0, 0) (4, 3) where
  start := rfl
  last := rfl
  ordered := by decide
  u32 := by decide
  sides := by decide
  size := rfl
  height := rfl
  width := by decide

/-- What the stream of some formula cells begins with. -/
theorem sparse_header {fmt : Fmt} {sheetName : String} {maxDenseCells : Nat} {cells : List FormulaCell}
    {lo hi : Nat × Nat} (hc : corners cells = some (lo, hi))
    (haccepted : checkDense fmt sheetName (hi.1 - lo.1 + 1) (hi.2 + 1) maxDenseCells = .ok ()) :
    ∃ header, (emitSparseFormulas fmt sheetName cells maxDenseCells).events.head? = some (.event (.started header)) ∧
      header.dimensions = some ⟨some (Convert.cellPosition lo), some (Convert.cellPosition hi)⟩ ∧
      header.totalCells = wrapMul (hi.1 - lo.1 + 1) (hi.2 - lo.2 + 1) := by
  obtain ⟨⟨first, last, hfirst, hlast, hrow₀, hrow₁⟩, hcol₀, hcol₁⟩ := sorted_corners hc
  simp only [emitSparseFormulas, hfirst, hlast, hrow₀, hrow₁, hcol₀, hcol₁, Option.getD_some, haccepted]
  exact ⟨_, rfl, rfl, rfl⟩

/-- Formula cells lie in the grid of `u32` rows and columns. -/
def InGrid (cells : List FormulaCell) : Prop := ∀ c ∈ cells, c.row < 2 ^ 32 ∧ c.col < 2 ^ 32

theorem InGrid.corners {cells : List FormulaCell} (h : InGrid cells) {lo hi : Nat × Nat}
    (hc : corners cells = some (lo, hi)) : (hi.1 < 2 ^ 32 ∧ hi.2 < 2 ^ 32) ∧ lo.1 ≤ hi.1 ∧ lo.2 ≤ hi.2 := by
  have hb := Grid.corners_bounds hc
  obtain ⟨b, hbm, hbr⟩ := hb.bottom
  obtain ⟨r, hrm, hrc⟩ := hb.right
  have hbu := h b hbm
  have hru := h r hrm
  have hin := hb.within b hbm
  omega

/-- A header counts the cells of its extent, with no overflow on the way,
unless the extent is the whole grid; a dense range never is. -/
theorem header_cells_exact_iff (fmt : Fmt) (sheetName : String) (merged : List Pb.Dimensions) :
    (∀ dims : Calamine.Dimensions, dims.end.1 < 2 ^ 32 ∧ dims.end.2 < 2 ^ 32 →
      (CountExact (declaredHeader sheetName dims merged).totalCells dims.start dims.end ↔
        ¬ WholeGrid dims.start dims.end)) ∧
    (∀ (α : Type) (range : Calamine.Range α), (range.start = none → (rangeHeader sheetName range merged).totalCells = 0) ∧
      ∀ lo hi, range.Dense lo hi → CountExact (rangeHeader sheetName range merged).totalCells lo hi) ∧
    (∀ (cells : List FormulaCell) (maxDenseCells : Nat), InGrid cells → ∀ lo hi, corners cells = some (lo, hi) →
      checkDense fmt sheetName (hi.1 - lo.1 + 1) (hi.2 + 1) maxDenseCells = .ok () →
      ∃ header, (emitSparseFormulas fmt sheetName cells maxDenseCells).events.head? = some (.event (.started header)) ∧
        (CountExact header.totalCells lo hi ↔ ¬ WholeGrid lo hi)) := by
  refine ⟨fun dims hu => declared_exact_iff dims hu, fun α range => ⟨fun hnone => ?_, fun lo hi h => ?_⟩, ?_⟩
  · simp only [rangeHeader, hnone]
  · exact dense_exact sheetName h merged
  · intro cells maxDenseCells hgrid lo hi hc haccepted
    obtain ⟨header, hhead, -, htotal⟩ := sparse_header hc haccepted
    obtain ⟨hu, hle⟩ := hgrid.corners hc
    exact ⟨header, hhead, htotal ▸ countExact_wrapMul_iff hu hle⟩

/-- Formulas at the corners of the same extent, the last one first. -/
def gapFormulas : List FormulaCell := [⟨4, 3, "A1"⟩, ⟨0, 0, "SUM(B1)"⟩]

theorem header_cells_exact_iff_gap :
    CountExact (declaredHeader "Sheet1" ⟨(0, 0), (4, 3)⟩ []).totalCells (0, 0) (4, 3) ∧
    CountExact (rangeHeader "Sheet1" gapRange []).totalCells (0, 0) (4, 3) ∧
    ∃ header, (emitSparseFormulas ⟨fun _ => true⟩ "Sheet1" gapFormulas 20).events.head? = some (.event (.started header)) ∧
      CountExact header.totalCells (0, 0) (4, 3) := by
  obtain ⟨hdeclared, hdense, hsparse⟩ := header_cells_exact_iff ⟨fun _ => true⟩ "Sheet1" []
  have hnot : ¬ WholeGrid (0, 0) (4, 3) := gapRange_dense.not_wholeGrid
  obtain ⟨header, hhead, hcount⟩ := hsparse gapFormulas 20 (by unfold InGrid; decide) (0, 0) (4, 3) (by decide) rfl
  exact ⟨(hdeclared ⟨(0, 0), (4, 3)⟩ (by decide)).2 hnot, (hdense Calamine.Data gapRange).2 (0, 0) (4, 3) gapRange_dense,
    header, hhead, hcount.2 hnot⟩

/-- The whole grid, as a worksheet may declare it. -/
def wholeGrid : Calamine.Dimensions := ⟨(0, 0), (2 ^ 32 - 1, 2 ^ 32 - 1)⟩

/-- The whole grid counts as empty. -/
theorem whole_grid_counts_zero : (declaredHeader "Sheet1" wholeGrid []).totalCells = 0 ∧
    extentCells wholeGrid.start wholeGrid.end = 2 ^ 64 := by decide

end GrpcCalamine
