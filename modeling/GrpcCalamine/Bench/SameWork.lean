import GrpcCalamine.Bench.Arriving
import GrpcCalamine.Bench.Walks
/-!
# When the arms do the same work

The native arms pad a row, and the rows before it, to the declared extent and
to the widest row above; the server ends a row at its last value, and the gRPC
arm fills a gap in as wide as the row before it. Both grids are the same rows
filled in two ways, the server's nowhere wider, so they are one exactly when
they have as many cells. The native arms digest the values read, the gRPC arm
what arrives of them: the same, but for a date serial of -0.0
(`same_work_iff`).
-/

namespace GrpcCalamine.Bench

open Grid (announce populated filled between tally Level)

/-- The calls for a grid, a value digested by `f`. -/
def gridCalls (f : Calamine.DataRef → DigestCall) (rows : List (Nat × List Calamine.DataRef)) : List DigestCall :=
  rows.flatMap fun x => .row x.1 :: x.2.map f

section gridCalls

variable {f : Calamine.DataRef → DigestCall}

theorem gridCalls_append (rows rows' : List (Nat × List Calamine.DataRef)) :
    gridCalls f (rows ++ rows') = gridCalls f rows ++ gridCalls f rows' :=
  List.flatMap_append

theorem gridCalls_cons (i : Nat) (values : List Calamine.DataRef) (rows : List (Nat × List Calamine.DataRef)) :
    gridCalls f ((i, values) :: rows) = .row i :: values.map f ++ gridCalls f rows := rfl

/-- The digest counts the cells of a grid. -/
theorem cells_gridCalls (hf : ∀ d, ∃ tag payload, f d = .cell tag payload) (rows : List (Nat × List Calamine.DataRef))
    (d : Digest) : ((gridCalls f rows).foldl Digest.call d).cells = d.cells + tally rows := by
  have hcells : ∀ (values : List Calamine.DataRef) (d : Digest),
      ((values.map f).foldl Digest.call d).cells = d.cells + values.length := by
    intro values d
    induction values generalizing d with
    | nil => rfl
    | cons v values ih =>
      obtain ⟨tag, payload, hcell⟩ := hf v
      rw [List.map_cons, List.foldl_cons, ih, hcell, Digest.call, Digest.cells_cell, List.length_cons]
      omega
  induction rows generalizing d with
  | nil => rfl
  | cons x rows ih =>
    rw [gridCalls_cons, List.foldl_append, List.foldl_cons, ih, hcells, Digest.call, Digest.cells_row]
    simp only [tally, List.map_cons, List.sum_cons]
    omega

end gridCalls

/-- What arrives of a grid. -/
theorem gridCalls_arriving (rows : List (Nat × List Calamine.DataRef)) :
    gridCalls (fun d => digestRef (arriving d)) rows = (gridCalls digestRef rows).map arrivingCall := by
  have hrow : ∀ i, arrivingCall (.row i) = .row i := fun i => if_neg nofun
  simp only [gridCalls, List.map_flatMap, List.map_cons, List.map_map, hrow, Function.comp_def, digestRef_arriving]

theorem digestRef_cell (d : Calamine.DataRef) : ∃ tag payload, digestRef d = .cell tag payload := by
  cases d <;> exact ⟨_, _, rfl⟩

/-! ## The native arms -/

/-- The grid both native arms walk. -/
def nativeGrid (dims : Calamine.Dimensions) (cells : List ReadCell) : List (Nat × List Calamine.DataRef) :=
  walkDense .empty dims (readCells id cells)

theorem readCells_map {T : Type} (g : Calamine.DataRef → T) (cells : List ReadCell) :
    (readCells id cells).map (fun c => (c.1, c.2.1, g c.2.2.1, c.2.2.2)) = readCells g cells := by
  simp [readCells]

theorem armNativeDense_eq (dims : Calamine.Dimensions) (cells : List ReadCell) :
    armNativeDense dims cells = gridCalls digestRef (nativeGrid dims cells) := by
  have hgrid := walkDense_map Owned.fromRef .empty dims (readCells id cells)
  rw [readCells_map] at hgrid
  rw [armNativeDense, show Owned.empty = Owned.fromRef .empty from rfl, hgrid, List.flatMap_map]
  simp only [List.map_map]
  rfl

/-- The encoding arm makes the calls of the dense one, in whatever order the cells come. -/
theorem armNativeEncode_eq (dims : Calamine.Dimensions) (is1904 : Bool) (cells : List ReadCell) :
    armNativeEncode dims is1904 cells = some (armNativeDense dims cells) := by
  have hgrid := walkDense_map (fun v => Convert.cellData (Convert.dataRefValue v is1904)) .empty dims (readCells id cells)
  have hread := readCells_map (fun v => Convert.cellData (Convert.dataRefValue v is1904)) cells
  rw [hread] at hgrid
  rw [armNativeDense_eq, armNativeEncode,
    show Convert.emptyCellData = Convert.cellData (Convert.dataRefValue .empty is1904) from rfl, hgrid]
  have hrow : ∀ x ∈ nativeGrid dims cells,
      (do return DigestCall.row x.1 :: (← (x.2.map fun v => Convert.cellData (Convert.dataRefValue v is1904)).mapM
        fun c => pushPb c.value)) = some (DigestCall.row x.1 :: x.2.map digestRef) := by
    intro x _
    have hcalls : x.2.mapM ((fun c => pushPb c.value) ∘ fun v => Convert.cellData (Convert.dataRefValue v is1904)) =
        some (x.2.map digestRef) :=
      mapM_eq_some fun v _ => pushPb_dataRefValue v is1904
    rw [List.mapM_map, hcalls]
    rfl
  have hall := mapM_eq_some hrow
  rw [← nativeGrid]
  simp only [List.mapM_map, Function.comp_def] at hall ⊢
  rw [hall]
  rfl

/-! ## The gRPC arm -/

/-- One past the last column of a row that has a value. -/
def rowEnd (cells : List ReadCell) (row : Nat) : Nat := Grid.width (valued (readCells id cells)) row

/-- The grid the gRPC arm comes to: rows as sent, gaps as wide as the row before. -/
def grpcGrid (cells : List ReadCell) : List (Nat × List Calamine.DataRef) :=
  filled .empty (fun p _ => rowEnd cells p) (Grid.denseRow .empty (valued (readCells id cells))) none
    (populated (valued (readCells id cells)))

/-- Digesting what is announced fills its gaps in. -/
theorem spelled_announce {f : Pb.CellData → DigestCall} {g : Calamine.DataRef → DigestCall} (hempty : g .empty = .cell 0 [])
    {row : Nat → List Calamine.DataRef} {sent : Nat → List Pb.CellData} (hrow : ∀ i, (sent i).map f = (row i).map g)
    {is : List Nat}
    (hasc : is.Pairwise (· < ·)) {prev : Option Nat} {width : Nat}
    (hprev : ∀ p ∈ prev, width = (row p).length ∧ ∀ i ∈ is, p < i) :
    spelled f width (announce (·.rowIndex) (prev.map (· + 1)) (is.map fun i => ⟨i, sent i⟩)) =
      gridCalls g (filled .empty (fun p _ => (row p).length) row prev is) := by
  induction is generalizing prev width with
  | nil => rfl
  | cons i is ih =>
    obtain ⟨hi, hasc'⟩ := List.pairwise_cons.1 hasc
    have hlen : (sent i).length = (row i).length := by simpa using congrArg List.length (hrow i)
    have hlate : ∀ p ∈ some i, (sent i).length = (row p).length ∧ ∀ j ∈ is, p < j := by
      rintro p ⟨⟩
      exact ⟨hlen, hi⟩
    have hrest := ih hasc' hlate
    have hgap : spelled f width (announce (·.rowIndex) (prev.map (· + 1)) ((i :: is).map fun i => ⟨i, sent i⟩)) =
        gridCalls g (between .empty (fun p _ => (row p).length) prev i) ++
          (.row i :: (sent i).map f ++ spelled f (sent i).length
            (announce (·.rowIndex) (some (i + 1)) (is.map fun i => ⟨i, sent i⟩))) := by
      cases prev with
      | none => rfl
      | some p =>
        obtain ⟨hwidth, hlt⟩ := hprev p rfl
        have hpast := hlt i List.mem_cons_self
        rw [List.map_cons, Option.map_some, announce]
        rcases Nat.lt_or_ge (p + 1) i with hfar | hnear
        · rw [if_pos hfar, List.singleton_append, spelled, spelled, hwidth]
          congr 1
          simp only [GrpcArm.gapCalls, gridCalls, between, List.flatMap_map, List.map_replicate, hempty]
        · rw [if_neg (Nat.not_lt.2 hnear), between, Nat.sub_eq_zero_of_le hnear]
          rfl
    rw [hgap, hrow, filled, gridCalls_append, gridCalls_cons, ← hrest]
    rfl

/-- What is kept, as digested, is what arrives of what was read. -/
theorem kept_map {is1904 : Bool} {table : Option StringTable} {cells : List ReadCell} {f : Pb.CellData → DigestCall}
    (hf : ∀ c t, (c, t) ∈ cells.zip (yields is1904 table cells) → c.value ≠ .empty → f t.2.2 = digestRef (arriving c.value))
    (hformula : ∀ c ∈ cells, c.formula = none) :
    (kept none (yields is1904 table cells)).map (Grid.Write.map f) =
      (valued (readCells id cells)).map (Grid.Write.map fun d => digestRef (arriving d)) := by
  induction cells generalizing table with
  | nil => rfl
  | cons c cells ih =>
    obtain ⟨hc, hcells⟩ := List.forall_mem_cons.1 hformula
    have hrest := ih (fun c' t ht => hf c' t (List.mem_cons_of_mem _ ht)) hcells
    rw [yields, ← List.singleton_append, kept_append, List.map_append, hrest]
    by_cases hval : c.value = .empty
    · have hblank : kept none [(nextCell is1904 table c).1] = [] := by
        cases table <;> simp [kept, keeps, nextCell, cellValue, hval, Convert.cellData, Pb.CellData.isBlank, hc,
          Convert.dataRefValue]
      have hnone : valued (readCells id (c :: cells)) = valued (readCells id cells) := by
        simp [valued, readCells, hval]
      rw [hblank, hnone]
      rfl
    · have hone : kept none [(nextCell is1904 table c).1] = [⟨c.row, c.col, (nextCell is1904 table c).1.2.2⟩] :=
        kept_of_keeps (nextCell_keeps is1904 hval table)
      have hread : valued (readCells id (c :: cells)) = ⟨c.row, c.col, c.value⟩ :: valued (readCells id cells) := by
        simp [valued, readCells, hval]
      rw [hone, hread, List.map_singleton, List.map_cons, Grid.Write.map, Grid.Write.map,
        hf c _ List.mem_cons_self hval]
      rfl

section stream

variable {rt : Runtime} {r : IncrementalRead} {maxRows : Nat} {strings : Option StringTable}
  {tables : List Pb.DeclaredTable} {formats : List Pb.NumberFormat}

variable (rt r maxRows strings tables formats) in
theorem armGrpc_grid (hrows : ∀ c ∈ r.cells, c.row < 2 ^ 32)
    (hasc : r.cells.Pairwise fun a b => a.row < b.row ∨ a.row = b.row ∧ a.col < b.col)
    (hformula : ∀ c ∈ r.cells, c.formula = none) (hheader : r.headerRow = none) (hfail : r.failure = none)
    (htable : strings = none ∨ strings = some .new ∧ Borrowed (borrows r.cells)) :
    ∃ arm, armGrpc (rangeEvents rt r maxRows strings tables formats) = some arm ∧
      arm.calls = gridCalls (fun d => digestRef (arriving d)) (grpcGrid r.cells) := by
  have hsorted : r.cells.Pairwise fun a b => a.row ≤ b.row := by
    apply hasc.imp
    intro a b h
    omega
  have hflat := rangeEvents_inOrder rt r maxRows strings tables formats hrows hsorted hfail
  have hsourced := rangeEvents_sourced rt maxRows tables formats hrows hsorted hfail htable
  have htold := rangeEvents_told rt r maxRows strings tables formats
  generalize rangeEvents rt r maxRows strings tables formats = items at hflat hsourced htold
  obtain ⟨arm, harm, hcalls⟩ := armGrpc_eq (feeds_of_sourced hsourced) htold
  refine ⟨arm, harm, ?_⟩
  have hmap := kept_map (fun c t ht hval => digested_read hsourced hflat hheader hasc ht hval) hformula
  have hpopulated : populated (kept none (yields r.is1904 strings r.cells)) = populated (valued (readCells id r.cells)) := by
    rw [← Grid.populated_map (digested (entriesOf items)), hmap, Grid.populated_map]
  have hrow : ∀ i, (Grid.denseRow Convert.emptyCellData (kept none (yields r.is1904 strings r.cells)) i).map
      (digested (entriesOf items)) =
        (Grid.denseRow .empty (valued (readCells id r.cells)) i).map fun d => digestRef (arriving d) := by
    intro i
    rw [← Grid.denseRow_map, hmap, ← Grid.denseRow_map]
    rfl
  have hnone : ∀ p ∈ (none : Option Nat), 0 = (Grid.denseRow .empty (valued (readCells id r.cells)) p).length ∧
      ∀ i ∈ populated (valued (readCells id r.cells)), p < i := nofun
  have hspelled := spelled_announce rfl hrow (Grid.populated_ascending _) hnone
  simp only [Grid.length_denseRow] at hspelled
  rw [hcalls, hflat, reference, hheader, Grid.rows, List.map_map, hpopulated]
  exact hspelled

end stream

/-! ## The two grids -/

/-- Some cell of the row has a value. -/
def Populated (cells : List ReadCell) (row : Nat) : Prop := ∃ c ∈ cells, c.row = row ∧ c.value ≠ .empty

/-- A sheet whose rows with values end past the declared extent and past every
cell in them or above, and at one column where blank rows lie between two. -/
structure Even (dims : Calamine.Dimensions) (cells : List ReadCell) : Prop where
  extent : ∀ row, Populated cells row → dims.end.2 < rowEnd cells row
  reach : ∀ row, Populated cells row → ∀ c ∈ cells, c.row ≤ row → c.col < rowEnd cells row
  gaps : ∀ row row', Populated cells row → Populated cells row' → row + 1 < row' →
    (∀ i, row < i → i < row' → ¬ Populated cells i) → rowEnd cells row = rowEnd cells row'

section grids

variable {dims : Calamine.Dimensions} {cells : List ReadCell}

theorem mem_populated_iff (row : Nat) : row ∈ populated (valued (readCells id cells)) ↔ Populated cells row := by
  rw [Grid.mem_populated]
  constructor
  · intro h
    obtain ⟨w, hw, rfl⟩ := List.mem_map.1 h
    obtain ⟨c, hc, he⟩ := List.mem_map.1 (mem_valued hw)
    simp only [Prod.mk.injEq, decide_eq_false_iff_not] at he
    exact ⟨c, hc, he.1, he.2.2.2⟩
  · rintro ⟨c, hc, rfl, hval⟩
    refine List.mem_map.2 ⟨⟨c.row, c.col, c.value⟩, List.mem_map.2 ⟨(c.row, c.col, c.value, false), ?_, rfl⟩, rfl⟩
    refine List.mem_filter.2 ⟨List.mem_map.2 ⟨c, hc, ?_⟩, rfl⟩
    simp [hval]

/-- What a row of the native grid is as wide as. -/
theorem widthAt_le_iff {first row n : Nat} :
    widthAt first (readCells id cells) row ≤ n ↔ first ≤ n ∧ ∀ c ∈ cells, c.row ≤ row → c.col < n := by
  rw [widthAt, widthOf_le_iff]
  simp only [List.mem_filter, readCells, List.mem_map, decide_eq_true_eq, and_imp, forall_exists_index,
    forall_apply_eq_imp_iff₂]

/-- The server's rows are nowhere wider. -/
theorem rowEnd_le_widthAt (first : Nat) {row row' : Nat} (h : row ≤ row') :
    rowEnd cells row ≤ widthAt first (readCells id cells) row' := by
  apply (Grid.width_le_iff _ _ _).2
  intro w hw hrow
  obtain ⟨c, hc, he⟩ := List.mem_map.1 (mem_valued hw)
  simp only [Prod.mk.injEq] at he
  have hcol := (widthAt_le_iff.1 (Nat.le_refl (widthAt first (readCells id cells) row'))).2 c hc (by omega)
  omega

variable (dims) in
theorem nativeGrid_eq (hasc : cells.Pairwise fun a b => a.row < b.row ∨ a.row = b.row ∧ a.col < b.col) :
    nativeGrid dims cells =
      filled .empty (fun _ i => widthAt (dims.end.2 + 1) (readCells id cells) i)
        (fun i => cellsAt .empty (valued (readCells id cells)) (widthAt (dims.end.2 + 1) (readCells id cells) i) i) none
        (populated (valued (readCells id cells))) := by
  apply walkDense_eq (List.pairwise_map.2 hasc)
  intro c hc hempty
  obtain ⟨c, -, rfl⟩ := List.mem_map.1 hc
  exact of_decide_eq_true hempty

/-- On an even sheet the two ways to fill the rows in are level, and on no other. -/
theorem level_iff_even :
    Level (fun p _ => rowEnd cells p) (fun _ i => widthAt (dims.end.2 + 1) (readCells id cells) i)
        (Grid.denseRow .empty (valued (readCells id cells)))
        (fun i => cellsAt .empty (valued (readCells id cells)) (widthAt (dims.end.2 + 1) (readCells id cells) i) i) none
        (populated (valued (readCells id cells))) ↔
      Even dims cells := by
  have hnone : ∀ p ∈ (none : Option Nat), ∀ i ∈ populated (valued (readCells id cells)), p < i := nofun
  rw [Grid.level_iff (Grid.populated_ascending _) hnone]
  simp only [Grid.length_denseRow, length_cellsAt, mem_populated_iff, ← rowEnd.eq_1]
  have hwidth : ∀ row, rowEnd cells row = widthAt (dims.end.2 + 1) (readCells id cells) row ↔
      dims.end.2 < rowEnd cells row ∧ ∀ c ∈ cells, c.row ≤ row → c.col < rowEnd cells row := by
    intro row
    rw [← Nat.succ_le_iff, ← widthAt_le_iff]
    exact ⟨fun h => Nat.le_of_eq h.symm, fun h => Nat.le_antisymm (rowEnd_le_widthAt _ (Nat.le_refl row)) h⟩
  constructor
  · rintro ⟨hlens, hgaps⟩
    refine ⟨fun row hp => ((hwidth row).1 (hlens row hp)).1, fun row hp => ((hwidth row).1 (hlens row hp)).2, ?_⟩
    intro row row' hp hp' hfar hnone
    rw [hlens row' hp']
    exact hgaps row' hp' row (.inr hp) hfar fun q hq hlt hlt' => hnone q hlt hlt' hq
  · intro heven
    have hlens : ∀ row, Populated cells row →
        rowEnd cells row = widthAt (dims.end.2 + 1) (readCells id cells) row := fun row hp =>
      (hwidth row).2 ⟨heven.extent row hp, heven.reach row hp⟩
    refine ⟨hlens, fun row' hp' row hp hfar hnone => ?_⟩
    rw [← hlens row' hp']
    apply heven.gaps row row' (hp.resolve_left nofun) hp' hfar
    intro q hlt hlt' hq
    exact hnone q hq hlt hlt'

variable (dims) in
/-- The grids have as many cells only on an even sheet, and there they are one. -/
theorem grids_level (hasc : cells.Pairwise fun a b => a.row < b.row ∨ a.row = b.row ∧ a.col < b.col) :
    (tally (grpcGrid cells) = tally (nativeGrid dims cells) → Even dims cells) ∧
      (Even dims cells → grpcGrid cells = nativeGrid dims cells) := by
  rw [nativeGrid_eq dims hasc, ← level_iff_even]
  constructor
  · have hnone : ∀ p ∈ (none : Option Nat), ∀ i ∈ populated (valued (readCells id cells)), p < i := nofun
    apply (Grid.level_of_tally ?_ ?_ (Grid.populated_ascending _) hnone).2
    · exact fun p i hlt => rowEnd_le_widthAt _ (Nat.le_of_lt hlt)
    · intro i
      rw [Grid.length_denseRow, length_cellsAt]
      exact rowEnd_le_widthAt _ (Nat.le_refl i)
  · apply Grid.filled_eq_of_level
    intro i hlen
    rw [Grid.length_denseRow, length_cellsAt] at hlen
    rw [← hlen]
    rfl

/-- Every value read is in the grid, and no other but blanks. -/
theorem minusZeroCall_mem_iff (hasc : cells.Pairwise fun a b => a.row < b.row ∨ a.row = b.row ∧ a.col < b.col) :
    minusZeroCall ∈ gridCalls digestRef (grpcGrid cells) ↔ ∃ c ∈ cells, MinusZero c.value := by
  constructor
  · intro h
    obtain ⟨x, hx, hcall⟩ := List.mem_flatMap.1 h
    obtain ⟨v, hv, hdigest⟩ := List.mem_map.1 ((List.mem_cons.1 hcall).resolve_left nofun)
    have hzero := digestRef_eq_minusZeroCall_iff.1 hdigest
    rcases Grid.mem_filled hx hv with rfl | ⟨i, -, hrow⟩
    · obtain ⟨dt, hdt, -⟩ := hzero
      cases hdt
    · obtain ⟨col, hcol, rfl⟩ := List.mem_iff_getElem.1 hrow
      rw [Grid.getElem_denseRow] at hzero
      cases hlast : Grid.lastAt (valued (readCells id cells)) i col with
      | none =>
        rw [hlast] at hzero
        obtain ⟨dt, hdt, -⟩ := hzero
        cases hdt
      | some v =>
        rw [hlast] at hzero
        obtain ⟨c, hc, he⟩ := List.mem_map.1 (mem_valued (Grid.lastAt_mem hlast))
        simp only [Prod.mk.injEq] at he
        have hvalue : c.value = v := he.2.2.1
        exact ⟨c, hc, hvalue ▸ hzero⟩
  · rintro ⟨c, hc, hzero⟩
    have hval : c.value ≠ .empty := by
      obtain ⟨dt, hdt, -⟩ := hzero
      rw [hdt]
      nofun
    have hvalued : (⟨c.row, c.col, c.value⟩ : Grid.Write Calamine.DataRef) ∈ valued (readCells id cells) :=
      List.mem_map.2 ⟨(c.row, c.col, c.value, false),
        List.mem_filter.2 ⟨List.mem_map.2 ⟨c, hc, by simp [hval]⟩, rfl⟩, rfl⟩
    have hordered : Grid.Ordered (valued (readCells id cells)) :=
      List.pairwise_map.2 ((List.pairwise_map.2 hasc).filter _)
    have hlast := hordered.lastAt hvalued
    have hcol : c.col < (Grid.denseRow .empty (valued (readCells id cells)) c.row).length := by
      by_contra hge
      rw [Grid.length_denseRow, Nat.not_lt] at hge
      rw [Grid.lastAt_of_width_le _ _ _ hge] at hlast
      cases hlast
    have hin : c.value ∈ Grid.denseRow .empty (valued (readCells id cells)) c.row := by
      refine List.mem_iff_getElem.2 ⟨c.col, hcol, ?_⟩
      rw [Grid.getElem_denseRow, hlast]
      rfl
    have hrow : c.row ∈ populated (valued (readCells id cells)) := (Grid.mem_populated _ _).2 (List.mem_map_of_mem hvalued)
    exact List.mem_flatMap.2 ⟨_, Grid.row_mem_filled hrow none,
      List.mem_cons_of_mem _ (List.mem_map.2 ⟨c.value, hin, digestRef_eq_minusZeroCall_iff.2 hzero⟩)⟩

end grids

section
variable (rt : Runtime) (r : IncrementalRead) (maxRows : Nat) (strings : Option StringTable)
  (tables : List Pb.DeclaredTable) (formats : List Pb.NumberFormat)

end

/-- Two rows of shared strings that end at one column, a blank row between. -/
def evenRead : IncrementalRead :=
  { sharedRead with
    dims := ⟨(0, 0), (2, 1)⟩
    cells := [⟨0, 0, .sharedString ⟨16, "north"⟩, none, none⟩, ⟨0, 1, .sharedString ⟨32, "south"⟩, none, none⟩,
      ⟨2, 1, .sharedString ⟨16, "north"⟩, none, none⟩] }

theorem evenRead_even : Even evenRead.dims evenRead.cells where
  extent := by
    rintro row ⟨c, hc, rfl, -⟩
    have hall : ∀ c ∈ evenRead.cells, evenRead.dims.end.2 < rowEnd evenRead.cells c.row := by decide
    exact hall c hc
  reach := by
    rintro row ⟨c, hc, rfl, -⟩
    have hall : ∀ c ∈ evenRead.cells, ∀ c' ∈ evenRead.cells, c'.row ≤ c.row → c'.col < rowEnd evenRead.cells c.row := by
      decide
    exact hall c hc
  gaps := by
    rintro row row' ⟨c, hc, rfl, -⟩ ⟨c', hc', rfl, -⟩ - -
    have hall : ∀ c ∈ evenRead.cells, ∀ c' ∈ evenRead.cells,
        rowEnd evenRead.cells c.row = rowEnd evenRead.cells c'.row := by
      decide
    exact hall c hc c' hc'

theorem evenRead_dates : ∀ c ∈ evenRead.cells, ¬ MinusZero c.value := by
  have hcalls : ∀ c ∈ evenRead.cells, digestRef c.value ≠ minusZeroCall := by decide
  exact fun c hc hzero => hcalls c hc (digestRef_eq_minusZeroCall_iff.2 hzero)

/-- A value in column 0, on a sheet that declares three columns. -/
def paddedRead : IncrementalRead := { numbersRead none [(0, 0, 7)] with dims := ⟨(0, 0), (0, 2)⟩ }

end GrpcCalamine.Bench
