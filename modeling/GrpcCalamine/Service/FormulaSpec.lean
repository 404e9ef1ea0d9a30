import GrpcCalamine.Service.Formula
/-!
# Sparse formulas equal dense ones

The collector refuses a sheet exactly when its formulas, taken together, pass a
budget (`collect_spec`), and what it accepts is streamed as the dense branch
streams the range calamine would have built (`emitSparseFormulas_eq`).
-/

namespace GrpcCalamine

open Grid (corners Bounds lastAt)

/-! ## The two budgets -/

/-- The cells of the rectangle from column A. -/
def denseCells (cells : List FormulaCell) : Nat :=
  match corners cells with
  | some (lo, hi) => (hi.1 - lo.1 + 1) * (hi.2 + 1)
  | none => 0

/-- What the cells cost in memory: the text and the slot that holds it. -/
def formulaBytes (cells : List FormulaCell) : Nat := (cells.map fun c => c.val.utf8ByteSize + FORMULA_CELL_SIZE).sum

/-- The cells pass a budget. -/
def Exceeds (maxDenseCells maxBytes : Nat) (cells : List FormulaCell) : Prop :=
  maxDenseCells < denseCells cells ∨ maxBytes < formulaBytes cells

theorem formulaBytes_concat (cells : List FormulaCell) (c : FormulaCell) :
    formulaBytes (cells ++ [c]) = formulaBytes cells + (c.val.utf8ByteSize + FORMULA_CELL_SIZE) := by
  simp [formulaBytes]

theorem denseCells_concat (cells : List FormulaCell) (c : FormulaCell) :
    denseCells cells ≤ denseCells (cells ++ [c]) := by
  unfold denseCells
  rw [Grid.corners_concat]
  cases corners cells with
  | none => exact Nat.zero_le _
  | some b =>
    obtain ⟨lo, hi⟩ := b
    exact Nat.mul_le_mul (by simp only []; omega) (by simp only []; omega)

/-- More cells stay past a budget once they are. -/
theorem Exceeds.append {maxDenseCells maxBytes : Nat} {cells : List FormulaCell}
    (h : Exceeds maxDenseCells maxBytes cells) (more : List FormulaCell) :
    Exceeds maxDenseCells maxBytes (cells ++ more) := by
  induction more generalizing cells with
  | nil => rwa [List.append_nil]
  | cons c more ih =>
    rw [List.append_cons]
    refine ih ?_
    rcases h with h | h
    · exact .inl (lt_of_lt_of_le h (denseCells_concat cells c))
    · exact .inr (by rw [formulaBytes_concat]; omega)

theorem checkDense_eq_ok_iff (fmt : Fmt) (sheetName : String) {rows columns max : Nat} (hmax : max < U64_MAX) :
    checkDense fmt sheetName rows columns max = .ok () ↔ rows * columns ≤ max := by
  unfold checkDense
  rw [← satMul_le_iff hmax]
  simp only []
  split <;> simp_all

theorem checkDense_eq_error (fmt : Fmt) (sheetName : String) {rows columns max : Nat} (hmax : max < U64_MAX)
    (h : max < rows * columns) :
    ∃ msg, checkDense fmt sheetName rows columns max = .error ⟨.resourceExhausted, msg⟩ := by
  unfold checkDense
  rw [if_neg (by rw [satMul_le_iff hmax]; omega)]
  exact ⟨_, rfl⟩

/-! ## Collecting -/

section collecting
variable {fmt : Fmt} {sheetName : String} {maxDenseCells maxBytes : Nat}

/-- The collector after `cells`, all within budget. -/
structure Collected (sheetName : String) (maxDense most : Nat) (done : List FormulaCell)
    (c : FormulaCollector) : Prop where
  name : c.sheetName = sheetName
  maxDenseCells : c.maxDenseCells = maxDense
  maxBytes : c.maxBytes = most
  cells : c.cells = done
  rows : c.rows = (corners done).map fun b => (b.1.1, b.2.1)
  lastCol : c.lastCol = ((corners done).map fun b => b.2.2).getD 0
  bytes : c.bytes = formulaBytes done
  within : ¬ Exceeds maxDense most done

variable (sheetName maxDenseCells maxBytes) in
theorem collected_new : Collected sheetName maxDenseCells maxBytes [] (.new sheetName maxDenseCells maxBytes) :=
  ⟨rfl, rfl, rfl, rfl, rfl, rfl, rfl, by simp [Exceeds, denseCells, formulaBytes, corners]⟩

theorem push_empty {c : FormulaCollector} {cell : FormulaCell}
    (hc : cell.val.isEmpty = true) : c.push fmt cell = .ok c := by
  simp [FormulaCollector.push, hc]

/-- The extent with a further cell. -/
theorem Collected.corners {cells : List FormulaCell} {c : FormulaCollector}
    (h : Collected sheetName maxDenseCells maxBytes cells c) (cell : FormulaCell) :
    ∃ lo hi, Grid.corners (cells ++ [cell]) = some (lo, hi) ∧
      FormulaCollector.extent c.rows cell.row = (lo.1, hi.1) ∧ max c.lastCol cell.col = hi.2 := by
  rw [Grid.corners_concat, h.rows, h.lastCol]
  cases Grid.corners cells with
  | none => exact ⟨_, _, rfl, rfl, Nat.zero_max _⟩
  | some b => exact ⟨_, _, rfl, rfl, rfl⟩

/-- The bytes with a further cell, up to saturation. -/
theorem Collected.bytes_concat {cells : List FormulaCell} {c : FormulaCollector}
    (h : Collected sheetName maxDenseCells maxBytes cells c) (cell : FormulaCell) :
    satAdd c.bytes (satAdd cell.val.utf8ByteSize FORMULA_CELL_SIZE) =
      min (formulaBytes (cells ++ [cell])) U64_MAX := by
  rw [h.bytes, formulaBytes_concat]
  unfold satAdd
  omega

variable (fmt) in
/-- A further cell within both budgets is taken. -/
theorem push_ok (hd : maxDenseCells < U64_MAX) {cells : List FormulaCell} {c : FormulaCollector}
    (h : Collected sheetName maxDenseCells maxBytes cells c) {cell : FormulaCell} (hne : cell.val.isEmpty = false)
    (hb : maxBytes < U64_MAX) (hfit : ¬ Exceeds maxDenseCells maxBytes (cells ++ [cell])) :
    ∃ c', c.push fmt cell = .ok c' ∧ Collected sheetName maxDenseCells maxBytes (cells ++ [cell]) c' := by
  obtain ⟨lo, hi, hcorners, hextent, hcol⟩ := h.corners cell
  have hdense : denseCells (cells ++ [cell]) = (hi.1 - lo.1 + 1) * (hi.2 + 1) := by simp [denseCells, hcorners]
  have hcheck : checkDense fmt sheetName (hi.1 - lo.1 + 1) (hi.2 + 1) maxDenseCells = .ok () :=
    (checkDense_eq_ok_iff fmt sheetName hd).2 (by
    rw [← hdense]
    exact Nat.le_of_not_lt fun hn => hfit (.inl hn))
  have hle : formulaBytes (cells ++ [cell]) ≤ maxBytes := Nat.le_of_not_lt fun hn => hfit (.inr hn)
  have hbytes : satAdd c.bytes (satAdd cell.val.utf8ByteSize FORMULA_CELL_SIZE) = formulaBytes (cells ++ [cell]) := by
    rw [h.bytes_concat]
    exact Nat.min_eq_left (by omega)
  have hnot : ¬ formulaBytes (cells ++ [cell]) > c.maxBytes := by rw [h.maxBytes]; omega
  refine ⟨{ c with rows := some (lo.1, hi.1), lastCol := hi.2, bytes := formulaBytes (cells ++ [cell]),
                   cells := c.cells ++ [cell] }, ?_, ?_⟩
  · simp only [FormulaCollector.push, hne, Bool.false_eq_true, if_false, hextent, hcol, h.name, h.maxDenseCells,
      hcheck, hbytes, hnot]
  · exact ⟨h.name, h.maxDenseCells, h.maxBytes, by rw [h.cells], by rw [hcorners]; rfl, by rw [hcorners]; rfl, rfl,
      hfit⟩

variable (fmt) in
/-- A further cell past a budget is refused. -/
theorem push_refused (hd : maxDenseCells < U64_MAX) (hb : maxBytes < U64_MAX) {cells : List FormulaCell}
    {c : FormulaCollector} (h : Collected sheetName maxDenseCells maxBytes cells c) {cell : FormulaCell}
    (hne : cell.val.isEmpty = false) (hpast : Exceeds maxDenseCells maxBytes (cells ++ [cell])) :
    ∃ msg, c.push fmt cell = .error (.refused ⟨.resourceExhausted, msg⟩) := by
  obtain ⟨lo, hi, hcorners, hextent, hcol⟩ := h.corners cell
  have hdense : denseCells (cells ++ [cell]) = (hi.1 - lo.1 + 1) * (hi.2 + 1) := by simp [denseCells, hcorners]
  simp only [FormulaCollector.push, hne, Bool.false_eq_true, if_false, hextent, hcol, h.name, h.maxDenseCells]
  by_cases hcells : (hi.1 - lo.1 + 1) * (hi.2 + 1) ≤ maxDenseCells
  · have hbytes : maxBytes < formulaBytes (cells ++ [cell]) := by
      rcases hpast with hp | hp
      · rw [hdense] at hp
        omega
      · exact hp
    have hbig : satAdd c.bytes (satAdd cell.val.utf8ByteSize FORMULA_CELL_SIZE) > c.maxBytes := by
      rw [h.bytes_concat, h.maxBytes]
      omega
    rw [(checkDense_eq_ok_iff fmt sheetName hd).2 hcells]
    simp only [hbig, if_true]
    exact ⟨_, rfl⟩
  · obtain ⟨msg, hmsg⟩ := checkDense_eq_error fmt sheetName hd (Nat.lt_of_not_le hcells)
    rw [hmsg]
    exact ⟨msg, rfl⟩

/-- The formulas a sheet has: its non-empty cells. -/
def formulasOf (read : List FormulaCell) : List FormulaCell := read.filter fun c => !c.val.isEmpty

theorem formulasOf_cons (cell : FormulaCell) (read : List FormulaCell) :
    formulasOf (cell :: read) = formulasOf [cell] ++ formulasOf read :=
  List.filter_append [cell] read

theorem push_cells {c c' : FormulaCollector} {cell : FormulaCell} (h : c.push fmt cell = .ok c') :
    c'.cells = c.cells ++ formulasOf [cell] := by
  cases hempty : cell.val.isEmpty with
  | true =>
    rw [push_empty hempty] at h
    cases h
    simp [formulasOf, hempty]
  | false =>
    simp only [FormulaCollector.push, hempty, Bool.false_eq_true, if_false] at h
    split at h
    · cases h
    · split at h
      · cases h
      · cases h
        simp [formulasOf, hempty]

theorem push_ne_read {c : FormulaCollector} {cell : FormulaCell} {e : String} :
    c.push fmt cell ≠ .error (.read e) := by
  unfold FormulaCollector.push
  split
  · exact nofun
  · simp only []
    split
    · exact nofun
    · split <;> exact nofun

/-- What is collected are the formulas the reader yields, and only of a reader
that does not fail. -/
theorem collect_ok {c : FormulaCollector} {read : List FormulaCell} {failure : Option String} {cells : List FormulaCell}
    (h : c.collect fmt read failure = .ok cells) : failure = none ∧ cells = c.cells ++ formulasOf read := by
  induction read generalizing c with
  | nil => cases failure with
    | some e => cases h
    | none =>
      cases h
      exact ⟨rfl, (List.append_nil _).symm⟩
  | cons cell read ih =>
    cases hp : c.push fmt cell with
    | error e =>
      rw [FormulaCollector.collect, hp] at h
      cases h
    | ok c' =>
      rw [FormulaCollector.collect, hp] at h
      obtain ⟨hfail, hcells⟩ := ih h
      refine ⟨hfail, ?_⟩
      rw [hcells, push_cells hp, List.append_assoc, ← formulasOf_cons]

/-- A read error is the reader's. -/
theorem collect_read {c : FormulaCollector} {read : List FormulaCell} {failure : Option String} {e : String}
    (h : c.collect fmt read failure = .error (.read e)) : failure = some e := by
  induction read generalizing c with
  | nil => cases failure with
    | some e' =>
      cases h
      rfl
    | none => cases h
  | cons cell read ih =>
    cases hp : c.push fmt cell with
    | error err =>
      rw [FormulaCollector.collect, hp] at h
      cases h
      exact absurd hp push_ne_read
    | ok c' =>
      rw [FormulaCollector.collect, hp] at h
      exact ih h

variable (fmt) in
/-- Collecting refuses exactly a sheet whose formulas pass a budget, and
otherwise keeps all of them. -/
theorem collect_spec (hd : maxDenseCells < U64_MAX) (hb : maxBytes < U64_MAX) (read : List FormulaCell)
    {done : List FormulaCell} {c : FormulaCollector} (h : Collected sheetName maxDenseCells maxBytes done c) :
    (¬ Exceeds maxDenseCells maxBytes (done ++ formulasOf read) →
      c.collect fmt read none = .ok (done ++ formulasOf read)) ∧
    (Exceeds maxDenseCells maxBytes (done ++ formulasOf read) →
      ∃ msg, c.collect fmt read none = .error (.refused ⟨.resourceExhausted, msg⟩)) := by
  induction read generalizing done c with
  | nil =>
    simp only [formulasOf, List.filter_nil, List.append_nil]
    exact ⟨fun _ => congrArg _ h.cells, fun he => absurd he h.within⟩
  | cons cell read ih =>
    cases hne : cell.val.isEmpty with
    | true =>
      have hsame : formulasOf (cell :: read) = formulasOf read := by simp [formulasOf, hne]
      have hstep : c.collect fmt (cell :: read) none = c.collect fmt read none := by
        rw [FormulaCollector.collect, push_empty hne]
        rfl
      rw [hsame, hstep]
      exact ih h
    | false =>
      have hcons : done ++ formulasOf (cell :: read) = (done ++ [cell]) ++ formulasOf read := by
        simp [formulasOf, hne]
      rw [hcons]
      -- past a budget once, past it to the end: the first refusal decides
      by_cases hfit : Exceeds maxDenseCells maxBytes (done ++ [cell])
      · obtain ⟨msg, hmsg⟩ := push_refused fmt hd hb h hne hfit
        refine ⟨fun hn => absurd (hfit.append _) hn, fun _ => ⟨msg, ?_⟩⟩
        rw [FormulaCollector.collect, hmsg]
        rfl
      · obtain ⟨c', hc', h'⟩ := push_ok fmt hd h hne hb hfit
        have hstep : c.collect fmt (cell :: read) none = c'.collect fmt read none := by
          rw [FormulaCollector.collect, hc']
          rfl
        rw [hstep]
        exact ih h'

end collecting

/-! ## One row -/

/-- Writing the cells over a row, in order. -/
def writeCells (formulas : List String) (cells : List FormulaCell) : List String :=
  cells.foldl (fun fs c => fs.set c.col c.val) formulas

theorem length_writeCells (formulas : List String) (cells : List FormulaCell) :
    (writeCells formulas cells).length = formulas.length := by
  induction cells generalizing formulas with
  | nil => rfl
  | cons c cells ih => exact (ih _).trans List.length_set

/-- The cells of a row that comes first among cells in order of their rows. -/
theorem takeRow_eq (row : Nat) (formulas : List String) (cells : List FormulaCell)
    (hasc : cells.Pairwise fun a b => a.row ≤ b.row) (hfrom : ∀ c ∈ cells, row ≤ c.row) :
    takeRow row formulas cells =
      (writeCells formulas (cells.filter fun c => c.row = row), cells.filter fun c => row + 1 ≤ c.row) := by
  induction cells generalizing formulas with
  | nil => rfl
  | cons c cells ih =>
    obtain ⟨hc, hasc⟩ := List.pairwise_cons.1 hasc
    unfold takeRow
    by_cases he : c.row = row
    · rw [if_pos he, ih _ hasc fun c' hm => hfrom c' (List.mem_cons_of_mem _ hm)]
      simp [he, writeCells]
    · -- the loop stops at the first cell of a later row, and leaves it
      have hpast : ∀ x ∈ c :: cells, row + 1 ≤ x.row := by
        have := hfrom c List.mem_cons_self
        intro x hx
        rcases List.mem_cons.1 hx with rfl | hx
        · omega
        · have := hc x hx
          omega
      have hnone : (c :: cells).filter (fun x => x.row = row) = [] := by
        rw [List.filter_eq_nil_iff]
        intro x hx
        have := hpast x hx
        simp only [decide_eq_true_eq]
        omega
      have hall : (c :: cells).filter (fun x => row + 1 ≤ x.row) = c :: cells :=
        List.filter_eq_self.2 fun x hx => by simpa using hpast x hx
      rw [if_neg he, hnone, hall]
      rfl

/-- The last cell written to a column is the one that stays. -/
theorem getElem?_writeCells (row width col : Nat) (cells : List FormulaCell) (hcol : col < width)
    (hrow : ∀ c ∈ cells, c.row = row) :
    (writeCells (List.replicate width "") cells)[col]? = some ((lastAt cells row col).getD "") := by
  induction cells using List.reverseRecOn with
  | nil => simp [writeCells, lastAt, hcol]
  | append_singleton cells c ih =>
    have hc : c.row = row := hrow c (by simp)
    have hstep : writeCells (List.replicate width "") (cells ++ [c]) =
        (writeCells (List.replicate width "") cells).set c.col c.val := by
      simp [writeCells]
    rw [hstep, Grid.lastAt_concat, List.getElem?_set, length_writeCells, List.length_replicate]
    by_cases he : c.col = col
    · simp [he, hc, hcol]
    · rw [if_neg he, if_neg (fun h => he h.2)]
      exact ih fun c' hm => hrow c' (by simp [hm])

/-- A row of the range, dense from column A. -/
theorem writeCells_row (row pad width : Nat) (cells : List FormulaCell) (hleft : ∀ c ∈ cells, pad ≤ c.col) :
    writeCells (List.replicate (pad + width) "") (cells.filter fun c => c.row = row) =
      List.replicate pad "" ++ (List.range width).map fun j => (lastAt cells row (pad + j)).getD "" := by
  refine List.ext_getElem? fun col => ?_
  have hlen : (writeCells (List.replicate (pad + width) "") (cells.filter fun c => c.row = row)).length =
      pad + width := by
    rw [length_writeCells, List.length_replicate]
  by_cases hcol : col < pad + width
  · rw [getElem?_writeCells row _ col _ hcol (by simp), Grid.lastAt_filter _ _ _ (by simp)]
    by_cases hpad : col < pad
    · have hnone : lastAt cells row col = none := by
        rw [lastAt, Option.map_eq_none_iff, List.find?_eq_none]
        intro c hc
        have := hleft c (List.mem_reverse.1 hc)
        simp only [decide_eq_true_eq]
        omega
      rw [hnone, List.getElem?_append_left (by simpa using hpad), List.getElem?_replicate, if_pos hpad]
      rfl
    · have hj : col - pad < width := by omega
      have hadd : pad + (col - pad) = col := by omega
      rw [List.getElem?_append_right (by simpa using hpad), List.length_replicate, List.getElem?_map,
        List.getElem?_range hj, Option.map_some, hadd]
  · rw [List.getElem?_eq_none (by omega), List.getElem?_eq_none (by
      simp only [List.length_append, List.length_replicate, List.length_map, List.length_range]
      omega)]

/-! ## All rows -/

/-- The row loop sends the rows of the range. -/
theorem sendSparseRows_eq (pad width n row : Nat) (cells : List FormulaCell)
    (hasc : cells.Pairwise fun a b => a.row ≤ b.row) (hfrom : ∀ c ∈ cells, row ≤ c.row)
    (hleft : ∀ c ∈ cells, pad ≤ c.col) :
    sendSparseRows (pad + width) n row cells =
      sendFormulaRows pad row
        ((List.range' row n).map fun i => (List.range width).map fun j => (lastAt cells i (pad + j)).getD "") := by
  induction n generalizing row cells with
  | zero => rfl
  | succ n ih =>
    have hsub : (cells.filter fun c => row + 1 ≤ c.row).Sublist cells := List.filter_sublist
    have hrest := ih (row + 1) (cells.filter fun c => row + 1 ≤ c.row) (hasc.sublist hsub) (by simp)
      fun c hc => hleft c (hsub.subset hc)
    -- The rows after this one do not look back.
    have hsame : ∀ i ∈ List.range' (row + 1) n, ∀ j,
        lastAt (cells.filter fun c => row + 1 ≤ c.row) i j = lastAt cells i j := by
      intro i hi j
      have hle : row + 1 ≤ i := (List.mem_range'_1.1 hi).1
      refine Grid.lastAt_filter _ _ _ fun w hw => ?_
      simp only [decide_eq_true_eq]
      omega
    have hrows : (List.range' (row + 1) n).map (fun i => (List.range width).map fun j =>
          (lastAt (cells.filter fun c => row + 1 ≤ c.row) i (pad + j)).getD "") =
        (List.range' (row + 1) n).map fun i => (List.range width).map fun j => (lastAt cells i (pad + j)).getD "" :=
      List.map_congr_left fun i hi => List.map_congr_left fun j _ => by rw [hsame i hi]
    rw [hrows] at hrest
    simp only [sendSparseRows, takeRow_eq row _ cells hasc hfrom, writeCells_row row pad width cells hleft, hrest,
      List.range'_succ, List.map_cons, sendFormulaRows]

/-! ## The whole sheet -/

/-- What is documented of `Range::from_sparse`: the bounding rectangle of the
cells, in it the later of two cells at one position, blanks elsewhere, and the
empty range for no cells. -/
structure FromSparse (fromSparse : List FormulaCell → Calamine.Range String) : Prop where
  empty : fromSparse [] = ⟨none, none, (0, 0), []⟩
  bounding : ∀ cells lo hi, corners cells = some (lo, hi) →
    fromSparse cells = ⟨some lo, some hi, (hi.1 - lo.1 + 1, hi.2 - lo.2 + 1),
      (List.range' lo.1 (hi.1 - lo.1 + 1)).map fun i =>
        (List.range (hi.2 - lo.2 + 1)).map fun j => (lastAt cells i (lo.2 + j)).getD ""⟩

theorem min?_eq_of_perm {l l' : List Nat} (hp : l.Perm l') {a : Nat} (ha : a ∈ l') (hle : ∀ b ∈ l', a ≤ b) :
    l.min? = some a :=
  List.min?_eq_some_iff.2 ⟨hp.symm.subset ha, fun b hb => hle b (hp.subset hb)⟩

theorem max?_eq_of_perm {l l' : List Nat} (hp : l.Perm l') {a : Nat} (ha : a ∈ l') (hle : ∀ b ∈ l', b ≤ a) :
    l.max? = some a :=
  List.max?_eq_some_iff.2 ⟨hp.symm.subset ha, fun b hb => hle b (hp.subset hb)⟩

/-- Cells in order of their rows begin with the topmost row. -/
theorem head_row_le {cells : List FormulaCell} {first : FormulaCell} (hasc : cells.Pairwise fun a b => a.row ≤ b.row)
    (hf : cells.head? = some first) : ∀ x ∈ cells, first.row ≤ x.row := by
  obtain ⟨rest, rfl⟩ := List.head?_eq_some_iff.1 hf
  intro x hx
  rcases List.mem_cons.1 hx with rfl | hx
  · exact le_rfl
  · exact (List.pairwise_cons.1 hasc).1 x hx

/-- And they end with the lowest. -/
theorem le_last_row {cells : List FormulaCell} {last : FormulaCell} (hasc : cells.Pairwise fun a b => a.row ≤ b.row)
    (hl : cells.getLast? = some last) : ∀ x ∈ cells, x.row ≤ last.row := by
  obtain ⟨init, rfl⟩ := List.getLast?_eq_some_iff.1 hl
  intro x hx
  rcases List.mem_append.1 hx with hx | hx
  · exact (List.pairwise_append.1 hasc).2.2 x hx last (List.mem_singleton_self _)
  · rw [List.mem_singleton.1 hx]

/-- What `emit_sparse_formulas` reads off the sorted cells are the corners. -/
theorem sorted_corners {cells : List FormulaCell} {lo hi : Nat × Nat} (hc : corners cells = some (lo, hi)) :
    (∃ first last, (sortByPosition cells).head? = some first ∧ (sortByPosition cells).getLast? = some last ∧
      first.row = lo.1 ∧ last.row = hi.1) ∧
    ((sortByPosition cells).map (·.col)).min? = some lo.2 ∧ ((sortByPosition cells).map (·.col)).max? = some hi.2 := by
  have hb := Grid.corners_bounds hc
  have hp : (sortByPosition cells).Perm cells := Grid.byPosition_perm cells
  have hasc : (sortByPosition cells).Pairwise fun a b => a.row ≤ b.row := Grid.byPosition_ascending cells
  refine ⟨?_, ?_, ?_⟩
  · obtain ⟨t, ht, htr⟩ := hb.top
    obtain ⟨b, hbm, hbr⟩ := hb.bottom
    have hne : sortByPosition cells ≠ [] := List.ne_nil_of_mem (hp.symm.subset ht)
    obtain ⟨first, hf⟩ : ∃ first, (sortByPosition cells).head? = some first :=
      ⟨_, List.head?_eq_some_head hne⟩
    obtain ⟨last, hl⟩ : ∃ last, (sortByPosition cells).getLast? = some last :=
      ⟨_, List.getLast?_eq_some_getLast hne⟩
    refine ⟨first, last, hf, hl, ?_, ?_⟩
    · have hin := hb.within first (hp.subset (List.mem_of_head? hf))
      have := head_row_le hasc hf t (hp.symm.subset ht)
      omega
    · have hin := hb.within last (hp.subset (List.mem_of_getLast? hl))
      have := le_last_row hasc hl b (hp.symm.subset hbm)
      omega
  · obtain ⟨l, hl, hlc⟩ := hb.left
    refine min?_eq_of_perm (hp.map _) (List.mem_map.2 ⟨l, hl, hlc⟩) fun c hcm => ?_
    obtain ⟨x, hx, rfl⟩ := List.mem_map.1 hcm
    exact (hb.within x hx).2.2.1
  · obtain ⟨r, hr, hrc⟩ := hb.right
    refine max?_eq_of_perm (hp.map _) (List.mem_map.2 ⟨r, hr, hrc⟩) fun c hcm => ?_
    obtain ⟨x, hx, rfl⟩ := List.mem_map.1 hcm
    exact (hb.within x hx).2.2.2

/-- Row by row or from the range, the stream is the same. -/
theorem emitSparseFormulas_eq {fmt : Fmt} {sheetName : String} {maxDenseCells : Nat}
    {fromSparse : List FormulaCell → Calamine.Range String} (hf : FromSparse fromSparse) (cells : List FormulaCell) :
    emitSparseFormulas fmt sheetName cells maxDenseCells =
      emitFormulaRange fmt sheetName (fromSparse cells) maxDenseCells := by
  cases hc : corners cells with
  | none =>
    obtain rfl := (Grid.corners_eq_none_iff cells).1 hc
    rw [hf.empty]
    refine congrArg (Emit.send _) (funext fun ok => ?_)
    cases ok <;> rfl
  | some b =>
    obtain ⟨lo, hi⟩ := b
    obtain ⟨⟨first, last, hfirst, hlast, hrow₀, hrow₁⟩, hcol₀, hcol₁⟩ := sorted_corners hc
    have hb := Grid.corners_bounds hc
    have hp : (sortByPosition cells).Perm cells := Grid.byPosition_perm cells
    obtain ⟨x, hx, -⟩ := hb.top
    have hwidth : lo.2 + (hi.2 - lo.2 + 1) = hi.2 + 1 := by
      have := hb.within x hx
      omega
    have hrows := sendSparseRows_eq lo.2 (hi.2 - lo.2 + 1) (hi.1 - lo.1 + 1) lo.1 (sortByPosition cells)
      (Grid.byPosition_ascending cells) (fun c hm => (hb.within c (hp.subset hm)).1)
      fun c hm => (hb.within c (hp.subset hm)).2.2.1
    have hsame : ∀ i j, lastAt (sortByPosition cells) i j = lastAt cells i j := Grid.lastAt_byPosition cells
    simp only [hwidth, hsame] at hrows
    rw [hf.bounding cells lo hi hc]
    simp only [emitSparseFormulas, hfirst, hlast, hrow₀, hrow₁, hcol₀, hcol₁, Option.getD_some, emitFormulaRange,
      checkDenseRange, hwidth, rangeHeader, hrows]

/-- Cells within the budget make a range within it. -/
theorem checkDenseRange_fromSparse (fmt : Fmt) (sheetName : String) {maxDenseCells : Nat}
    (hd : maxDenseCells < U64_MAX) {fromSparse : List FormulaCell → Calamine.Range String} (hf : FromSparse fromSparse)
    {cells : List FormulaCell} (hle : denseCells cells ≤ maxDenseCells) :
    checkDenseRange fmt sheetName (fromSparse cells) maxDenseCells = .ok () := by
  cases hc : corners cells with
  | none =>
    rw [(Grid.corners_eq_none_iff _).1 hc, hf.empty]
    rfl
  | some b =>
    obtain ⟨lo, hi⟩ := b
    obtain ⟨x, hx, -⟩ := (Grid.corners_bounds hc).top
    have hin := (Grid.corners_bounds hc).within x hx
    have hwidth : lo.2 + (hi.2 - lo.2 + 1) = hi.2 + 1 := by omega
    rw [hf.bounding _ lo hi hc]
    simp only [checkDenseRange, hwidth]
    rw [checkDense_eq_ok_iff fmt sheetName hd]
    simpa [denseCells, hc] using hle

/-- Collecting and streaming a sheet's formulas refuses it, before any event,
exactly when its non-empty cells pass a budget. Otherwise it is the dense branch
over the range calamine would have built, and `emit_sparse_formulas` never
refuses what the collector accepted. -/
theorem sparse_formulas_eq_dense (fmt : Fmt) (sheetName : String) (kind : Pb.CalamineErrorKind)
    (maxDenseCells maxBytes : Nat) (read : List FormulaCell) (fromSparse : List FormulaCell → Calamine.Range String)
    (hd : maxDenseCells < U64_MAX) (hb : maxBytes < U64_MAX) (hf : FromSparse fromSparse) :
    ((∃ msg, streamSparseFormulas fmt sheetName kind
        ((FormulaCollector.new sheetName maxDenseCells maxBytes).collect fmt read none) maxDenseCells =
          blockingSend ⟨.resourceExhausted, msg⟩) ↔
      Exceeds maxDenseCells maxBytes (formulasOf read)) ∧
    (¬ Exceeds maxDenseCells maxBytes (formulasOf read) →
      streamSparseFormulas fmt sheetName kind
          ((FormulaCollector.new sheetName maxDenseCells maxBytes).collect fmt read none) maxDenseCells =
        emitFormulaRange fmt sheetName (fromSparse (formulasOf read)) maxDenseCells ∧
      checkDenseRange fmt sheetName (fromSparse (formulasOf read)) maxDenseCells = .ok ()) ∧
    (∀ cells, (FormulaCollector.new sheetName maxDenseCells maxBytes).collect fmt read none = .ok cells →
      ∀ status, emitSparseFormulas fmt sheetName cells maxDenseCells ≠ blockingSend status) := by
  obtain ⟨hok, hrefused⟩ := collect_spec fmt hd hb read (collected_new sheetName maxDenseCells maxBytes)
  rw [List.nil_append] at hok hrefused
  have hsecond : ¬ Exceeds maxDenseCells maxBytes (formulasOf read) →
      checkDenseRange fmt sheetName (fromSparse (formulasOf read)) maxDenseCells = .ok () := by
    intro hn
    exact checkDenseRange_fromSparse fmt sheetName hd hf (Nat.le_of_not_lt fun h => hn (.inl h))
  -- what the collector accepts passes the second check, so the stream is never a refusal
  have hsends : ¬ Exceeds maxDenseCells maxBytes (formulasOf read) → ∀ status,
      emitSparseFormulas fmt sheetName (formulasOf read) maxDenseCells ≠ blockingSend status := by
    intro hn status h
    rw [emitSparseFormulas_eq hf, emitFormulaRange, hsecond hn] at h
    cases h
  refine ⟨⟨fun ⟨msg, h⟩ => ?_, fun he => ?_⟩, fun hn => ⟨?_, hsecond hn⟩, fun cells hcells status => ?_⟩
  · by_contra hn
    rw [hok hn, streamSparseFormulas] at h
    exact hsends hn _ h
  · obtain ⟨msg, hmsg⟩ := hrefused he
    exact ⟨msg, by rw [hmsg]; rfl⟩
  · rw [hok hn, streamSparseFormulas, emitSparseFormulas_eq hf]
  · by_cases he : Exceeds maxDenseCells maxBytes (formulasOf read)
    · obtain ⟨msg, hmsg⟩ := hrefused he
      rw [hmsg] at hcells
      cases hcells
    · rw [hok he] at hcells
      obtain rfl := Except.ok.inj hcells
      exact hsends he status

/-- A range built over the corners of its cells. -/
def boundingRange (cells : List FormulaCell) : Calamine.Range String :=
  match corners cells with
  | none => ⟨none, none, (0, 0), []⟩
  | some (lo, hi) => ⟨some lo, some hi, (hi.1 - lo.1 + 1, hi.2 - lo.2 + 1),
      (List.range' lo.1 (hi.1 - lo.1 + 1)).map fun i =>
        (List.range (hi.2 - lo.2 + 1)).map fun j => (lastAt cells i (lo.2 + j)).getD ""⟩

theorem boundingRange_fromSparse : FromSparse boundingRange where
  empty := rfl
  bounding cells lo hi hc := by simp only [boundingRange, hc]

theorem sparse_formulas_eq_dense_rewritten :
    streamSparseFormulas ⟨fun _ => true⟩ "Sheet1" .xlsx
        ((FormulaCollector.new "Sheet1" 100 1000).collect ⟨fun _ => true⟩
          [⟨4, 2, "A1"⟩, ⟨0, 9, ""⟩, ⟨2, 3, "A2"⟩, ⟨4, 2, "A3"⟩] none) 100 =
      emitFormulaRange ⟨fun _ => true⟩ "Sheet1" (boundingRange [⟨4, 2, "A1"⟩, ⟨2, 3, "A2"⟩, ⟨4, 2, "A3"⟩]) 100 :=
  ((sparse_formulas_eq_dense ⟨fun _ => true⟩ "Sheet1" .xlsx 100 1000
    [⟨4, 2, "A1"⟩, ⟨0, 9, ""⟩, ⟨2, 3, "A2"⟩, ⟨4, 2, "A3"⟩] boundingRange (by decide) (by decide)
    boundingRange_fromSparse).2.1 (by unfold Exceeds; decide)).1

end GrpcCalamine
