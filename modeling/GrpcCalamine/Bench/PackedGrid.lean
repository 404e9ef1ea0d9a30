import GrpcCalamine.Bench.Packed
import GrpcCalamine.Bench.SameWork
/-!
# The grid that is packed

`push_row` and `build_grid` of `bench/src/bin/packed.rs`: the dense walk once
more, its rows put into rectangular batches as they are completed, its shared
strings interned as they are read. `packed_gate` says what the batches hold and
what each encoding of them keeps.
-/

namespace GrpcCalamine.Bench.Packed

/-- The batches so far, and the pending one. -/
structure Packer where
  batches : List Batch
  pending : List Cell
  pendingFirst : Nat
  pendingWidth : Nat

/-- The pending rows, re-padded from `old` cells to `w`. -/
def widen (pending : List Cell) (old w : Nat) : List Cell :=
  (List.range (pending.length / max old 1)).flatMap fun r =>
    (pending.drop (r * old)).take old ++ List.replicate (w - old) .empty

/-- One completed row appended, the rows pending no narrower than it. -/
def Packer.append (p : Packer) (idx w : Nat) (cells : List Cell) : Packer :=
  let p :=
    if p.pending.isEmpty then { p with pendingFirst := idx, pendingWidth := w }
    else if p.pendingWidth < w then { p with pending := widen p.pending p.pendingWidth w, pendingWidth := w }
    else p
  { p with pending := p.pending ++ cells }

/-- Append one completed row, and emit a batch when there are rows enough. -/
def pushRow (batchRows : Nat) (p : Packer) (idx w : Nat) (cells : List Cell) : Packer :=
  let p := p.append idx w cells
  if p.pending.length / max p.pendingWidth 1 ≥ batchRows then
    { p with batches := p.batches ++ [⟨p.pendingFirst, p.pendingWidth, p.pending⟩], pending := [] }
  else p

/-- Where `build_grid` is. -/
structure GridWalk where
  width : Nat
  currentRow : Nat
  row : List Cell
  isOpen : Bool
  rowHasValue : Bool
  started : Bool
  pendingEmpty : Nat
  packer : Packer
  dict : Option Dict

namespace GridWalk

variable (batchRows : Nat)

def start (dims : Calamine.Dimensions) (dict : Option Dict) : GridWalk :=
  { width := dims.end.2 + 1, currentRow := dims.start.1, row := List.replicate (dims.end.2 + 1) .empty,
    isOpen := false, rowHasValue := false, started := false, pendingEmpty := 0,
    packer := { batches := [], pending := [], pendingFirst := 0, pendingWidth := dims.end.2 + 1 }, dict }

/-- The pending blank rows and the row itself, pushed. -/
def release (g : GridWalk) : Packer :=
  let blanks := (List.range' 1 g.pendingEmpty).reverse.foldl
    (fun p back => pushRow batchRows p (g.currentRow - back) g.width (List.replicate g.width .empty)) g.packer
  pushRow batchRows blanks g.currentRow g.width g.row

/-- One turn of the loop over rows: `complete_row!` and the next row begun. -/
def nextRow (g : GridWalk) : GridWalk :=
  let done :=
    if g.rowHasValue then { g with packer := g.release batchRows, pendingEmpty := 0, started := true }
    else if g.started then { g with pendingEmpty := g.pendingEmpty + 1 }
    else g
  { done with row := List.replicate g.width .empty, rowHasValue := false, currentRow := g.currentRow + 1 }

def advance : (count : Nat) → GridWalk → GridWalk
  | 0, g => g
  | count + 1, g => advance count (g.nextRow batchRows)

/-- A cell written in the row under construction. -/
def put (g : GridWalk) (idx : Nat) (value : Cell) : GridWalk :=
  let g :=
    if idx ≥ g.width then { g with width := idx + 1, row := g.row ++ List.replicate (idx + 1 - g.row.length) .empty }
    else g
  { g with row := g.row.set idx value, rowHasValue := g.rowHasValue || !decide (value = .empty) }

/-- One turn of the loop over cells. -/
def next (g : GridWalk) (c : ReadCell) : GridWalk :=
  let g :=
    if g.isOpen then g.advance batchRows (c.row - g.currentRow) else { g with currentRow := c.row, isOpen := true }
  let (value, dict) := Cell.fromRef g.dict c.value
  { g with dict }.put c.col value

end GridWalk

/-- The batches, and the dictionary the walk built. -/
def buildGrid (dims : Calamine.Dimensions) (cells : List ReadCell) (batchRows : Nat) (dict : Option Dict) :
    List Batch × Option Dict :=
  let g := cells.foldl (GridWalk.next batchRows) (.start dims dict)
  let p := if g.isOpen && g.rowHasValue then g.release batchRows else g.packer
  (if p.pending.isEmpty then p.batches else p.batches ++ [⟨p.pendingFirst, p.pendingWidth, p.pending⟩], g.dict)

/-! ## The rows it pushes -/

/-- Rows pushed one after another, each as wide as it is. -/
def pushRows (batchRows : Nat) (p : Packer) (rows : List (Nat × List Cell)) : Packer :=
  rows.foldl (fun p x => pushRow batchRows p x.1 x.2.length x.2) p

theorem pushRows_append (batchRows : Nat) (p : Packer) (rows rows' : List (Nat × List Cell)) :
    pushRows batchRows p (rows ++ rows') = pushRows batchRows (pushRows batchRows p rows) rows' :=
  List.foldl_append

/-- The cells as the walk hands them on, interned in turn. -/
def interned (dict : Option Dict) : List ReadCell → List (Nat × Nat × Cell × Bool) × Option Dict
  | [] => ([], dict)
  | c :: cells =>
    let (value, dict) := Cell.fromRef dict c.value
    let (rest, dict) := interned dict cells
    ((c.row, c.col, value, decide (value = .empty)) :: rest, dict)

/-- `build_grid` is where the dense walk is, its rows pushed. -/
structure GridWalk.Like (batchRows : Nat) (p : Packer) (g : GridWalk) (w : DenseWalk Cell) : Prop where
  width : g.width = w.width
  currentRow : g.currentRow = w.currentRow
  row : g.row = w.values
  length : w.values.length = w.width
  isOpen : g.isOpen = w.isOpen
  rowHasValue : g.rowHasValue = w.rowHasValue
  started : g.started = w.started
  pendingEmpty : g.pendingEmpty = w.pendingEmpty
  packer : g.packer = pushRows batchRows p w.rows

namespace GridWalk.Like

variable {batchRows : Nat} {p : Packer} {g : GridWalk} {w : DenseWalk Cell}

theorem release (h : Like batchRows p g w) : g.release batchRows = pushRows batchRows p (w.rows ++ w.release .empty) := by
  rw [pushRows_append, ← h.packer, DenseWalk.release, pushRows_append, GridWalk.release, ← h.width, ← h.currentRow,
    ← h.pendingEmpty, ← h.row]
  have hlen : g.row.length = g.width := by rw [h.row, h.width, h.length]
  have hblanks : ∀ (p : Packer) (backs : List Nat),
      pushRows batchRows p (backs.map fun back => (g.currentRow - back, List.replicate g.width Cell.empty)) =
        backs.foldl (fun p back => pushRow batchRows p (g.currentRow - back) g.width (List.replicate g.width .empty)) p := by
    intro p backs
    simp only [pushRows, List.foldl_map, List.length_replicate]
  rw [hblanks]
  simp only [pushRows, List.foldl_cons, List.foldl_nil, hlen]

theorem nextRow (h : Like batchRows p g w) : Like batchRows p (g.nextRow batchRows) (w.nextRow .empty) := by
  have hrelease := h.release
  obtain ⟨hwidth, hcur, hrow, hlen, hopen, hvalue, hstarted, hpending, hpacker⟩ := h
  unfold GridWalk.nextRow DenseWalk.nextRow
  cases hv : w.rowHasValue with
  | true =>
    rw [hv] at hvalue
    simp only [hvalue, if_true]
    exact ⟨hwidth, congrArg (· + 1) hcur, by rw [hwidth], List.length_replicate, hopen, rfl, rfl, rfl, hrelease⟩
  | false =>
    rw [hv] at hvalue
    simp only [hvalue, Bool.false_eq_true, if_false]
    cases hs : w.started with
    | true =>
      rw [hs] at hstarted
      simp only [hstarted, if_true]
      exact ⟨hwidth, congrArg (· + 1) hcur, by rw [hwidth], List.length_replicate, hopen, rfl, rfl,
        congrArg (· + 1) hpending, hpacker⟩
    | false =>
      rw [hs] at hstarted
      simp only [hstarted, Bool.false_eq_true, if_false]
      exact ⟨hwidth, congrArg (· + 1) hcur, by rw [hwidth], List.length_replicate, hopen, rfl, hs.symm, hpending,
        hpacker⟩

theorem advance (h : Like batchRows p g w) (count : Nat) :
    Like batchRows p (g.advance batchRows count) (w.advance .empty count) ∧ (g.advance batchRows count).dict = g.dict := by
  induction count generalizing g w with
  | zero => exact ⟨h, rfl⟩
  | succ count ih =>
    obtain ⟨hlike, hdict⟩ := ih h.nextRow
    refine ⟨hlike, hdict.trans ?_⟩
    unfold GridWalk.nextRow
    dsimp only
    split
    · rfl
    · split <;> rfl

theorem put (h : Like batchRows p g w) (idx : Nat) (value : Cell) :
    Like batchRows p (g.put idx value) (w.put .empty idx value (decide (value = .empty))) := by
  obtain ⟨hwidth, hcur, hrow, hlen, hopen, hvalue, hstarted, hpending, hpacker⟩ := h
  have hlen' : (w.values ++ List.replicate (idx + 1 - w.values.length) Cell.empty).length = max w.width (idx + 1) := by
    rw [List.length_append, List.length_replicate, hlen]
    omega
  have hsame : ((w.values ++ List.replicate (idx + 1 - w.values.length) Cell.empty).set idx value).length =
      max w.width (w.values ++ List.replicate (idx + 1 - w.values.length) Cell.empty).length := by
    rw [List.length_set, hlen']
    omega
  unfold GridWalk.put DenseWalk.put
  by_cases hwide : idx ≥ g.width
  · simp only [if_pos hwide]
    refine ⟨?_, hcur, by rw [hrow], hsame, hopen, by rw [hvalue], hstarted, hpending, hpacker⟩
    show idx + 1 = max w.width _
    rw [hlen']
    omega
  · simp only [if_neg hwide]
    have hnone : idx + 1 - w.values.length = 0 := by omega
    refine ⟨?_, hcur, ?_, hsame, hopen, by rw [hvalue], hstarted, hpending, hpacker⟩
    · show g.width = max w.width _
      rw [hlen']
      omega
    · rw [hrow, hnone, List.replicate_zero, List.append_nil]

theorem intern (h : Like batchRows p g w) (dict : Option Dict) : Like batchRows p { g with dict } w :=
  ⟨h.width, h.currentRow, h.row, h.length, h.isOpen, h.rowHasValue, h.started, h.pendingEmpty, h.packer⟩

theorem dict_put (g : GridWalk) (idx : Nat) (value : Cell) : (g.put idx value).dict = g.dict := by
  unfold GridWalk.put
  dsimp only
  split <;> rfl

theorem next (h : Like batchRows p g w) (c : ReadCell) :
    Like batchRows p (g.next batchRows c)
        (w.next .empty (c.row, c.col, (Cell.fromRef g.dict c.value).1, decide ((Cell.fromRef g.dict c.value).1 = .empty))) ∧
      (g.next batchRows c).dict = (Cell.fromRef g.dict c.value).2 := by
  cases hopen : g.isOpen with
  | true =>
    obtain ⟨hlike, hdict⟩ := h.advance (c.row - g.currentRow)
    have hput := (hlike.intern (Cell.fromRef g.dict c.value).2).put c.col (Cell.fromRef g.dict c.value).1
    rw [h.currentRow] at hput hdict
    simp only [GridWalk.next, DenseWalk.next, hopen, ← h.isOpen, h.currentRow, if_true, hdict]
    exact ⟨hput, dict_put _ _ _⟩
  | false =>
    obtain ⟨hwidth, hcur, hrow, hlen, hopen', hvalue, hstarted, hpending, hpacker⟩ := h
    have hlike : Like batchRows p { g with currentRow := c.row, isOpen := true }
        { w with currentRow := c.row, isOpen := true } :=
      ⟨hwidth, rfl, hrow, hlen, rfl, hvalue, hstarted, hpending, hpacker⟩
    have hput := (hlike.intern (Cell.fromRef g.dict c.value).2).put c.col (Cell.fromRef g.dict c.value).1
    simp only [GridWalk.next, DenseWalk.next, hopen, ← hopen', Bool.false_eq_true, if_false]
    exact ⟨hput, dict_put _ _ _⟩

theorem cells (h : Like batchRows p g w) (cells : List ReadCell) :
    Like batchRows p (cells.foldl (GridWalk.next batchRows) g) ((interned g.dict cells).1.foldl (DenseWalk.next .empty) w) ∧
      (cells.foldl (GridWalk.next batchRows) g).dict = (interned g.dict cells).2 := by
  induction cells generalizing g w with
  | nil => exact ⟨h, rfl⟩
  | cons c cells ih =>
    obtain ⟨hlike, hdict⟩ := h.next c
    obtain ⟨hrun, hlast⟩ := ih hlike
    rw [hdict] at hrun hlast
    exact ⟨hrun, hlast⟩

end GridWalk.Like

/-- The pending batch with those already out. -/
def Packer.all (p : Packer) : List Batch :=
  if p.pending.isEmpty then p.batches else p.batches ++ [⟨p.pendingFirst, p.pendingWidth, p.pending⟩]

def Packer.new (width : Nat) : Packer := ⟨[], [], 0, width⟩

/-- `build_grid` packs the rows of the dense walk. -/
theorem buildGrid_eq (dims : Calamine.Dimensions) (cells : List ReadCell) (batchRows : Nat) (dict : Option Dict) :
    buildGrid dims cells batchRows dict =
      ((pushRows batchRows (.new (dims.end.2 + 1)) (walkDense .empty dims (interned dict cells).1)).all,
        (interned dict cells).2) := by
  have hstart : GridWalk.Like batchRows (.new (dims.end.2 + 1)) (.start dims dict) (.start .empty dims) :=
    ⟨rfl, rfl, rfl, List.length_replicate, rfl, rfl, rfl, rfl, rfl⟩
  obtain ⟨hlike, hdict⟩ := hstart.cells cells
  have hinterned : interned (GridWalk.start dims dict).dict cells = interned dict cells := rfl
  rw [hinterned] at hlike hdict
  simp only [buildGrid, walkDense, hlike.isOpen, hlike.rowHasValue, hlike.release, hlike.packer, hdict]
  split <;> rfl

/-! ## Runs of rows -/

/-- A row with blank cells added up to `w`. -/
def padTo (w : Nat) (row : List Cell) : List Cell := row ++ List.replicate (w - row.length) .empty

/-- The batch a run of rows makes: as wide as the last of them. -/
def batchOf (run : List (Nat × List Cell)) : Batch :=
  let width := (run.getLast?.map (·.2.length)).getD 0
  { firstRow := (run.head?.map (·.1)).getD 0, width, cells := run.flatMap fun x => padTo width x.2 }

theorem batchOf_concat (run : List (Nat × List Cell)) (x : Nat × List Cell) :
    batchOf (run ++ [x]) =
      { firstRow := (run.head?.map (·.1)).getD x.1, width := x.2.length,
        cells := (run.flatMap fun y => padTo x.2.length y.2) ++ x.2 } := by
  have hself : padTo x.2.length x.2 = x.2 := by simp [padTo]
  rw [batchOf, List.getLast?_concat, Option.map_some, Option.getD_some, List.flatMap_append, List.flatMap_singleton, hself]
  cases run <;> rfl

theorem length_padTo {w : Nat} {row : List Cell} (h : row.length ≤ w) : (padTo w row).length = w := by
  rw [padTo, List.length_append, List.length_replicate, Nat.add_sub_cancel' h]

theorem padTo_padTo {w w' : Nat} {row : List Cell} (h : row.length ≤ w) (hw : w ≤ w') :
    padTo w row ++ List.replicate (w' - w) .empty = padTo w' row := by
  rw [padTo, padTo, List.append_assoc, List.replicate_append_replicate]
  congr 2
  omega

/-- Rows of one length, one after another: the row at `r`. -/
theorem chunk_flatten {w : Nat} {rows : List (List Cell)} (h : ∀ row ∈ rows, row.length = w) {r : Nat}
    (hr : r < rows.length) : (rows.flatten.drop (r * w)).take w = rows[r] := by
  induction rows generalizing r with
  | nil => exact absurd hr (Nat.not_lt_zero r)
  | cons row rows ih =>
    obtain ⟨hrow, hrows⟩ := List.forall_mem_cons.1 h
    cases r with
    | zero => rw [Nat.zero_mul, List.drop_zero, List.flatten_cons, ← hrow, List.take_left]; rfl
    | succ r =>
      rw [Nat.succ_mul, Nat.add_comm, ← List.drop_drop, List.flatten_cons, ← hrow, List.drop_left, hrow]
      exact ih hrows (Nat.lt_of_succ_lt_succ hr)

/-- Rows of one length, widened. -/
theorem widen_flatten {old : Nat} (hold : 0 < old) (w : Nat) {rows : List (List Cell)} (h : ∀ row ∈ rows, row.length = old) :
    widen rows.flatten old w = rows.flatMap fun row => row ++ List.replicate (w - old) .empty := by
  have hlen : rows.flatten.length / max old 1 = rows.length := by
    rw [Nat.max_eq_left hold, List.length_flatten, List.map_congr_left h, List.map_const', List.sum_replicate_nat,
      Nat.mul_div_cancel _ hold]
  rw [widen, hlen, List.flatMap_def, List.flatMap_def]
  congr 1
  apply List.ext_getElem
  · rw [List.length_map, List.length_map, List.length_range]
  · intro r h₁ h₂
    rw [List.length_map] at h₂
    rw [List.getElem_map, List.getElem_map, List.getElem_range, chunk_flatten h h₂]

/-- What is out and what is pending, `n` rows to a batch. -/
structure Packs (n : Nat) (runs : List (List (Nat × List Cell))) (late : List (Nat × List Cell)) (p : Packer) : Prop where
  batches : p.batches = runs.map batchOf
  full : ∀ run ∈ runs, run.length = n
  short : late.length < n
  pending : p.pending = (batchOf late).cells
  tail : late ≠ [] → p.pendingFirst = (batchOf late).firstRow ∧ p.pendingWidth = (batchOf late).width

/-- The pending row cells count the pending rows. -/
theorem length_batchOf {run : List (Nat × List Cell)} (h : ∀ x ∈ run, x.2.length ≤ (batchOf run).width) :
    (batchOf run).cells.length = run.length * (batchOf run).width := by
  have hpad : ∀ x ∈ run, (padTo (batchOf run).width x.2).length = (batchOf run).width := fun x hx => length_padTo (h x hx)
  have hcells : (batchOf run).cells = run.flatMap fun x => padTo (batchOf run).width x.2 := rfl
  rw [hcells, List.length_flatMap, List.map_congr_left hpad, List.map_const', List.sum_replicate_nat]

section packs

variable {n : Nat} {runs : List (List (Nat × List Cell))} {late : List (Nat × List Cell)} {p : Packer}

/-- A row no narrower than those pending is taken among them. -/
theorem Packs.append (h : Packs n runs late p) {x : Nat × List Cell}
    (hwidths : (late ++ [x]).Pairwise fun y z => y.2.length ≤ z.2.length) (hpos : ∀ y ∈ late ++ [x], 0 < y.2.length) :
    (p.append x.1 x.2.length x.2).batches = runs.map batchOf ∧
      (p.append x.1 x.2.length x.2).pending = (batchOf (late ++ [x])).cells ∧
      (p.append x.1 x.2.length x.2).pendingFirst = (batchOf (late ++ [x])).firstRow ∧
      (p.append x.1 x.2.length x.2).pendingWidth = (batchOf (late ++ [x])).width := by
  rw [batchOf_concat]
  rcases List.eq_nil_or_concat' late with rfl | ⟨front, y, hlate⟩
  · have hnil : p.pending = [] := h.pending
    simp only [Packer.append, hnil, List.isEmpty_nil, if_true]
    exact ⟨h.batches, rfl, rfl, trivial⟩
  · have hne : late ≠ [] := by simp [hlate]
    obtain ⟨hfirst, hwidth⟩ := h.tail hne
    obtain ⟨hbefore, -, hlast⟩ := List.pairwise_append.1 hwidths
    have hw : (batchOf late).width = y.2.length := by rw [hlate, batchOf_concat]
    have hle : ∀ z ∈ late, z.2.length ≤ (batchOf late).width := by
      rw [hw]
      intro z hz
      rw [hlate] at hz hbefore
      rcases List.mem_append.1 hz with hz | hz
      · exact (List.pairwise_append.1 hbefore).2.2 z hz y (List.mem_singleton.2 rfl)
      · rw [List.mem_singleton.1 hz]
    have hyx : y.2.length ≤ x.2.length := hlast y (by simp [hlate]) x (List.mem_singleton.2 rfl)
    have hypos : 0 < y.2.length := hpos y (by simp [hlate])
    have hcells : p.pending ≠ [] := by
      intro hnil
      have hlen := length_batchOf hle
      rw [← h.pending, hnil, hw, hlate, List.length_append] at hlen
      have := Nat.mul_pos (Nat.add_pos_right front.length Nat.one_pos) hypos
      simp only [List.length_nil, List.length_singleton] at hlen
      omega
    have hhead : (late.head?.map (·.1)).getD x.1 = (batchOf late).firstRow := by
      rw [hlate]
      cases front <;> rfl
    simp only [Packer.append, List.isEmpty_iff, hcells, if_false, hwidth, hw]
    by_cases hwider : y.2.length < x.2.length
    · -- the rows pending are re-padded
      have hflat : p.pending = (late.map fun z => padTo y.2.length z.2).flatten := by
        rw [h.pending, ← List.flatMap_def, ← hw]
        rfl
      have hall : ∀ row ∈ late.map fun z => padTo y.2.length z.2, row.length = y.2.length := by
        intro row hrow
        obtain ⟨z, hz, rfl⟩ := List.mem_map.1 hrow
        exact length_padTo (hw ▸ hle z hz)
      simp only [if_pos hwider]
      refine ⟨h.batches, ?_, hfirst.trans hhead.symm, trivial⟩
      rw [hflat, widen_flatten hypos _ hall, List.flatMap_map]
      congr 1
      apply List.flatMap_congr
      intro z hz
      exact padTo_padTo (hw ▸ hle z hz) hyx
    · have hsame : y.2.length = x.2.length := Nat.le_antisymm hyx (Nat.le_of_not_lt hwider)
      simp only [if_neg hwider]
      refine ⟨h.batches, ?_, hfirst.trans hhead.symm, hwidth.trans (hw.trans hsame)⟩
      rw [h.pending, ← hsame, ← hw]
      rfl

/-- A row pushed is in the rows pending, or the last of a batch. -/
theorem Packs.push {batchRows : Nat} (h : Packs (max batchRows 1) runs late p) {x : Nat × List Cell}
    (hwidths : (late ++ [x]).Pairwise fun y z => y.2.length ≤ z.2.length) (hpos : ∀ y ∈ late ++ [x], 0 < y.2.length) :
    ∃ runs' late', runs'.flatten ++ late' = runs.flatten ++ (late ++ [x]) ∧
      Packs (max batchRows 1) runs' late' (pushRow batchRows p x.1 x.2.length x.2) := by
  obtain ⟨hbatches, hpending, hfirst, hwidth⟩ := h.append hwidths hpos
  have hw : (batchOf (late ++ [x])).width = x.2.length := by rw [batchOf_concat]
  have hle : ∀ y ∈ late ++ [x], y.2.length ≤ (batchOf (late ++ [x])).width := by
    rw [hw]
    intro y hy
    rcases List.mem_append.1 hy with hy | hy
    · exact (List.pairwise_append.1 hwidths).2.2 y hy x (List.mem_singleton.2 rfl)
    · rw [List.mem_singleton.1 hy]
  have hxpos : 0 < x.2.length := hpos x (by simp)
  have hcount : (batchOf (late ++ [x])).cells.length / max (batchOf (late ++ [x])).width 1 = late.length + 1 := by
    rw [length_batchOf hle, hw, Nat.max_eq_left hxpos, Nat.mul_div_cancel _ hxpos, List.length_append]
    rfl
  have hshort := h.short
  unfold pushRow
  simp only [hpending, hwidth, hcount, hfirst, hbatches]
  by_cases hfull : late.length + 1 ≥ batchRows
  · rw [if_pos hfull]
    refine ⟨runs ++ [late ++ [x]], [], by simp, ?_, ?_, Nat.lt_of_lt_of_le Nat.one_pos (Nat.le_max_right _ _), rfl,
      fun hne => absurd rfl hne⟩
    · simp
    · intro run hrun
      rcases List.mem_append.1 hrun with hrun | hrun
      · exact h.full run hrun
      · rw [List.mem_singleton.1 hrun, List.length_append, List.length_singleton]
        omega
  · rw [if_neg hfull]
    refine ⟨runs, late ++ [x], rfl, hbatches, h.full, ?_, hpending, fun _ => ⟨hfirst, hwidth⟩⟩
    rw [List.length_append, List.length_singleton]
    omega

theorem Packs.pushes {batchRows : Nat} (h : Packs (max batchRows 1) runs late p) {rows : List (Nat × List Cell)}
    (hwidths : (runs.flatten ++ late ++ rows).Pairwise fun y z => y.2.length ≤ z.2.length)
    (hpos : ∀ y ∈ runs.flatten ++ late ++ rows, 0 < y.2.length) :
    ∃ runs' late', runs'.flatten ++ late' = runs.flatten ++ late ++ rows ∧
      Packs (max batchRows 1) runs' late' (pushRows batchRows p rows) := by
  induction rows generalizing runs late p with
  | nil => exact ⟨runs, late, (List.append_nil _).symm, h⟩
  | cons x rows ih =>
    have hsplit : runs.flatten ++ late ++ x :: rows = runs.flatten ++ (late ++ [x]) ++ rows := by simp
    rw [hsplit] at hwidths hpos ⊢
    have hone := (List.pairwise_append.1 (List.pairwise_append.1 hwidths).1).2.1
    obtain ⟨runs₁, late₁, hflat, hpacks⟩ := h.push hone fun y hy =>
      hpos y (List.mem_append_left _ (List.mem_append_right _ hy))
    rw [← hflat] at hwidths hpos ⊢
    exact ih hpacks hwidths hpos

end packs

/-- Rows no narrower than the ones before, packed in runs of as many rows as a
batch has, the last run what is left. -/
theorem all_pushRows (batchRows width : Nat) {rows : List (Nat × List Cell)}
    (hwidths : rows.Pairwise fun y z => y.2.length ≤ z.2.length) (hpos : ∀ y ∈ rows, 0 < y.2.length) :
    ∃ runs : List (List (Nat × List Cell)), runs.flatten = rows ∧
      (pushRows batchRows (.new width) rows).all = runs.map batchOf ∧
      (∀ run ∈ runs.dropLast, run.length = max batchRows 1) ∧
      ∀ run ∈ runs, run ≠ [] ∧ run.length ≤ max batchRows 1 := by
  have hnew : Packs (max batchRows 1) [] [] (.new width) :=
    ⟨rfl, fun _ h => absurd h List.not_mem_nil, by simp, rfl, fun h => absurd rfl h⟩
  have hall : ([] : List (List (Nat × List Cell))).flatten ++ [] ++ rows = rows := rfl
  obtain ⟨runs, late, hflat, hpacks⟩ := hnew.pushes (hall ▸ hwidths) (hall ▸ hpos)
  have hfull : ∀ run ∈ runs, run ≠ [] ∧ run.length ≤ max batchRows 1 := by
    intro run hrun
    have hlen := hpacks.full run hrun
    exact ⟨List.ne_nil_of_length_pos (by omega), Nat.le_of_eq hlen⟩
  by_cases hlate : late = []
  · subst hlate
    have hnil : (pushRows batchRows (.new width) rows).pending = [] := hpacks.pending
    refine ⟨runs, by simpa using hflat, ?_, fun run hrun => hpacks.full run (List.mem_of_mem_dropLast hrun), hfull⟩
    rw [Packer.all, hnil, List.isEmpty_nil, if_pos rfl, hpacks.batches]
  · have hsome : (pushRows batchRows (.new width) rows).pending ≠ [] := by
      obtain ⟨front, x, rfl⟩ := (List.eq_nil_or_concat' late).resolve_left hlate
      have hxpos : 0 < x.2.length := hpos x (by rw [← List.nil_append rows, ← hall, ← hflat]; simp)
      rw [hpacks.pending, batchOf_concat]
      intro hnil
      rw [(List.append_eq_nil_iff.1 hnil).2] at hxpos
      exact absurd hxpos (Nat.lt_irrefl 0)
    obtain ⟨hfirst, hwidth⟩ := hpacks.tail hlate
    refine ⟨runs ++ [late], by simpa using hflat, ?_, ?_, ?_⟩
    · rw [Packer.all, if_neg (by simpa using hsome), hpacks.batches, hfirst, hwidth, hpacks.pending, List.map_append]
      rfl
    · rw [List.dropLast_concat]
      exact hpacks.full
    · intro run hrun
      rcases List.mem_append.1 hrun with hrun | hrun
      · exact hfull run hrun
      · rw [List.mem_singleton.1 hrun]
        exact ⟨hlate, Nat.le_of_lt hpacks.short⟩

/-! ## What a batch digests to -/

/-- The calls for a run of digested rows, each as wide as the last. -/
def levelCalls (run : List (Nat × List DigestCall)) : List DigestCall :=
  let width := (run.getLast?.map (·.2.length)).getD 0
  run.flatMap fun x => .row x.1 :: (x.2 ++ List.replicate (width - x.2.length) (.cell 0 []))

/-- A row, digested. -/
def digestRow (x : Nat × List Cell) : Nat × List DigestCall := (x.1, x.2.map Cell.digestInto)

theorem sourceCalls_batchOf {first : Nat} {run : List (Nat × List Cell)} (h : Stack first run) :
    (batchOf run).sourceCalls = levelCalls (run.map digestRow) := by
  rcases List.eq_nil_or_concat' run with rfl | ⟨front, x, hrun⟩
  · rfl
  · have hw : (batchOf run).width = x.2.length := by rw [hrun, batchOf_concat]
    have hlast : (((run.map digestRow).getLast?.map (·.2.length)).getD 0) = x.2.length := by
      rw [hrun, List.map_append, List.map_singleton, List.getLast?_concat]
      exact List.length_map _
    have hle : ∀ y ∈ run, y.2.length ≤ (batchOf run).width := by
      have hwidths := h.widths
      rw [hw, hrun] at *
      intro y hy
      rcases List.mem_append.1 hy with hy | hy
      · exact (List.pairwise_append.1 hwidths).2.2 y hy x (List.mem_singleton.2 rfl)
      · rw [List.mem_singleton.1 hy]
    have hpos : 0 < (batchOf run).width := hw ▸ h.positive x (by simp [hrun])
    have hrows : (batchOf run).rows = run.length := by
      rw [Batch.rows, length_batchOf hle, Nat.mul_div_cancel _ hpos]
    have hfirst : (batchOf run).firstRow = first := by
      have hindices := h.indices
      cases run with
      | nil => cases front <;> cases hrun
      | cons y run =>
        rw [List.map_cons, List.length_cons, List.range'_succ] at hindices
        exact (List.cons.inj hindices).1
    have hcells : (batchOf run).cells = (run.map fun y => padTo (batchOf run).width y.2).flatten := rfl
    have hall : ∀ row ∈ run.map fun y => padTo (batchOf run).width y.2, row.length = (batchOf run).width := by
      intro row hrow
      obtain ⟨y, hy, rfl⟩ := List.mem_map.1 hrow
      exact length_padTo (hle y hy)
    rw [Batch.sourceCalls, levelCalls, hrows, hfirst, hlast, List.flatMap_def, List.flatMap_def, List.map_map]
    congr 1
    apply List.ext_getElem
    · rw [List.length_map, List.length_map, List.length_range]
    · intro r h₁ h₂
      rw [List.length_map] at h₂
      have hindex : run[r].1 = first + r := by
        have hget := congrArg (fun l => l[r]?) h.indices
        simp only [List.getElem?_map, List.getElem?_eq_getElem h₂, List.getElem?_range' h₂, Option.map_some,
          Nat.one_mul, Option.some.injEq] at hget
        exact hget
      have hrow : (batchOf run).row r = padTo x.2.length run[r].2 := by
        rw [Batch.row, hcells, chunk_flatten hall (by rwa [List.length_map]), List.getElem_map, hw]
      rw [List.getElem_map, List.getElem_map, List.getElem_range, hrow, ← hindex]
      simp [digestRow, padTo, Cell.digestInto]

/-! ## The dictionary -/

/-- The dictionary is a table none of whose entries has left. -/
def Dict.table (t : Dict) : StringTable := ⟨t.index, t.entries, t.entries.length⟩

structure Dict.Ok (strs : List Calamine.SharedStr) (t : Dict) : Prop where
  table : TableInv strs [] t.table
  bytes : t.bytes = (t.entries.map (·.utf8ByteSize)).sum

/-- What the dictionary costs: for each entry its length and its bytes. -/
theorem Dict.Ok.wireBytes {strs : List Calamine.SharedStr} {t : Dict} (h : t.Ok strs) :
    t.wireBytes = 4 + (t.entries.map fun s => 4 + s.utf8ByteSize).sum := by
  have hsum : ∀ entries : List String,
      (entries.map fun s => 4 + s.utf8ByteSize).sum = entries.length * 4 + (entries.map (·.utf8ByteSize)).sum := by
    intro entries
    induction entries with
    | nil => rfl
    | cons s entries ih =>
      rw [List.map_cons, List.sum_cons, ih, List.map_cons, List.sum_cons, List.length_cons]
      omega
  rw [Dict.wireBytes, h.bytes, hsum, Nat.add_assoc]

section dictionary

variable {strs : List Calamine.SharedStr} {t : Dict}

theorem Dict.Ok.default (strs : List Calamine.SharedStr) : Dict.default.Ok strs := ⟨.new strs, rfl⟩

theorem Dict.Ok.intern (h : t.Ok strs) (hstrs : Borrowed strs) {s : Calamine.SharedStr} (hs : s ∈ strs) :
    (t.intern s).2.Ok strs ∧ (∃ more, (t.intern s).2.entries = t.entries ++ more) ∧ (t.intern s).1 < 2 ^ 32 ∧
      (t.intern s).2.get (t.intern s).1 = some s.text := by
  have hfew : t.entries.length < 2 ^ 32 := h.table.few
  obtain ⟨hinv, hmore, hget⟩ := StringTable.intern_spec h.table hs hstrs.texts hstrs.few
  have hlt : (t.table.intern s).1 < 2 ^ 32 := by
    obtain ⟨hlt, -⟩ := List.getElem?_eq_some_iff.1 hget
    have hnext := hinv.next
    have := hinv.few
    rw [List.nil_append] at hlt hnext
    omega
  have hsame : (t.intern s).1 = (t.table.intern s).1 ∧ (t.intern s).2.table = (t.table.intern s).2 ∧
      (t.intern s).2.bytes = ((t.intern s).2.entries.map (·.utf8ByteSize)).sum := by
    have hindex : t.table.index = t.index := rfl
    cases hl : t.index.lookup s.key with
    | some i =>
      simp only [Dict.intern, StringTable.intern, hindex, hl]
      exact ⟨trivial, trivial, h.bytes⟩
    | none =>
      -- there is an id left, so that the table's next one is the number of entries
      have hnew : s.key ∉ t.table.index.map Prod.fst := by
        intro hm
        obtain ⟨p, hp, he⟩ := List.mem_map.1 hm
        have := List.lookup_eq_none_iff.1 hl p hp
        simp [he] at this
      have hroom : t.entries.length + 1 < 2 ^ 32 := h.table.room hs hnew hstrs.few
      simp only [Dict.intern, StringTable.intern, hindex, hl, Nat.mod_eq_of_lt hfew]
      refine ⟨rfl, ?_, ?_⟩
      · simp only [Dict.table, List.length_append, List.length_singleton, Nat.mod_eq_of_lt hroom]
      · rw [List.map_append, List.sum_append, h.bytes]
        simp
  obtain ⟨hid, htable, hbytes⟩ := hsame
  rw [← htable] at hinv hmore hget
  rw [← hid] at hget hlt
  exact ⟨⟨hinv, hbytes⟩, hmore, hlt, hget⟩

/-- The ids of a dictionary are those of any it grows to. -/
theorem Dict.get_append {t' : Dict} {i : Nat} {text : String} (h : t.get i = some text)
    (hmore : ∃ more, t'.entries = t.entries ++ more) : t'.get i = some text := by
  obtain ⟨more, hmore⟩ := hmore
  rw [Dict.get, hmore]
  exact entry_append h more

theorem interned_ok {cells : List ReadCell} (h : t.Ok strs) (hstrs : Borrowed strs)
    (hcells : ∀ s ∈ borrows cells, s ∈ strs) :
    ∃ t', (interned (some t) cells).2 = some t' ∧ t'.Ok strs ∧ (∃ more, t'.entries = t.entries ++ more) ∧
      t'.Knows ((interned (some t) cells).1.map (·.2.2.1)) := by
  induction cells generalizing t with
  | nil => exact ⟨t, rfl, h, ⟨[], (List.append_nil _).symm⟩, fun text id hmem => absurd hmem List.not_mem_nil⟩
  | cons c cells ih =>
    have hrest : ∀ s ∈ borrows cells, s ∈ strs := by
      intro s hs
      refine hcells s ?_
      obtain ⟨d, hd, hval⟩ := List.mem_filterMap.1 hs
      exact List.mem_filterMap.2 ⟨d, List.mem_cons_of_mem _ hd, hval⟩
    have hone : ∃ t₁, (Cell.fromRef (some t) c.value).2 = some t₁ ∧ t₁.Ok strs ∧ (∃ more, t₁.entries = t.entries ++ more) ∧
        ∀ text id, (Cell.fromRef (some t) c.value).1 = .shared text id → id < 2 ^ 32 ∧ t₁.get id = some text := by
      cases hv : c.value with
      | sharedString s =>
        have hs : s ∈ strs := hcells s (mem_borrows List.mem_cons_self hv)
        obtain ⟨hok, hmore, hlt, hget⟩ := h.intern hstrs hs
        refine ⟨(t.intern s).2, rfl, hok, hmore, ?_⟩
        rintro text id ⟨⟩
        exact ⟨hlt, hget⟩
      | _ => exact ⟨t, rfl, h, ⟨[], (List.append_nil _).symm⟩, nofun⟩
    obtain ⟨t₁, hdict, hok, ⟨more, hmore⟩, hknows⟩ := hone
    obtain ⟨t₂, hdict₂, hok₂, ⟨more₂, hmore₂⟩, hknows₂⟩ := ih hok hrest
    rw [← hdict] at hdict₂ hknows₂
    refine ⟨t₂, hdict₂, hok₂, ⟨more ++ more₂, by rw [hmore₂, hmore, List.append_assoc]⟩, ?_⟩
    intro text id hmem
    rcases List.mem_cons.1 hmem with hmem | hmem
    · obtain ⟨hlt, hget⟩ := hknows text id hmem.symm
      exact ⟨hlt, Dict.get_append hget ⟨more₂, hmore₂⟩⟩
    · exact hknows₂ text id hmem

end dictionary

/-! ## With a dictionary and without -/

/-- The cell as a walk without a dictionary has it. -/
def Cell.unnumbered : Cell → Cell
  | .shared text _ => .shared text 0
  | c => c

def Batch.unnumbered (b : Batch) : Batch := { b with cells := b.cells.map Cell.unnumbered }

section unnumbered

theorem widen_unnumbered (pending : List Cell) (old w : Nat) :
    widen (pending.map Cell.unnumbered) old w = (widen pending old w).map Cell.unnumbered := by
  simp only [widen, List.length_map, List.map_flatMap, List.map_append, List.map_take, List.map_drop, List.map_replicate]
  rfl

def Packer.unnumbered (p : Packer) : Packer :=
  { p with batches := p.batches.map Batch.unnumbered, pending := p.pending.map Cell.unnumbered }

theorem pushRow_unnumbered (batchRows : Nat) (p : Packer) (idx w : Nat) (cells : List Cell) :
    pushRow batchRows p.unnumbered idx w (cells.map Cell.unnumbered) = (pushRow batchRows p idx w cells).unnumbered := by
  have happend : p.unnumbered.append idx w (cells.map Cell.unnumbered) = (p.append idx w cells).unnumbered := by
    simp only [Packer.append, Packer.unnumbered, List.isEmpty_map, widen_unnumbered]
    split
    · simp
    · split <;> simp
  have hlen : (p.append idx w cells).unnumbered.pending.length = (p.append idx w cells).pending.length := List.length_map _
  have hwidth : (p.append idx w cells).unnumbered.pendingWidth = (p.append idx w cells).pendingWidth := rfl
  simp only [pushRow, happend, hlen, hwidth]
  split
  · simp [Packer.unnumbered, Batch.unnumbered]
  · rfl

theorem pushRows_unnumbered (batchRows : Nat) (p : Packer) (rows : List (Nat × List Cell)) :
    pushRows batchRows p.unnumbered (rows.map fun x => (x.1, x.2.map Cell.unnumbered)) =
      (pushRows batchRows p rows).unnumbered := by
  induction rows generalizing p with
  | nil => rfl
  | cons x rows ih =>
    have hone := pushRow_unnumbered batchRows p x.1 x.2.length x.2
    show pushRows batchRows (pushRow batchRows p.unnumbered x.1 (x.2.map Cell.unnumbered).length (x.2.map Cell.unnumbered))
      (rows.map fun x => (x.1, x.2.map Cell.unnumbered)) = _
    rw [List.length_map, hone]
    exact ih _

theorem all_unnumbered (p : Packer) : p.unnumbered.all = p.all.map Batch.unnumbered := by
  simp only [Packer.all, Packer.unnumbered, List.isEmpty_map]
  split
  · rfl
  · rw [List.map_append]
    rfl

/-- Interning changes the ids and nothing else. -/
theorem interned_none (dict : Option Dict) (cells : List ReadCell) :
    (interned none cells).1 = (interned dict cells).1.map fun c => (c.1, c.2.1, c.2.2.1.unnumbered, c.2.2.2) := by
  induction cells generalizing dict with
  | nil => rfl
  | cons c cells ih =>
    have hone : Cell.fromRef none c.value = ((Cell.fromRef dict c.value).1.unnumbered, none) := by
      cases c.value with
      | sharedString s => cases dict <;> rfl
      | _ => rfl
    have hempty : ((Cell.fromRef dict c.value).1.unnumbered = .empty) ↔ ((Cell.fromRef dict c.value).1 = .empty) := by
      cases (Cell.fromRef dict c.value).1 <;> simp [Cell.unnumbered]
    simp only [interned, hone, List.map_cons, hempty, ih (Cell.fromRef dict c.value).2]

end unnumbered

/-! ## What is read -/

theorem interned_digest (dict : Option Dict) (cells : List ReadCell) :
    (interned dict cells).1.map (fun c => (c.1, c.2.1, c.2.2.1.digestInto, c.2.2.2)) = readCells digestRef cells := by
  induction cells generalizing dict with
  | nil => rfl
  | cons c cells ih =>
    have hone : (Cell.fromRef dict c.value).1.digestInto = digestRef c.value ∧
        ((Cell.fromRef dict c.value).1 = .empty ↔ c.value = .empty) := by
      cases c.value with
      | sharedString s => cases dict <;> exact ⟨rfl, by simp [Cell.fromRef]⟩
      | _ => exact ⟨rfl, by simp [Cell.fromRef]⟩
    simp only [interned, List.map_cons, ih, hone.1, hone.2]
    rfl

/-- The grid is the dense arm's, cell by cell. -/
theorem digestRow_walkDense (dims : Calamine.Dimensions) (dict : Option Dict) (cells : List ReadCell) :
    (walkDense .empty dims (interned dict cells).1).map digestRow =
      (nativeGrid dims cells).map fun x => (x.1, x.2.map digestRef) := by
  have hcell := walkDense_map Cell.digestInto .empty dims (interned dict cells).1
  have hread := walkDense_map digestRef .empty dims (readCells id cells)
  rw [interned_digest] at hcell
  rw [readCells_map] at hread
  exact hcell.symm.trans hread

/-- A call for a level run is for a row, a blank, or one of its cells. -/
theorem mem_levelCalls {run : List (Nat × List DigestCall)} {c : DigestCall} (h : c ∈ levelCalls run) :
    (∃ i, c = .row i) ∨ c = .cell 0 [] ∨ ∃ x ∈ run, c ∈ x.2 := by
  obtain ⟨x, hx, hc⟩ := List.mem_flatMap.1 h
  rcases List.mem_cons.1 hc with rfl | hc
  · exact .inl ⟨_, rfl⟩
  · rcases List.mem_append.1 hc with hc | hc
    · exact .inr (.inr ⟨x, hx, hc⟩)
    · exact .inr (.inl (List.eq_of_mem_replicate hc))

/-- The grid holds what was read, and blanks. -/
theorem nativeGrid_dates {dims : Calamine.Dimensions} {cells : List ReadCell}
    (h : ∀ c ∈ cells, ¬ MinusZero c.value) {x : Nat × List Calamine.DataRef} (hx : x ∈ nativeGrid dims cells)
    {v : Calamine.DataRef} (hv : v ∈ x.2) : ¬ MinusZero v := by
  have hall : ∀ x ∈ nativeGrid dims cells, ∀ v ∈ x.2, ¬ MinusZero v := by
    apply walkDense_forall
    · rintro ⟨dt, hdt, -⟩
      cases hdt
    · intro c hc
      obtain ⟨d, hd, rfl⟩ := List.mem_map.1 hc
      exact h d hd
  exact hall x hx v hv

theorem mem_batchOf {run : List (Nat × List Cell)} {c : Cell} (h : c ∈ (batchOf run).cells) :
    c = .empty ∨ ∃ x ∈ run, c ∈ x.2 := by
  obtain ⟨x, hx, hc⟩ := List.mem_flatMap.1 h
  rcases List.mem_append.1 hc with hc | hc
  · exact .inr ⟨x, hx, hc⟩
  · exact .inl (List.eq_of_mem_replicate hc)

/-- Without the dictionary the same batches are built, but for the ids. -/
theorem buildGrid_none (dims : Calamine.Dimensions) (cells : List ReadCell) (batchRows : Nat) (dict : Option Dict) :
    (buildGrid dims cells batchRows none).1 = (buildGrid dims cells batchRows dict).1.map Batch.unnumbered := by
  have hwalk := walkDense_map Cell.unnumbered .empty dims (interned dict cells).1
  have hempty : Cell.unnumbered .empty = .empty := rfl
  have hnew : Packer.new (dims.end.2 + 1) = (Packer.new (dims.end.2 + 1)).unnumbered := rfl
  rw [← interned_none dict cells, hempty] at hwalk
  rw [buildGrid_eq, buildGrid_eq, hwalk, hnew, pushRows_unnumbered, all_unnumbered, ← hnew]

/-- No date of serial -0.0 is called for where none was read. -/
theorem levelCalls_dates {dims : Calamine.Dimensions} {cells : List ReadCell} (h : ∀ c ∈ cells, ¬ MinusZero c.value)
    {run : List (Nat × List DigestCall)}
    (hrun : ∀ x ∈ run, x ∈ (nativeGrid dims cells).map fun x => (x.1, x.2.map digestRef)) :
    minusZeroCall ∉ levelCalls run := by
  intro hmem
  rcases mem_levelCalls hmem with hrow | hblank | ⟨x, hx, hcall⟩
  · obtain ⟨i, hi⟩ := hrow
    cases hi
  · exact absurd hblank (by decide)
  · obtain ⟨y, hy, rfl⟩ := List.mem_map.1 (hrun x hx)
    obtain ⟨v, hv, hdigest⟩ := List.mem_map.1 hcall
    exact nativeGrid_dates h hy hv (digestRef_eq_minusZeroCall_iff.1 hdigest)

/-- Every shared string of a batch was read, and interned then. -/
theorem knows_batchOf {t : Dict} {dims : Calamine.Dimensions} {cells : List (Nat × Nat × Cell × Bool)}
    (hknows : t.Knows (cells.map (·.2.2.1))) {run : List (Nat × List Cell)}
    (hrun : ∀ x ∈ run, x ∈ walkDense .empty dims cells) : t.Knows (batchOf run).cells := by
  have hvalues : ∀ x ∈ walkDense .empty dims cells, ∀ v ∈ x.2, ∀ text id,
      v = Cell.shared text id → id < 2 ^ 32 ∧ t.get id = some text := by
    apply walkDense_forall
    · intro text id hc
      cases hc
    · intro c hc text id heq
      exact hknows text id (heq ▸ List.mem_map_of_mem hc)
  intro text id hmem
  rcases mem_batchOf hmem with hc | ⟨x, hx, hc⟩
  · cases hc
  · exact hvalues x (hrun x hx) _ hc text id rfl

/-! ## The gate -/

/-- What the experiment encodes, built with a dictionary and without: the rows
of the dense arm's grid in order, as many to a batch as asked, those of a batch
padded to the last of them. The flat encodings of a batch are decoded to just
that, the contract's to what arrives of it: the same, unless there is a date of
serial -0.0. -/
theorem packed_gate (dims : Calamine.Dimensions) (cells : List ReadCell) (batchRows : Nat) (h : Borrowed (borrows cells)) :
    ∃ batches t, buildGrid dims cells batchRows (some .default) = (batches, some t) ∧
      t.wireBytes = 4 + (t.entries.map fun s => 4 + s.utf8ByteSize).sum ∧
      (buildGrid dims cells batchRows none).1 = batches.map Batch.unnumbered ∧
      (∃ runs : List (List (Nat × List DigestCall)),
        runs.flatten = (nativeGrid dims cells).map (fun x => (x.1, x.2.map digestRef)) ∧
          batches.map Batch.sourceCalls = runs.map levelCalls ∧
          (∀ run ∈ runs.dropLast, run.length = max batchRows 1) ∧
          ∀ run ∈ runs, run ≠ [] ∧ run.length ≤ max batchRows 1) ∧
      ((∀ c ∈ cells, ¬ MinusZero c.value) → ∀ b ∈ batches, minusZeroCall ∉ b.sourceCalls) ∧
      ∀ b ∈ batches, (decodeContract (encodeContract b) = some b.sourceCalls ↔ minusZeroCall ∉ b.sourceCalls) ∧
        (b.Fits false → decodePacked (encodePacked b false) none = some b.sourceCalls) ∧
        (b.Fits true → decodePacked (encodePacked b true) (some t) = some b.sourceCalls) := by
  obtain ⟨t, hdict, hok, -, hknows⟩ := interned_ok (Dict.Ok.default (borrows cells)) h fun s hs => hs
  obtain ⟨first, hstack⟩ := walkDense_stack Cell.empty dims (interned (some .default) cells).1
  obtain ⟨runs, hflat, hall, hfull, hruns⟩ := all_pushRows batchRows (dims.end.2 + 1) hstack.widths hstack.positive
  have hbuild := buildGrid_eq dims cells batchRows (some .default)
  rw [hdict, hall] at hbuild
  have hlevel : ∀ run ∈ runs, (batchOf run).sourceCalls = levelCalls (run.map digestRow) := by
    intro run hrun
    obtain ⟨before, after, hsplit⟩ := List.append_of_mem hrun
    have hrow : Stack first (before.flatten ++ run ++ after.flatten) := by
      rw [← hflat, hsplit] at hstack
      simpa using hstack
    exact sourceCalls_batchOf hrow.infix
  have hgrid : (runs.map fun run => run.map digestRow).flatten =
      (nativeGrid dims cells).map fun x => (x.1, x.2.map digestRef) := by
    rw [← digestRow_walkDense dims (some .default), ← hflat, List.map_flatten]
  refine ⟨runs.map batchOf, t, hbuild, hok.wireBytes, ?_, ⟨runs.map fun run => run.map digestRow, hgrid, ?_, ?_, ?_⟩,
    fun hdates b hb => ?_, ?_⟩
  · rw [buildGrid_none dims cells batchRows (some .default), hbuild]
  · rw [List.map_map, List.map_map]
    exact List.map_congr_left hlevel
  · intro run hrun
    rw [← List.map_dropLast] at hrun
    obtain ⟨run', hrun', rfl⟩ := List.mem_map.1 hrun
    rw [List.length_map, hfull run' hrun']
  · intro run hrun
    obtain ⟨run', hrun', rfl⟩ := List.mem_map.1 hrun
    obtain ⟨hne, hlen⟩ := hruns run' hrun'
    rw [List.length_map]
    exact ⟨by simpa using hne, hlen⟩
  · obtain ⟨run, hrun, rfl⟩ := List.mem_map.1 hb
    rw [hlevel run hrun]
    have hread : ∀ x ∈ run.map digestRow, x ∈ (nativeGrid dims cells).map fun x => (x.1, x.2.map digestRef) := by
      intro x hx
      rw [← hgrid]
      exact List.mem_flatten.2 ⟨_, List.mem_map_of_mem hrun, hx⟩
    exact levelCalls_dates hdates hread
  · intro b hb
    obtain ⟨run, hrun, rfl⟩ := List.mem_map.1 hb
    have hwalked : ∀ x ∈ run, x ∈ walkDense .empty dims (interned (some .default) cells).1 := by
      intro x hx
      rw [← hflat]
      exact List.mem_flatten.2 ⟨run, hrun, hx⟩
    have hbatch : t.Knows (batchOf run).cells := knows_batchOf hknows hwalked
    refine ⟨?_, fun hfits => ?_, fun hfits => ?_⟩
    · rw [decodeContract_encodeContract, Option.some.injEq, map_arrivingCall_iff]
    · have hplain : (batchOf run).Fits (none : Option Dict).isSome := hfits
      have hround := decodePacked_encodePacked hplain fun _ hnone => absurd hnone (Option.not_mem_none _)
      exact hround
    · have hdictionary : (batchOf run).Fits (some t).isSome := hfits
      have hknown : ∀ t' ∈ some t, t'.Knows (batchOf run).cells := by
        intro t' ht'
        obtain rfl := Option.mem_some_iff.1 ht'
        exact hbatch
      have hround := decodePacked_encodePacked hdictionary hknown
      exact hround

/-- A shared string twice, in a row wider than the ones before it. -/
def sharedCells : List ReadCell :=
  [⟨2, 1, .sharedString ⟨64, "ab"⟩, none, none⟩, ⟨4, 0, .int (-7), none, none⟩,
    ⟨4, 3, .sharedString ⟨64, "ab"⟩, none, none⟩]

theorem packed_gate_shared :
    ∃ batches t, buildGrid ⟨(2, 0), (4, 1)⟩ sharedCells 2 (some .default) = (batches, some t) ∧ t.entries = ["ab"] ∧
      batches.map Batch.rows = [2, 1] ∧ ∀ b ∈ batches, decodeContract (encodeContract b) = some b.sourceCalls ∧
        decodePacked (encodePacked b true) (some t) = some b.sourceCalls := by
  have hborrowed : Borrowed (borrows sharedCells) := by
    refine ⟨?_, by decide⟩
    intro s hs s' hs' _
    simp [borrows, sharedCells] at hs hs'
    rw [hs, hs']
  have hdates : ∀ c ∈ sharedCells, ¬ MinusZero c.value := by
    have hcalls : ∀ c ∈ sharedCells, digestRef c.value ≠ minusZeroCall := by decide
    exact fun c hc hzero => hcalls c hc (digestRef_eq_minusZeroCall_iff.2 hzero)
  obtain ⟨batches, t, hbuild, -, -, -, hplain, hall⟩ := packed_gate ⟨(2, 0), (4, 1)⟩ sharedCells 2 hborrowed
  have hrun : buildGrid ⟨(2, 0), (4, 1)⟩ sharedCells 2 (some .default) =
      ([⟨2, 4, [.empty, .shared "ab" 0, .empty, .empty, .empty, .empty, .empty, .empty]⟩,
        ⟨4, 4, [.int (-7), .empty, .empty, .shared "ab" 0]⟩],
        some ⟨[((64, 2), 0)], ["ab"], 2⟩) := by decide
  obtain ⟨rfl, ht⟩ := Prod.mk.inj (hbuild.symm.trans hrun)
  obtain rfl := Option.some.inj ht
  refine ⟨_, _, hbuild, rfl, rfl, fun b hb => ⟨(hall b hb).1.2 (hplain hdates b hb), (hall b hb).2.2 ?_⟩⟩
  rcases List.mem_cons.1 hb with rfl | hb
  · exact ⟨by decide, by decide, by decide, by decide⟩
  · obtain rfl := List.mem_singleton.1 hb
    exact ⟨by decide, by decide, by decide, by decide⟩

end GrpcCalamine.Bench.Packed
