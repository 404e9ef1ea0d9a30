import GrpcCalamine.Service.RangeStream
/-!
# The pushes of a walk

A turn of `emit_incremental`'s loop pushes at most one row (`Walk.pushed`): a
late row, or the row under construction when a cell opens a further one. All
else a run does it does between pushes, so what is said of every push is said
of the run. `flushes` is the batcher's answer to one.
-/

namespace GrpcCalamine

namespace RowBatcher

/-- Whether a push of this row closes the batch. -/
def flushes (rt : Runtime) (b : RowBatcher) (row : Pb.WorksheetRow) : Bool := ((b.enqueue rt row).flushDue rt).1

/-- The linger deadline is past, at a row on which `push` reads the clock. -/
def LingerExpired (rt : Runtime) (b : RowBatcher) : Prop :=
  (b.rows.length < LINGER_CHECK_EVERY ∨ b.rows.length % LINGER_CHECK_EVERY = 0) ∧
    ∃ t ∈ b.openedAt, rt.now b.reads - t ≥ b.linger

instance (rt : Runtime) (b : RowBatcher) : Decidable (b.LingerExpired rt) := inferInstanceAs (Decidable (_ ∧ _))

theorem flushDue_iff (rt : Runtime) (b : RowBatcher) :
    (b.flushDue rt).1 = true ↔
      b.rows.length ≥ b.cap ∨ b.pendingBytes ≥ MAX_BATCH_BYTES ∨ b.LingerExpired rt := by
  unfold flushDue LingerExpired
  split
  · next hcaps => simpa [← or_assoc] using Or.inl hcaps
  · next hcaps =>
    rw [← or_assoc, or_iff_right hcaps]
    split
    · next hread =>
      rw [and_iff_right hread]
      cases b.openedAt with
      | none => simp
      | some t => simp
    · next hread => simp [hread]

/-- A push queues the row, and flushes if that closes the batch. -/
theorem push_flushes (rt : Runtime) (b : RowBatcher) (row : Pb.WorksheetRow) :
    ∃ o p n, b.push rt row =
      if b.flushes rt row then (b.queued row o p n).flush rt else .done (true, b.queued row o p n) := by
  obtain ⟨o, p, n, he⟩ := b.enqueue_eq rt row
  obtain ⟨due, m, hd, -⟩ := (b.enqueue rt row).flushDue_eq rt
  refine ⟨o, p, m, ?_⟩
  rw [flushes, push, hd, he]
  rfl

end RowBatcher

section
variable (rt : Runtime) (r : IncrementalRead)

/-- The walk after `next_cell` has looked its cell up in the table. -/
def Walk.interned (r : IncrementalRead) (w : Walk) (c : ReadCell) : Walk :=
  { w with batcher := { w.batcher with strings := (nextCell r.is1904 w.batcher.strings c).2 } }

theorem turn_eq (w : Walk) (c : ReadCell) : turn rt r w c = walkCell rt r (w.interned r c) (w.tuple r c) := rfl

/-- The row a turn pushes, if it pushes one. -/
def Walk.pushed (r : IncrementalRead) (w : Walk) (cell : Nat × Nat × Pb.CellData) : Option Pb.WorksheetRow :=
  if keeps r.headerRow cell ∧ w.isOpen then
    if cell.1 < w.currentRow then
      if w.batcher.accepts cell.1 then some ⟨cell.1, place [] cell.2.1 cell.2.2⟩ else none
    else if cell.1 ≠ w.currentRow ∧ w.batcher.accepts w.currentRow then some ⟨w.currentRow, w.values⟩
    else none
  else none

section pushed
variable {r : IncrementalRead} {w : Walk} {row idx : Nat} {value : Pb.CellData}

theorem pushed_late (hk : keeps r.headerRow (row, idx, value) = true) (ho : w.isOpen = true) (hlt : row < w.currentRow)
    (ha : w.batcher.accepts row = true) : w.pushed r (row, idx, value) = some ⟨row, place [] idx value⟩ := by
  simp only [Walk.pushed, hk, ho, hlt, ha, and_self, if_true]

theorem pushed_next (hk : keeps r.headerRow (row, idx, value) = true) (ho : w.isOpen = true) (hgt : w.currentRow < row)
    (ha : w.batcher.accepts w.currentRow = true) :
    w.pushed r (row, idx, value) = some ⟨w.currentRow, w.values⟩ := by
  have hnlt : ¬ row < w.currentRow := Nat.not_lt.2 (Nat.le_of_lt hgt)
  have hne : row ≠ w.currentRow := (Nat.ne_of_lt hgt).symm
  simp only [Walk.pushed, hk, ho, hnlt, ha, and_self, if_true, if_false, ne_eq, hne, not_false_eq_true]

end pushed

/-- What a turn goes on with after its push. -/
def Walk.resumed (w : Walk) (cell : Nat × Nat × Pb.CellData) (b : RowBatcher) : Walk :=
  if cell.1 < w.currentRow then { w with batcher := b }
  else { batcher := b, currentRow := cell.1, isOpen := true, values := place [] cell.2.1 cell.2.2 }

variable {rt r} {w : Walk} {cell : Nat × Nat × Pb.CellData}

/-- A turn that pushes goes on as the push says. -/
theorem walkCell_of_pushed {row : Pb.WorksheetRow} (h : w.pushed r cell = some row) :
    walkCell rt r w cell = w.batcher.push rt row >>= fun ok =>
      .done (if ok.1 then some (w.resumed cell ok.2) else none) := by
  obtain ⟨i, idx, value⟩ := cell
  unfold Walk.pushed at h
  split at h
  · next hko =>
    obtain ⟨hk, ho⟩ := hko
    split at h
    · next hlt =>
      split at h
      · next ha =>
        cases h
        simpa only [Walk.resumed, if_pos hlt] using walkCell_late_eq rt r hk ho hlt ha
      · cases h
    · next hlt =>
      split at h
      · next ha =>
        cases h
        have hgt : w.currentRow < i := lt_of_le_of_ne (Nat.not_lt.1 hlt) (Ne.symm ha.1)
        simpa only [Walk.resumed, if_neg hlt] using walkCell_next_eq rt r hk ho hgt ha.2
      · cases h
  · cases h

variable (rt r) in
/-- The pushes of a walk over its cells, each with the batcher as it found
it. -/
def pushesFrom (w : Walk) : List ReadCell → List (RowBatcher × Pb.WorksheetRow)
  | [] => []
  | c :: cells =>
    (((w.interned r c).pushed r (w.tuple r c)).map fun row => ((w.interned r c).batcher, row)).toList ++
      match (turn rt r w c).result with
      | some w' => pushesFrom w' cells
      | none => []

/-- The push that completes the final row. -/
def Walk.lastPush (w : Walk) : List (RowBatcher × Pb.WorksheetRow) :=
  if w.isOpen ∧ w.batcher.accepts w.currentRow then [(w.batcher, ⟨w.currentRow, w.values⟩)] else []

variable (rt r) in
/-- All the pushes of a stream. -/
def pushesOf (maxRows : Nat) (strings : Option StringTable) (tables : List Pb.DeclaredTable)
    (formats : List Pb.NumberFormat) : List (RowBatcher × Pb.WorksheetRow) :=
  pushesFrom rt r (startWalk r maxRows strings tables formats) r.cells ++
    match (walkCells rt r (startWalk r maxRows strings tables formats) r.cells).result with
    | some w => if r.failure = none then w.lastPush else []
    | none => []

end

end GrpcCalamine
