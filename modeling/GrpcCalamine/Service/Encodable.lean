import GrpcCalamine.Service.Frames
import GrpcCalamine.Service.Flush
import Mathlib.Algebra.Order.BigOperators.Group.List
/-!
# Batches stay under the frame limit

The estimate of a cell is at least four fifths of what the cell encodes to
(`cell_bound`), so a queue below the byte cap leaves room for one more row of
half a frame (`batch_fits`). What a flush sends is part of such a queue
(`flush_ensures`), with a count of its bytes that `push` keeps exact (`Kept`).
-/

namespace GrpcCalamine

open Wire

/-! ## The estimate of a cell -/

section Cells

variable {n : Nat}

theorem varintLen_le_four (h : n < 2 ^ 28) : varintLen n ≤ 4 := (varintLen_le_iff (by decide)).2 h

theorem excelDateTime_encodedLen_le (dt : Pb.ExcelDateTime) : dt.encodedLen ≤ 13 := by
  obtain ⟨value, kind, is1904⟩ := dt
  have hkind : Pb.enumField 2 kind.number ≤ 2 := by cases kind <;> decide
  have hbool : Pb.boolField 3 is1904 ≤ 2 := by cases is1904 <;> decide
  have hvalue : (if value = 0 then 0 else fixed64Field 1) ≤ 9 := by
    split
    · exact Nat.zero_le _
    · decide
  unfold Pb.ExcelDateTime.encodedLen
  simp only []
  omega

/-- The length of the text a value carries, if it carries one. -/
def textLen : Option Pb.Value → Option Nat
  | some (.stringValue s) | some (.sharedStringValue s) | some (.dateTimeIso s) | some (.durationIso s) =>
    some s.utf8ByteSize
  | _ => none

/-- What a value is on the wire. -/
def valueLen (value : Option Pb.Value) : Nat :=
  match value with
  | some value => value.encodedLen
  | none => 0

theorem valueLen_text {value : Option Pb.Value} (h : textLen value = some n) : valueLen value = varintLen n + n + 1 := by
  match value, h with
  | some (.stringValue s), rfl => exact lenField_eq rfl _
  | some (.sharedStringValue s), rfl => exact lenField_eq rfl _
  | some (.dateTimeIso s), rfl => exact lenField_eq rfl _
  | some (.durationIso s), rfl => exact lenField_eq rfl _

theorem valueLen_le {value : Option Pb.Value} (h : textLen value = none) : valueLen value ≤ 15 := by
  match value, h with
  | none, _ => exact Nat.zero_le _
  | some (.intValue v), _ =>
    have hlt : (v % 2 ^ 64).toNat < 2 ^ (7 * 10) := by omega
    have := (varintLen_le_iff (by decide)).2 hlt
    have hkey : keyLen 1 = 1 := rfl
    simp only [valueLen, Pb.Value.encodedLen, varintField, hkey]
    omega
  | some (.floatValue v), _ => exact (by decide : fixed64Field 2 ≤ 15)
  | some (.boolValue v), _ => exact (by decide : varintField 5 1 ≤ 15)
  | some (.dateTime dt), _ =>
    have hdt := excelDateTime_encodedLen_le dt
    have hone : varintLen dt.encodedLen = 1 := varintLen_eq_one (by omega)
    simp only [valueLen, Pb.Value.encodedLen]
    rw [lenField_eq rfl, hone]
    omega
  | some (.error e), _ =>
    show varintField 9 e.number ≤ 15
    cases e <;> decide
  | some .empty, _ => exact (by decide : lenField 10 0 ≤ 15)
  | some (.sharedStringId id), _ =>
    have := Pb.u32Len_le id
    have hkey : keyLen 11 = 1 := rfl
    simp only [valueLen, Pb.Value.encodedLen, hkey]
    omega

theorem approxCellBytes_eq (cell : Pb.CellData) :
    approxCellBytes cell = 6 + (match cell.formula with
        | some s => s.utf8ByteSize + 6
        | none => 0) + (if cell.styleId.isSome then 6 else 0) + (textLen cell.value).getD 8 := by
  obtain ⟨value, formula, styleId⟩ := cell
  cases value with
  | none => cases formula <;> rfl
  | some value => cases value <;> cases formula <;> rfl

theorem encodedLen_eq (cell : Pb.CellData) :
    cell.encodedLen = (match cell.formula with
        | some s => lenField 12 s.utf8ByteSize
        | none => 0) + (match cell.styleId with
        | some id => keyLen 13 + Pb.u32Len id
        | none => 0) + valueLen cell.value := rfl

/-- The parts of a cell: a formula or none, a style of at most six bytes, and
the value. -/
theorem cell_parts (cell : Pb.CellData) :
    ∃ style, style ≤ 6 ∧
      (cell.encodedLen = style + valueLen cell.value ∧
          style + 6 + (textLen cell.value).getD 8 ≤ approxCellBytes cell ∨
        ∃ f, cell.encodedLen = varintLen f + f + 1 + style + valueLen cell.value ∧
          f + 6 + style + 6 + (textLen cell.value).getD 8 ≤ approxCellBytes cell) := by
  have hstyle : ∃ style, (match cell.styleId with
      | some id => keyLen 13 + Pb.u32Len id
      | none => 0) = style ∧ style ≤ if cell.styleId.isSome then 6 else 0 := by
    cases cell.styleId with
    | none => exact ⟨0, rfl, Nat.le_refl _⟩
    | some id =>
      have hkey : keyLen 13 = 1 := rfl
      have hid := Pb.u32Len_le id
      exact ⟨_, rfl, by simp only [hkey, Option.isSome_some, if_true]; omega⟩
  obtain ⟨style, hlen, hle⟩ := hstyle
  have hsix : style ≤ 6 := hle.trans (by split <;> decide)
  rw [encodedLen_eq, hlen, approxCellBytes_eq]
  refine ⟨style, hsix, ?_⟩
  cases cell.formula with
  | none => exact .inl ⟨by simp only []; omega, by simp only []; omega⟩
  | some s =>
    refine .inr ⟨s.utf8ByteSize, ?_, ?_⟩
    · simp only [lenField_eq (rfl : keyLen 12 = 1)]
    · simp only []
      omega

/-- A cell of fewer than 2^28 bytes is estimated at no less than four fifths of
what it takes in its row. -/
theorem cell_bound (cell : Pb.CellData) (h : cell.encodedLen < 2 ^ 28) :
    4 * lenField 2 cell.encodedLen ≤ 5 * approxCellBytes cell := by
  rw [lenField_eq rfl]
  have hframe := varintLen_le_four h
  obtain ⟨style, hstyle, ⟨hlen, happrox⟩ | ⟨f, hlen, happrox⟩⟩ := cell_parts cell
  · cases htext : textLen cell.value with
    | none =>
      have hvalue := valueLen_le htext
      have hone : varintLen cell.encodedLen = 1 := varintLen_eq_one (by omega)
      rw [htext, Option.getD_none] at happrox
      omega
    | some n =>
      have hvalue := valueLen_text htext
      rw [htext, Option.getD_some] at happrox
      have htextLen : varintLen n ≤ 4 := varintLen_le_four (by omega)
      -- a long text pays for its own length bytes
      by_cases hshort : n < 100
      · have hn : varintLen n = 1 := varintLen_eq_one (by omega)
        have hone : varintLen cell.encodedLen = 1 := varintLen_eq_one (by omega)
        omega
      · omega
  · have hformula : varintLen f ≤ 4 := varintLen_le_four (by omega)
    cases htext : textLen cell.value with
    | none =>
      have hvalue := valueLen_le htext
      rw [htext, Option.getD_none] at happrox
      omega
    | some n =>
      have hvalue := valueLen_text htext
      rw [htext, Option.getD_some] at happrox
      have htextLen : varintLen n ≤ 4 := varintLen_le_four (by omega)
      omega

end Cells

/-! ## Rows and batches -/

/-- A row of no more than half a frame. -/
def Light (row : Pb.WorksheetRow) : Prop := row.encodedLen ≤ MAX_FRAME_BYTES / 2

theorem cells_bound {values : List Pb.CellData} (h : ∀ cell ∈ values, cell.encodedLen < 2 ^ 28) :
    4 * (values.map fun cell => lenField 2 cell.encodedLen).sum ≤ 5 * approxRowBytes values := by
  induction values with
  | nil => exact Nat.zero_le _
  | cons cell values ih =>
    have hcell := cell_bound cell (h cell List.mem_cons_self)
    have hrest := ih fun c hc => h c (List.mem_cons_of_mem cell hc)
    simp only [approxRowBytes, List.map_cons, List.sum_cons, Nat.mul_add] at hrest ⊢
    omega

theorem cell_le_row {row : Pb.WorksheetRow} {cell : Pb.CellData} (h : cell ∈ row.values) :
    cell.encodedLen ≤ row.encodedLen := by
  have hmem := List.le_sum_of_mem (List.mem_map.2 ⟨cell, h, rfl⟩ :
    lenField 2 cell.encodedLen ∈ row.values.map fun cell => lenField 2 cell.encodedLen)
  have hlen : cell.encodedLen ≤ lenField 2 cell.encodedLen := by
    rw [lenField_eq rfl]
    omega
  unfold Pb.WorksheetRow.encodedLen
  omega

/-- A light row is estimated at no less than four fifths of its cells. -/
theorem row_bound {row : Pb.WorksheetRow} (h : Light row) : 4 * row.encodedLen ≤ 24 + 5 * approxRowBytes row.values := by
  have hhalf : MAX_FRAME_BYTES / 2 < 2 ^ 28 := by decide
  have hcells := cells_bound fun cell hc => Nat.lt_of_le_of_lt ((cell_le_row hc).trans h) hhalf
  have hindex : Pb.u32Field 1 row.rowIndex ≤ 6 := by
    have := Pb.u32Len_le row.rowIndex
    have hkey : keyLen 1 = 1 := rfl
    unfold Pb.u32Field
    split <;> omega
  unfold Pb.WorksheetRow.encodedLen
  omega

theorem light_lenField {row : Pb.WorksheetRow} (h : Light row) {field : Nat} (hkey : keyLen field = 1) :
    lenField field row.encodedLen ≤ row.encodedLen + 5 := by
  have hhalf : MAX_FRAME_BYTES / 2 < 2 ^ 28 := by decide
  have := varintLen_le_four (Nat.lt_of_le_of_lt h hhalf)
  rw [lenField_eq hkey]
  omega

/-- Four times what a light row takes in a batch. -/
def batchWeight (row : Pb.WorksheetRow) : Nat :=
  if row.encodedLen ≤ MAX_FRAME_BYTES / 2 then 4 * lenField 1 row.encodedLen else 0

theorem batchWeight_le (row : Pb.WorksheetRow) : batchWeight row ≤ 4 * (MAX_FRAME_BYTES / 2 + 5) := by
  unfold batchWeight
  split
  · rename_i h
    have := light_lenField h (rfl : keyLen 1 = 1)
    omega
  · exact Nat.zero_le _

theorem batchWeight_le_approx (row : Pb.WorksheetRow) : batchWeight row ≤ 44 + 5 * approxRowBytes row.values := by
  unfold batchWeight
  split
  · rename_i h
    have := light_lenField h (rfl : keyLen 1 = 1)
    have := row_bound h
    omega
  · exact Nat.zero_le _

/-- What the rows of a queue are estimated at. -/
def approxRows (rows : List Pb.WorksheetRow) : Nat := (rows.map fun row => approxRowBytes row.values).sum

theorem batchWeights_le (rows : List Pb.WorksheetRow) :
    (rows.map batchWeight).sum ≤ 44 * rows.length + 5 * approxRows rows := by
  induction rows with
  | nil => exact Nat.zero_le _
  | cons row rows ih =>
    have := batchWeight_le_approx row
    simp only [approxRows, List.map_cons, List.sum_cons, List.length_cons] at ih ⊢
    omega

/-- A queue closed by its last row: without that row it is within the caps. -/
def Closing (rows : List Pb.WorksheetRow) : Prop :=
  ∃ last rest, rows.Perm (last :: rest) ∧ rest.length < MAX_ROWS_PER_MESSAGE_CEILING ∧ approxRows rest < MAX_BATCH_BYTES

theorem batchLen_light {run : List Pb.WorksheetRow} (hlight : ∀ row ∈ run, Light row) :
    4 * Pb.batchLen run = (run.map batchWeight).sum := by
  induction run with
  | nil => rfl
  | cons row run ih =>
    have hrest := ih fun r hr => hlight r (List.mem_cons_of_mem row hr)
    have hrow : batchWeight row = 4 * lenField 1 row.encodedLen := if_pos (hlight row List.mem_cons_self)
    simp only [Pb.batchLen, List.map_cons, List.sum_cons, Nat.mul_add] at hrest ⊢
    omega

/-- Light rows of such a queue fit a frame together. -/
theorem batch_fits {rows sorted run : List Pb.WorksheetRow} (hclosing : Closing rows) (hsorted : sorted.Perm rows)
    (hrun : run.Sublist sorted) (hlight : ∀ row ∈ run, Light row) :
    lenField 4 (Pb.batchLen run) ≤ MAX_FRAME_BYTES := by
  obtain ⟨last, rest, hperm, hcount, hbytes⟩ := hclosing
  have hsub : (run.map batchWeight).sum ≤ (sorted.map batchWeight).sum :=
    (hrun.map batchWeight).sum_le_sum fun _ _ => Nat.zero_le _
  have hsum : (sorted.map batchWeight).sum = batchWeight last + (rest.map batchWeight).sum := by
    rw [((hsorted.trans hperm).map batchWeight).sum_nat, List.map_cons, List.sum_cons]
  have hlast := batchWeight_le last
  have hrest := batchWeights_le rest
  have hlen := batchLen_light hlight
  have hsmall : Pb.batchLen run < 2 ^ 28 := by
    unfold MAX_BATCH_BYTES MAX_ROWS_PER_MESSAGE_CEILING MAX_FRAME_BYTES at *
    omega
  have := varintLen_le_four hsmall
  rw [lenField_eq rfl]
  unfold MAX_BATCH_BYTES MAX_ROWS_PER_MESSAGE_CEILING MAX_FRAME_BYTES at *
  omega

/-! ## What a push queues -/

/-- One row of the queue takes the pushed one; the others stay. -/
theorem mergeQueued_closing (rows : List Pb.WorksheetRow) (row : Pb.WorksheetRow) :
    ∃ last rest, (RowBatcher.mergeQueued rows row).Perm (last :: rest) ∧ rest.length ≤ rows.length ∧
      approxRows rest ≤ approxRows rows := by
  induction rows with
  | nil => exact ⟨row, [], List.Perm.refl _, Nat.le_refl _, Nat.le_refl _⟩
  | cons existing rows ih =>
    unfold RowBatcher.mergeQueued
    split
    · refine ⟨_, rows, List.Perm.refl _, Nat.le_succ _, ?_⟩
      simp only [approxRows, List.map_cons, List.sum_cons]
      exact Nat.le_add_left _ _
    · obtain ⟨last, rest, hperm, hlen, hbytes⟩ := ih
      refine ⟨last, existing :: rest, (hperm.cons existing).trans (.swap last existing rest), ?_, ?_⟩
      · exact Nat.succ_le_succ hlen
      · simp only [approxRows, List.map_cons, List.sum_cons] at hbytes ⊢
        exact Nat.add_le_add_left hbytes _

/-- The byte count of a batcher is its queue's, and both are within the
caps. -/
structure Kept (b : RowBatcher) : Prop where
  pending : b.pendingBytes = approxRows b.rows
  bytes : b.pendingBytes < MAX_BATCH_BYTES
  count : b.rows.length < MAX_ROWS_PER_MESSAGE_CEILING
  cap : b.cap ≤ MAX_ROWS_PER_MESSAGE_CEILING

namespace RowBatcher

theorem kept_new (maxRowsPerMessage : Nat) (strings : Option StringTable) : Kept (new maxRowsPerMessage strings) := by
  refine ⟨rfl, (by decide : 0 < MAX_BATCH_BYTES), (by decide : 0 < MAX_ROWS_PER_MESSAGE_CEILING), ?_⟩
  unfold new
  simp only []
  unfold DEFAULT_MAX_ROWS_PER_MESSAGE MAX_ROWS_PER_MESSAGE_CEILING
  split <;> split <;> omega

theorem enqueue_closing (rt : Runtime) {b : RowBatcher} (hb : Kept b) (row : Pb.WorksheetRow) :
    Closing (b.enqueue rt row).rows ∧ (b.enqueue rt row).pendingBytes = approxRows (b.enqueue rt row).rows ∧
      (b.enqueue rt row).cap = b.cap := by
  -- an empty queue only has its clock started first
  have hopen : ∃ c : RowBatcher, c.rows = b.rows ∧ c.pendingBytes = b.pendingBytes ∧ c.cap = b.cap ∧
      b.enqueue rt row = if c.rows.getLast?.all fun last => row.rowIndex > last.rowIndex then
        { c with pendingBytes := c.pendingBytes + approxRowBytes row.values, rows := c.rows ++ [row] }
      else { c with rows := mergeQueued c.rows row, pendingBytes := approxRows (mergeQueued c.rows row) } := by
    cases hempty : b.rows.isEmpty with
    | true =>
      refine ⟨{ b with openedAt := some (rt.now b.reads), reads := b.reads + 1 }, rfl, rfl, rfl, ?_⟩
      simp only [enqueue, hempty, if_true]
      rfl
    | false =>
      refine ⟨b, rfl, rfl, rfl, ?_⟩
      simp only [enqueue, hempty, Bool.false_eq_true, if_false]
      rfl
  obtain ⟨c, hrows, hpending, hcap, heq⟩ := hopen
  have hsmall : approxRows b.rows < MAX_BATCH_BYTES := hb.pending ▸ hb.bytes
  rw [heq]
  -- the row that can take the queue past its caps is the one pushed, or the one it is merged into
  split
  · refine ⟨⟨row, c.rows, (List.perm_append_singleton row c.rows), ?_, ?_⟩, ?_, hcap⟩
    · rw [hrows]
      exact hb.count
    · rw [hrows]
      exact hsmall
    · simp only [approxRows, List.map_append, List.sum_append, List.map_cons, List.map_nil, List.sum_singleton]
      rw [hpending, hb.pending, hrows, approxRows]
  · obtain ⟨last, rest, hperm, hlen, hbytes⟩ := mergeQueued_closing c.rows row
    rw [hrows] at hlen hbytes
    exact ⟨⟨last, rest, hperm, Nat.lt_of_le_of_lt hlen hb.count, Nat.lt_of_le_of_lt hbytes hsmall⟩, rfl, hcap⟩

end RowBatcher

/-! ## What a flush sends -/

/-- The rows of an event. -/
def carriedRows : Pb.RangeEvent → List Pb.WorksheetRow
  | .row r => [r]
  | .rows rs => rs
  | _ => []

/-- An event of light rows fits a frame. -/
def Encodable (item : Item Pb.RangeEvent) : Prop :=
  ∀ e n, item = .event e → e.rowsLen = some n → (∀ r ∈ carriedRows e, Light r) → n ≤ MAX_FRAME_BYTES

theorem encodable_other {e : Pb.RangeEvent} (h : e.rowsLen = none) : Encodable (.event e) := by
  intro e' n he hn
  cases he
  rw [h] at hn
  cases hn

theorem encodable_row (r : Pb.WorksheetRow) : Encodable (.event (.row r)) := by
  intro e n he hn hlight
  cases he
  cases hn
  have hr : Light r := hlight r (List.mem_singleton_self r)
  have hlen := light_lenField hr (rfl : keyLen 2 = 1)
  unfold Light at hr
  have hroom : MAX_FRAME_BYTES / 2 + 5 ≤ MAX_FRAME_BYTES := by decide
  omega

theorem encodable_rows {rows sorted run : List Pb.WorksheetRow} (hclosing : Closing rows) (hsorted : sorted.Perm rows)
    (hrun : run.Sublist sorted) : Encodable (.event (.rows run)) := by
  intro e n he hn hlight
  cases he
  cases hn
  exact batch_fits hclosing hsorted hrun hlight

/-- What a batcher sends with keeps its queue and its caps. -/
def SameQueue (b b' : RowBatcher) : Prop := b'.rows = b.rows ∧ b'.pendingBytes = b.pendingBytes ∧ b'.cap = b.cap

theorem StringTable.sendChunks_ensures (n : Nat) (t : StringTable) :
    (t.sendChunks n).Ensures Encodable fun _ => True := by
  induction n generalizing t with
  | zero => trivial
  | succ n ih =>
    unfold sendChunks
    cases t.takeChunk with
    | none => trivial
    | some c =>
      refine ⟨encodable_other rfl, fun ok => ?_⟩
      cases ok with
      | true => exact ih c.2
      | false => trivial

namespace RowBatcher

theorem sendNewStrings_ensures (b : RowBatcher) : b.sendNewStrings.Ensures Encodable fun p => SameQueue b p.2 := by
  unfold sendNewStrings
  cases b.strings with
  | none => exact ⟨rfl, rfl, rfl⟩
  | some t => exact (t.sendChunks_ensures _).bind fun p _ => ⟨rfl, rfl, rfl⟩

theorem RunItem.encodable {rows sorted : List Pb.WorksheetRow} (hclosing : Closing rows) (hsorted : sorted.Perm rows)
    {single : Bool} {i : Item Pb.RangeEvent} (h : RunItem single sorted i) : Encodable i := by
  cases h with
  | gap _ _ => exact encodable_other rfl
  | row _ _ => exact encodable_row _
  | rows _ _ hrun _ => exact encodable_rows hclosing hsorted hrun

/-- A flush of a queue its last row has closed leaves the queue empty. -/
theorem flush_ensures (rt : Runtime) (b : RowBatcher) (hclosing : b.rows ≠ [] → Closing b.rows)
    (hcap : b.cap ≤ MAX_ROWS_PER_MESSAGE_CEILING) (hpending : b.pendingBytes = approxRows b.rows) :
    (b.flush rt).Ensures Encodable fun p => p.1 = true → Kept p.2 := by
  unfold flush
  cases hempty : b.rows.isEmpty with
  | true =>
    have hnil := List.isEmpty_iff.1 hempty
    intro _
    refine ⟨hpending, ?_, ?_, hcap⟩
    · rw [hpending, hnil]
      decide
    · rw [hnil]
      decide
  | false =>
    have hclosing := hclosing (List.isEmpty_eq_false_iff.1 hempty)
    apply (sendNewStrings_ensures _).bind
    rintro ⟨ok, b'⟩ hsame
    cases ok with
    | false => exact nofun
    | true =>
      have hqueue : b'.rows = b.rows := hsame.1
      have hsorted : (rt.sort b'.rows).Perm b.rows := hqueue ▸ rt.sort_perm b'.rows
      refine (sendRuns_runItems _ _).mono (fun _ h => h.encodable hclosing hsorted) ?_
      rintro ⟨ok, b''⟩ hmoves -
      have hrows : b''.rows = [] := hmoves.rows
      have hbytes : b''.pendingBytes = 0 := hmoves.pendingBytes.trans hsame.2.1
      have hsameCap : b''.cap = b.cap := hmoves.cap.trans hsame.2.2
      refine ⟨?_, ?_, ?_, hsameCap ▸ hcap⟩
      · rw [hbytes, hrows]
        rfl
      · rw [hbytes]
        decide
      · rw [hrows]
        decide

/-- A push keeps the byte count exact, and whatever it sends of light rows fits
a frame. -/
theorem push_ensures (rt : Runtime) {b : RowBatcher} (hb : Kept b) (row : Pb.WorksheetRow) :
    (b.push rt row).Ensures Encodable fun p => p.1 = true → Kept p.2 := by
  obtain ⟨hclosing, hpending, hcap⟩ := enqueue_closing rt hb row
  obtain ⟨due, n, hdue, hopen⟩ := (b.enqueue rt row).flushDue_eq rt
  have hcap' : (b.enqueue rt row).cap ≤ MAX_ROWS_PER_MESSAGE_CEILING := hcap ▸ hb.cap
  unfold push
  rw [hdue]
  cases due with
  | true => exact flush_ensures rt { b.enqueue rt row with reads := n } (fun _ => hclosing) hcap' hpending
  | false =>
    intro _
    obtain ⟨hcount, hsmall⟩ := hopen rfl
    exact ⟨hpending, hsmall, Nat.lt_of_lt_of_le hcount hcap', hcap'⟩

end RowBatcher

/-! ## Runs of the batcher -/

/-- What a stream body does with its batcher. -/
inductive BatcherOp where
  | openAt (row : Nat)
  | push (row : Pb.WorksheetRow)
  | flush

def RowBatcher.perform (rt : Runtime) (b : RowBatcher) : BatcherOp → Stream Pb.RangeEvent (Bool × RowBatcher)
  | .openAt row => return (true, b.openAt row)
  | .push row => b.push rt row
  | .flush => b.flush rt

/-- Operations one after another, until the client is gone. -/
def RowBatcher.run (rt : Runtime) : RowBatcher → List BatcherOp → Stream Pb.RangeEvent (Bool × RowBatcher)
  | b, [] => return (true, b)
  | b, op :: ops => do
    let (ok, b) ← b.perform rt op
    if ok then run rt b ops else return (false, b)

/-- A queue within the caps is one row and the rest. -/
theorem Kept.closing {b : RowBatcher} (hb : Kept b) (hne : b.rows ≠ []) : Closing b.rows := by
  obtain ⟨last, rest, hrows⟩ := List.exists_cons_of_ne_nil hne
  have hcount := hb.count
  have hbytes := hb.pending ▸ hb.bytes
  rw [hrows] at hcount hbytes ⊢
  simp only [approxRows, List.length_cons, List.map_cons, List.sum_cons] at hcount hbytes
  refine ⟨last, rest, List.Perm.refl _, by omega, ?_⟩
  unfold approxRows
  omega

theorem RowBatcher.run_ensures (rt : Runtime) {b : RowBatcher} (hb : Kept b) (ops : List BatcherOp) :
    (b.run rt ops).Ensures Encodable fun p => p.1 = true → Kept p.2 := by
  induction ops generalizing b with
  | nil => exact fun _ => hb
  | cons op ops ih =>
    have hop : (b.perform rt op).Ensures Encodable fun p => p.1 = true → Kept p.2 := by
      cases op with
      | openAt row => exact fun _ => ⟨hb.pending, hb.bytes, hb.count, hb.cap⟩
      | push row => exact push_ensures rt hb row
      | flush => exact b.flush_ensures rt hb.closing hb.cap hb.pending
    unfold run
    apply hop.bind
    rintro ⟨ok, b'⟩ hkept
    cases ok with
    | true => exact ih (hkept rfl)
    | false => exact nofun

/-- In every run of a batcher, whatever is pushed, flushed and answered, an
event whose rows each encode to half a frame at most encodes to a frame at
most; and while the client takes what it is sent, the byte count is what the
queued rows are estimated at. -/
theorem batches_encodable (rt : Runtime) (maxRowsPerMessage : Nat) (strings : Option StringTable)
    (ops : List BatcherOp) :
    (∀ ans e n, .event e ∈ ((RowBatcher.new maxRowsPerMessage strings).run rt ops).accepted ans →
      e.rowsLen = some n → (∀ r ∈ carriedRows e, r.encodedLen ≤ MAX_FRAME_BYTES / 2) → n ≤ MAX_FRAME_BYTES) ∧
    (∀ b, ((RowBatcher.new maxRowsPerMessage strings).run rt ops).result = (true, b) →
      b.pendingBytes = (b.rows.map fun row => approxRowBytes row.values).sum) := by
  have hrun := RowBatcher.run_ensures rt (RowBatcher.kept_new maxRowsPerMessage strings) ops
  constructor
  · intro ans e n he hn hlight
    exact hrun.accepted ans _ he e n rfl hn hlight
  · intro b hb
    have hkept := hrun.result
    rw [hb] at hkept
    exact (hkept rfl).pending

end GrpcCalamine
