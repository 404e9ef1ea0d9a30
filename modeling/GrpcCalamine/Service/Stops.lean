import GrpcCalamine.Service.Incremental
/-!
# A refused send is the last

Every loop that sends events in the batcher and in the incremental walk ends
as soon as a send is refused, and says so to its caller: with `false`, or with
no walk to go on with.
-/

namespace GrpcCalamine

open Emit (StopsIn Stops)

theorem sendStreamError_stops {T : Type} [StreamResponse T] (e : Pb.CalamineError) (terminal : Bool) :
    StopsIn (· = false) (sendStreamError e terminal : Stream T Bool) :=
  Emit.stopsIn_ask _

theorem abortWith_stops {T : Type} [StreamResponse T] (kind : Pb.CalamineErrorKind) (err : String) :
    Stops (abortWith kind err : Stream T Unit) :=
  (sendStreamError_stops _ _).bind (fun _ _ => ⟨(), trivial, rfl⟩) trivial

theorem blockingSend_stops {T : Type} (s : Status) : Stops (blockingSend s : Stream T Unit) :=
  ⟨⟨(), trivial, rfl⟩, trivial⟩

theorem StringTable.sendChunks_stops (n : Nat) (t : StringTable) : StopsIn (·.1 = false) (t.sendChunks n) := by
  induction n generalizing t with
  | zero => trivial
  | succ n ih =>
    unfold sendChunks
    cases t.takeChunk with
    | none => trivial
    | some c => exact ⟨⟨(false, c.2), rfl, rfl⟩, ih c.2⟩

namespace RowBatcher

variable (rt : Runtime) (b : RowBatcher)

theorem sendNewStrings_stops : StopsIn (·.1 = false) b.sendNewStrings := by
  unfold sendNewStrings
  cases b.strings with
  | none => trivial
  | some t =>
    apply (t.sendChunks_stops _).bind
    · intro p hp
      exact ⟨(p.1, { b with strings := some p.2 }), hp, rfl⟩
    · trivial

theorem sendRows_stops (run : List Pb.WorksheetRow) : StopsIn (· = false) (sendRows run) := by
  induction run with
  | nil => trivial
  | cons row run ih => exact ⟨⟨false, rfl, rfl⟩, ih⟩

theorem sendCarrier_stops (run : List Pb.WorksheetRow) : StopsIn (· = false) (b.sendCarrier run) := by
  unfold sendCarrier
  split
  · exact sendRows_stops run
  · exact Emit.stopsIn_ask _

theorem sendGap_stops (first : Nat) : StopsIn (· = false) (b.sendGap first) := by
  unfold sendGap
  cases b.nextExpected with
  | none => trivial
  | some e =>
    simp only []
    split
    · exact Emit.stopsIn_ask _
    · trivial

theorem sendRun_stops (run : List Pb.WorksheetRow) : StopsIn (·.1 = false) (b.sendRun run) := by
  unfold sendRun
  split
  · apply (b.sendGap_stops _).bind
    · intro ok hok
      rw [hok]
      exact ⟨(false, b), rfl, rfl⟩
    · split
      · exact (sendCarrier_stops _ run).bind (fun ok hok => ⟨_, hok, rfl⟩) trivial
      · trivial
  · trivial

theorem sendRuns_stops (queued run : List Pb.WorksheetRow) : StopsIn (·.1 = false) (b.sendRuns queued run) := by
  induction queued generalizing b run with
  | nil => exact b.sendRun_stops run
  | cons row queued ih =>
    simp only [sendRuns]
    split
    · apply (b.sendRun_stops run).bind_flag
      · intro b'
        exact ⟨(false, b'), rfl, rfl⟩
      · intro b'
        exact ih b' _
    · exact ih b _

theorem flush_stops : StopsIn (·.1 = false) (b.flush rt) := by
  unfold flush
  split
  · trivial
  · apply (sendNewStrings_stops _).bind_flag
    · intro b'
      exact ⟨(false, b'), rfl, rfl⟩
    · intro b'
      exact sendRuns_stops _ _ _

theorem push_stops (row : Pb.WorksheetRow) : StopsIn (·.1 = false) (b.push rt row) := by
  simp only [push]
  split
  · exact flush_stops rt _
  · trivial

end RowBatcher

section
variable (rt : Runtime) (r : IncrementalRead)

theorem abortUnsorted_stops (row col : Nat) : Stops (abortUnsorted rt.fmt r.kind r.header.sheetName row col) :=
  abortWith_stops _ _

theorem walkCell_stops (w : Walk) (t : Nat × Nat × Pb.CellData) : StopsIn (· = none) (walkCell rt r w t) := by
  obtain ⟨row, idx, value⟩ := t
  simp only [walkCell]
  split
  · trivial
  split
  · split
    · exact (abortUnsorted_stops rt r row idx).bind (fun _ _ => ⟨none, rfl, rfl⟩) trivial
    · exact (RowBatcher.push_stops rt _ _).bind_flag (fun _ => ⟨none, rfl, rfl⟩) fun _ => trivial
  split
  · split
    · exact (abortUnsorted_stops rt r w.currentRow 0).bind (fun _ _ => ⟨none, rfl, rfl⟩) trivial
    · exact (RowBatcher.push_stops rt _ _).bind_flag (fun _ => ⟨none, rfl, rfl⟩) fun _ => trivial
  · trivial

theorem turn_stops (w : Walk) (cell : ReadCell) : StopsIn (· = none) (turn rt r w cell) := walkCell_stops rt r _ _

theorem walkCells_stops (w : Walk) (cells : List ReadCell) : StopsIn (· = none) (walkCells rt r w cells) := by
  induction cells generalizing w with
  | nil => trivial
  | cons cell cells ih =>
    apply (turn_stops rt r w cell).bind
    · intro o ho
      rw [ho]
      exact ⟨none, rfl, rfl⟩
    · cases (turn rt r w cell).result with
      | none => trivial
      | some w' => exact ih w'

theorem finish_stops (w : Walk) : Stops (finish rt r w) := by
  have hflush : ∀ b : RowBatcher, Stops (b.flush rt >>= fun _ => (.done () : Stream Pb.RangeEvent Unit)) := by
    intro b
    exact (b.flush_stops rt).stops.bind (fun _ _ => ⟨(), trivial, rfl⟩) trivial
  unfold finish
  split
  · split
    · exact abortUnsorted_stops rt r w.currentRow 0
    · apply (RowBatcher.push_stops rt _ _).bind_flag
      · intro b'
        exact ⟨(), trivial, rfl⟩
      · exact hflush
  · exact hflush _

/-- The body of the incremental range stream. -/
theorem emitIncremental_stops (b : RowBatcher) : Stops (emitIncremental rt r b) := by
  apply (Emit.stopsIn_ask _).bind
  · intro ok hok
    rw [hok]
    exact ⟨(), trivial, rfl⟩
  simp only [Emit.ask, Emit.result_send, Emit.result_done, if_true]
  apply (walkCells_stops rt r _ _).bind
  · intro o ho
    rw [ho]
    exact ⟨(), trivial, rfl⟩
  cases (walkCells rt r (Walk.start r b) r.cells).result with
  | none => trivial
  | some w =>
    simp only []
    cases r.failure with
    | none => exact finish_stops rt r w
    | some e => exact abortWith_stops _ _

end

end GrpcCalamine
