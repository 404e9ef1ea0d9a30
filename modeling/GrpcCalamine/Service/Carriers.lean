import GrpcCalamine.Service.Pushes
/-!
# The carrier does not change the outcome

`max_rows_per_message = 1` queues as deep as the default does and sends each
row as an event of its own. Two batchers that differ in `single` alone stay so
(`Alike`, from one send to the whole stream), flush at the same pushes, and
send the same once batches are taken apart.
-/

namespace GrpcCalamine

open Emit (Alike)

/-- An item with a batch taken apart into its rows. -/
def unbatch : Item Pb.RangeEvent → List (Item Pb.RangeEvent)
  | .event (.rows rows) => rows.map fun row => .event (.row row)
  | i => [i]

/-- A flag and a batcher, the batcher changed. -/
def onBatcher (f : RowBatcher → RowBatcher) (x : Bool × RowBatcher) : Bool × RowBatcher := (x.1, f x.2)

namespace RowBatcher

/-- The batcher with this carrier. -/
def carrying (b : RowBatcher) (single : Bool) : RowBatcher := { b with single }

variable (rt : Runtime) (b : RowBatcher) (s : Bool)

theorem sendNewStrings_alike :
    Alike unbatch (onBatcher (·.carrying s)) b.sendNewStrings (b.carrying s).sendNewStrings := by
  unfold sendNewStrings
  cases hs : b.strings with
  | none =>
    have hs' : (b.carrying s).strings = none := hs
    rw [hs']
    exact .done _
  | some t =>
    have hs' : (b.carrying s).strings = some t := hs
    rw [hs']
    apply (Alike.refl unbatch (t.sendChunks t.pending.length)).bind
    intro x
    exact .done (x.1, { b with strings := some x.2 })

theorem sendRows_alike (run : List Pb.WorksheetRow) :
    Alike unbatch id (sendEvent (.rows run)) (sendRows run) := by
  obtain ⟨hr, he⟩ := sendRows_spec run
  refine ⟨?_, hr⟩
  rw [he, List.flatMap_map]
  show unbatch (.event (.rows run)) ++ [] = run.flatMap fun row => [Item.event (.row row)]
  rw [List.append_nil, unbatch, List.map_eq_flatMap]

/-- A run row by row, or as one batch. -/
theorem sendCarrier_alike (run : List Pb.WorksheetRow) :
    Alike unbatch id (b.sendCarrier run) ((b.carrying s).sendCarrier run) := by
  have hview := (sendRows_alike run).events
  have hresult := (sendRows_alike run).result
  unfold sendCarrier
  cases b.single <;> cases hs : (b.carrying s).single
  · exact .refl _ _
  · exact sendRows_alike run
  · exact ⟨hview.symm, hresult.symm⟩
  · exact .refl _ _

theorem sendRun_alike (run : List Pb.WorksheetRow) :
    Alike unbatch (onBatcher (·.carrying s)) (b.sendRun run) ((b.carrying s).sendRun run) := by
  unfold sendRun
  split
  · next first last _ _ =>
    apply (Alike.refl unbatch (b.sendGap first.rowIndex)).bind
    intro ok
    cases ok with
    | false => exact .done (false, b)
    | true =>
      apply (sendCarrier_alike
        { b with nextExpected := some ((last.rowIndex + 1) % 2 ^ 32), highestSent := some last.rowIndex } s run).bind
      intro ok
      exact .done _
  · exact .done (true, b)

theorem sendRuns_alike (queued run : List Pb.WorksheetRow) :
    Alike unbatch (onBatcher (·.carrying s)) (b.sendRuns queued run) ((b.carrying s).sendRuns queued run) := by
  induction queued generalizing b run with
  | nil => exact b.sendRun_alike s run
  | cons row queued ih =>
    simp only [sendRuns]
    split
    · apply (b.sendRun_alike s run).bind
      rintro ⟨ok, b'⟩
      cases ok with
      | false => exact .done (false, b')
      | true => exact ih b' [row]
    · exact ih b (run ++ [row])

theorem flush_alike : Alike unbatch (onBatcher (·.carrying s)) (b.flush rt) ((b.carrying s).flush rt) := by
  have hrows : (b.carrying s).rows = b.rows := rfl
  unfold flush
  rw [hrows]
  split
  · exact .done (true, b)
  · apply (sendNewStrings_alike { b with openedAt := none, pendingBytes := 0 } s).bind
    rintro ⟨ok, b'⟩
    cases ok with
    | false => exact .done (false, b')
    | true => exact sendRuns_alike { b' with rows := [] } s (rt.sort b'.rows) []

theorem enqueue_carrying (row : Pb.WorksheetRow) :
    (b.carrying s).enqueue rt row = (b.enqueue rt row).carrying s := by
  obtain ⟨rows, _, _, _, _, _, _, _, _, _, _, _⟩ := b
  cases rows with
  | nil => rfl
  | cons first rows =>
    simp only [enqueue, carrying, List.isEmpty_cons, Bool.false_eq_true, if_false]
    split <;> rfl

theorem flushDue_carrying : (b.carrying s).flushDue rt = onBatcher (·.carrying s) (b.flushDue rt) := by
  unfold flushDue
  show (if b.rows.length ≥ b.cap ∨ b.pendingBytes ≥ MAX_BATCH_BYTES then _
    else if b.rows.length < LINGER_CHECK_EVERY ∨ b.rows.length % LINGER_CHECK_EVERY = 0 then _ else _) = _
  by_cases hcaps : b.rows.length ≥ b.cap ∨ b.pendingBytes ≥ MAX_BATCH_BYTES
  · rw [if_pos hcaps, if_pos hcaps]
    rfl
  rw [if_neg hcaps, if_neg hcaps]
  by_cases hread : b.rows.length < LINGER_CHECK_EVERY ∨ b.rows.length % LINGER_CHECK_EVERY = 0
  · rw [if_pos hread, if_pos hread]
    have hopened : (b.carrying s).openedAt = b.openedAt := rfl
    simp only [hopened]
    cases b.openedAt <;> rfl
  · rw [if_neg hread, if_neg hread]
    rfl

/-- The carrier has no say in when a batch closes. -/
theorem flushes_carrying (row : Pb.WorksheetRow) : (b.carrying s).flushes rt row = b.flushes rt row := by
  rw [flushes, enqueue_carrying, flushDue_carrying]
  rfl

theorem push_alike (row : Pb.WorksheetRow) :
    Alike unbatch (onBatcher (·.carrying s)) (b.push rt row) ((b.carrying s).push rt row) := by
  simp only [push, enqueue_carrying, flushDue_carrying, onBatcher]
  split
  · exact flush_alike rt _ s
  · exact .done (true, _)

end RowBatcher

/-! ## The walk -/

/-- The walk with this carrier. -/
def Walk.carrying (w : Walk) (s : Bool) : Walk := { w with batcher := w.batcher.carrying s }

section walk
variable (rt : Runtime) (r : IncrementalRead) (w : Walk) (s : Bool)

theorem walkCell_alike (cell : Nat × Nat × Pb.CellData) :
    Alike unbatch (Option.map (Walk.carrying · s)) (walkCell rt r w cell) (walkCell rt r (w.carrying s) cell) := by
  obtain ⟨row, idx, value⟩ := cell
  -- a push, and what the walk goes on with
  have hpush : ∀ (x : Pb.WorksheetRow) (go go' : RowBatcher → Walk), (∀ b, go' (b.carrying s) = (go b).carrying s) →
      Alike unbatch (Option.map (Walk.carrying · s))
        (w.batcher.push rt x >>= fun ok => .done (if ok.1 then some (go ok.2) else none))
        ((w.batcher.carrying s).push rt x >>= fun ok => .done (if ok.1 then some (go' ok.2) else none)) := by
    intro x go go' hgo
    apply (w.batcher.push_alike rt s x).bind
    rintro ⟨ok, b⟩
    cases ok with
    | false => exact .done none
    | true =>
      rw [onBatcher, if_pos rfl, if_pos rfl, hgo]
      exact .done (some (go b))
  have habort : ∀ row col, Alike unbatch (Option.map (Walk.carrying · s))
      (abortUnsorted rt.fmt r.kind r.header.sheetName row col >>= fun _ => .done none)
      (abortUnsorted rt.fmt r.kind r.header.sheetName row col >>= fun _ => .done none) := by
    intro row col
    exact (Alike.refl unbatch _).bind fun _ => .done none
  simp only [walkCell]
  show Alike unbatch _ _ (if _ then _ else if w.isOpen = true ∧ row < w.currentRow then
    if (!w.batcher.accepts row) = true then _ else _ else if w.isOpen = true ∧ row ≠ w.currentRow then
    if (!w.batcher.accepts w.currentRow) = true then _ else _ else _)
  split
  · exact .done (some w)
  split
  · split
    · exact habort row idx
    · exact hpush _ (fun b => { w with batcher := b }) (fun b => { w with batcher := b }) fun _ => rfl
  split
  · split
    · exact habort w.currentRow 0
    · exact hpush _ (fun b => ⟨b, row, true, place [] idx value⟩) (fun b => ⟨b, row, true, place [] idx value⟩) fun _ => rfl
  · exact .done (some _)

theorem walkCells_alike (cells : List ReadCell) :
    Alike unbatch (Option.map (Walk.carrying · s)) (walkCells rt r w cells) (walkCells rt r (w.carrying s) cells) := by
  induction cells generalizing w with
  | nil => exact .done (some w)
  | cons c cells ih =>
    apply (walkCell_alike rt r (w.interned r c) s (w.tuple r c)).bind
    intro o
    cases o with
    | none => exact .done none
    | some w' => exact ih w'

theorem finish_alike : Alike unbatch id (finish rt r w) (finish rt r (w.carrying s)) := by
  have hflush : ∀ b : RowBatcher, Alike unbatch id (b.flush rt >>= fun _ => (.done () : Stream Pb.RangeEvent Unit))
      ((b.carrying s).flush rt >>= fun _ => .done ()) := by
    intro b
    exact (b.flush_alike rt s).bind fun _ => .done ()
  unfold finish
  show Alike unbatch _ _ (if w.isOpen = true then if (!w.batcher.accepts w.currentRow) = true then _ else _ else _)
  split
  · split
    · exact .refl _ _
    · apply (w.batcher.push_alike rt s _).bind
      rintro ⟨ok, b⟩
      cases ok with
      | false => exact .done ()
      | true => exact hflush b
  · exact hflush w.batcher

/-- The pushes are the same, on batchers that differ in their carrier. -/
theorem pushesFrom_carrying (cells : List ReadCell) :
    pushesFrom rt r (w.carrying s) cells = (pushesFrom rt r w cells).map fun p => (p.1.carrying s, p.2) := by
  induction cells generalizing w with
  | nil => rfl
  | cons c cells ih =>
    have hturn := (walkCell_alike rt r (w.interned r c) s (w.tuple r c)).result
    have hpushed : ((w.carrying s).interned r c).pushed r ((w.carrying s).tuple r c) =
        (w.interned r c).pushed r (w.tuple r c) := rfl
    simp only [pushesFrom, hpushed, List.map_append]
    congr 1
    · cases (w.interned r c).pushed r (w.tuple r c) <;> rfl
    · have hturn' : (turn rt r (w.carrying s) c).result = (turn rt r w c).result.map (·.carrying s) := hturn
      rw [hturn']
      cases (turn rt r w c).result with
      | none => rfl
      | some w' => exact ih w'

theorem lastPush_carrying : (w.carrying s).lastPush = w.lastPush.map fun p => (p.1.carrying s, p.2) := by
  unfold Walk.lastPush
  show (if w.isOpen = true ∧ w.batcher.accepts w.currentRow = true then _ else _) = _
  split <;> rfl

end walk

/-! ## The stream -/

section stream
variable (rt : Runtime) (r : IncrementalRead) (strings : Option StringTable) (tables : List Pb.DeclaredTable)
  (formats : List Pb.NumberFormat)

/-- Which pushes of a run flush, in order. -/
def flushesOf (maxRows : Nat) : List Bool :=
  (pushesOf rt r maxRows strings tables formats).map fun p => p.1.flushes rt p.2

/-- Two runs flush at the same pushes, get through the same cells, and send the
same events, each batch replaced by its rows. -/
structure SameOutcome (maxRows maxRows' : Nat) : Prop where
  flushes : flushesOf rt r strings tables formats maxRows' = flushesOf rt r strings tables formats maxRows
  stops : ∀ pre, pre <+: r.cells →
    ((walkCells rt r (startWalk r maxRows' strings tables formats) pre).result = none ↔
      (walkCells rt r (startWalk r maxRows strings tables formats) pre).result = none)
  events : (rangeEvents rt r maxRows' strings tables formats).flatMap unbatch =
    (rangeEvents rt r maxRows strings tables formats).flatMap unbatch

theorem startWalk_carrying {maxRows maxRows' : Nat}
    (hcap : (RowBatcher.new maxRows' strings).cap = (RowBatcher.new maxRows strings).cap) :
    startWalk r maxRows' strings tables formats =
      (startWalk r maxRows strings tables formats).carrying (RowBatcher.new maxRows' strings).single := by
  have hbatcher : rangeBatcher maxRows' strings tables formats =
      (rangeBatcher maxRows strings tables formats).carrying (RowBatcher.new maxRows' strings).single := by
    simp only [rangeBatcher, RowBatcher.carrying, RowBatcher.new] at hcap ⊢
    rw [hcap]
  unfold startWalk Walk.start
  rw [hbatcher]
  cases r.headerRow <;> rfl

theorem sameOutcome_of_cap {maxRows maxRows' : Nat}
    (hcap : (RowBatcher.new maxRows' strings).cap = (RowBatcher.new maxRows strings).cap) :
    SameOutcome rt r strings tables formats maxRows maxRows' := by
  have hstart := startWalk_carrying r strings tables formats hcap
  have hwalk := walkCells_alike rt r (startWalk r maxRows strings tables formats)
    (RowBatcher.new maxRows' strings).single
  constructor
  · simp only [flushesOf, pushesOf, hstart, pushesFrom_carrying, (hwalk r.cells).result, List.map_append,
      List.map_map]
    congr 1
    · apply List.map_congr_left
      intro p _
      exact p.1.flushes_carrying rt _ p.2
    · cases (walkCells rt r (startWalk r maxRows strings tables formats) r.cells).result with
      | none => rfl
      | some w =>
        simp only [Option.map_some]
        split
        · rw [lastPush_carrying, List.map_map]
          apply List.map_congr_left
          intro p _
          exact p.1.flushes_carrying rt _ p.2
        · rfl
  · intro pre _
    rw [hstart, (hwalk pre).result, Option.map_eq_none_iff]
  · rw [rangeEvents_eq, rangeEvents_eq, hstart, List.flatMap_cons, List.flatMap_cons, List.flatMap_append,
      List.flatMap_append, (hwalk r.cells).events, (hwalk r.cells).result]
    congr 2
    cases (walkCells rt r (startWalk r maxRows strings tables formats) r.cells).result with
    | none => rfl
    | some w =>
      simp only [Option.map_some]
      cases r.failure with
      | some e => rfl
      | none => exact (finish_alike rt r w _).events.symm

/-- The carrier asked for never changes the outcome: one row to a message, the
default, and the default by its number. -/
theorem carrier_never_changes_outcome :
    SameOutcome rt r strings tables formats 0 1 ∧ SameOutcome rt r strings tables formats 0 256 :=
  ⟨sameOutcome_of_cap rt r strings tables formats rfl, sameOutcome_of_cap rt r strings tables formats rfl⟩

end stream

end GrpcCalamine
