import GrpcCalamine.Service.Dictionary
import GrpcCalamine.Service.RangeStream
/-!
# Without a string table

A stream that was not asked for a string table sends no chunk of one and no id:
every cell of it is spelled out, whatever the answers to its sends. What a cell
of the reader becomes has no id (`nextCell_plain`), filling and merging add
none, and a batcher without a table sends the rows it is given.
-/

namespace GrpcCalamine

open RowBatcher (MovesOn RunItem)

/-- The cell is spelled out: its value is no id. -/
def Pb.CellData.Plain (v : Pb.CellData) : Prop := ∀ id, v.value ≠ some (.sharedStringId id)

def Pb.WorksheetRow.Plain (row : Pb.WorksheetRow) : Prop := ∀ v ∈ row.values, v.Plain

/-- An item of a stream without a string table. -/
def PlainItem : Item Pb.RangeEvent → Prop
  | .event (.stringTable _) => False
  | .event (.row row) => row.Plain
  | .event (.rows rows) => ∀ row ∈ rows, row.Plain
  | _ => True

theorem sendEvent_plain {e : Pb.RangeEvent} (h : PlainItem (.event e)) :
    (sendEvent e).Ensures PlainItem fun _ => True := Emit.ensures_ask h

theorem abortWith_plain (kind : Pb.CalamineErrorKind) (err : String) :
    (abortWith kind err : Stream Pb.RangeEvent Unit).Ensures PlainItem fun _ => True := by
  have herror : ∀ e, PlainItem (.event (.error e)) := fun _ => trivial
  exact (sendEvent_plain (herror _)).bind fun _ _ => trivial

/-! ## Cells and rows -/

theorem plain_empty : Convert.emptyCellData.Plain := fun _ => nofun

theorem nextCell_plain (is1904 : Bool) (c : ReadCell) : (nextCell is1904 none c).1.2.2.Plain := by
  intro id
  cases hv : c.value <;> simp [nextCell, cellValue, hv, Convert.cellData, Convert.dataRefValue]

theorem place_plain {values : List Pb.CellData} (h : ∀ v ∈ values, v.Plain) (c : Nat) {v : Pb.CellData} (hv : v.Plain) :
    ∀ x ∈ place values c v, x.Plain := by
  intro x hx
  obtain ⟨i, hi⟩ := List.mem_iff_getElem?.1 hx
  rw [getElem?_place] at hi
  split at hi
  · cases hi
    exact hv
  · split at hi
    · cases hg : values[i]? with
      | none =>
        rw [hg] at hi
        cases hi
        exact plain_empty
      | some y =>
        rw [hg] at hi
        cases hi
        exact h _ (List.mem_of_getElem? hg)
    · exact h x (List.mem_of_getElem? hi)

theorem mergeRowValues_plain {into late : List Pb.CellData} (hi : ∀ v ∈ into, v.Plain) (hl : ∀ v ∈ late, v.Plain) :
    ∀ x ∈ mergeRowValues into late, x.Plain := by
  intro x hx
  obtain ⟨i, hx⟩ := List.mem_iff_getElem?.1 hx
  rw [getElem?_mergeRowValues] at hx
  split at hx
  · next v hv =>
    cases hx
    split
    · exact hl v (List.mem_of_getElem? hv)
    · cases hg : into[i]? with
      | none => exact plain_empty
      | some y => exact hi y (List.mem_of_getElem? hg)
  · exact hi x (List.mem_of_getElem? hx)

theorem queue_plain {rows : List Pb.WorksheetRow} {row : Pb.WorksheetRow} (hrows : ∀ x ∈ rows, x.Plain) (hrow : row.Plain) :
    ∀ x ∈ RowBatcher.queue rows row, x.Plain := by
  rcases RowBatcher.queue_cases rows row with ⟨hq, -⟩ | ⟨-, pre, old, post, rfl, -, hq⟩
  · rw [hq]
    intro x hx
    rcases List.mem_append.1 hx with hx | hx
    · exact hrows x hx
    · rwa [List.mem_singleton.1 hx]
  · rw [hq]
    intro x hx
    rcases List.mem_append.1 hx with hx | hx
    · exact hrows x (List.mem_append_left _ hx)
    · rcases List.mem_cons.1 hx with rfl | hx
      · exact mergeRowValues_plain (hrows old (by simp)) hrow
      · exact hrows x (by simp [hx])

/-! ## The batcher -/

/-- A batcher without a table, its queue spelled out. -/
structure RowBatcher.Plain (b : RowBatcher) : Prop where
  strings : b.strings = none
  rows : ∀ row ∈ b.rows, row.Plain

theorem RunItem.plainItem {single : Bool} {sorted : List Pb.WorksheetRow} (h : ∀ row ∈ sorted, row.Plain)
    {i : Item Pb.RangeEvent} (hi : RunItem single sorted i) : PlainItem i := by
  cases hi with
  | gap _ _ => trivial
  | row _ hr => exact h _ hr
  | rows _ _ hrun _ => exact fun row hr => h row (hrun.subset hr)

section batcher

variable (rt : Runtime) {b : RowBatcher}

theorem flush_plain (h : b.Plain) : (b.flush rt).Ensures PlainItem fun x => x.2.Plain := by
  unfold RowBatcher.flush
  split
  · exact h
  · have hstrings : ({ b with openedAt := none, pendingBytes := 0 } : RowBatcher).sendNewStrings =
        .done (true, { b with openedAt := none, pendingBytes := 0 }) := by
      simp [RowBatcher.sendNewStrings, h.strings]
    have hsorted : ∀ row ∈ rt.sort b.rows, row.Plain := fun row hr => h.rows row ((rt.sort_perm b.rows).subset hr)
    simp only [hstrings, Emit.done_bind, if_true]
    apply (RowBatcher.sendRuns_runItems _ _).mono
    · intro i hi
      exact RunItem.plainItem hsorted hi
    · intro x hmoves
      refine ⟨hmoves.strings.trans h.strings, ?_⟩
      rw [hmoves.rows]
      exact List.forall_mem_nil _

theorem push_plain (h : b.Plain) {row : Pb.WorksheetRow} (hrow : row.Plain) :
    (b.push rt row).Ensures PlainItem fun x => x.2.Plain := by
  have hq : ∀ o p n, (b.queued row o p n).Plain := fun o p n => ⟨h.strings, queue_plain h.rows hrow⟩
  obtain ⟨o, p, n, ⟨hpush, -⟩ | hpush⟩ := b.push_eq rt row
  · rw [hpush]
    exact hq o p n
  · rw [hpush]
    exact flush_plain rt (hq o p n)

end batcher

/-! ## The walk -/

/-- A walk without a table, what it holds spelled out. -/
structure Walk.Plain (w : Walk) : Prop where
  batcher : w.batcher.Plain
  values : ∀ v ∈ w.values, v.Plain

section walk

variable (rt : Runtime) (r : IncrementalRead) {w : Walk}

theorem abortUnsorted_plain (row col : Nat) :
    (abortUnsorted rt.fmt r.kind r.header.sheetName row col).Ensures PlainItem fun _ => True :=
  abortWith_plain _ _

/-- A push the walk goes on from. -/
theorem push_walkPlain (h : w.batcher.Plain) {i : Nat} {values : List Pb.CellData} (hvalues : ∀ v ∈ values, v.Plain)
    (go : RowBatcher → Walk) (hgo : ∀ b, b.Plain → (go b).Plain) :
    (w.batcher.push rt ⟨i, values⟩ >>= fun ok => .done (if ok.1 then some (go ok.2) else none)).Ensures PlainItem
      fun o => ∀ w' ∈ o, w'.Plain := by
  have hrow : Pb.WorksheetRow.Plain ⟨i, values⟩ := hvalues
  apply (push_plain rt h hrow).bind
  rintro ⟨ok, b⟩ hb
  cases ok with
  | true =>
    intro w' hw'
    cases hw'
    exact hgo b hb
  | false => exact nofun

theorem walkCell_plain (h : w.Plain) (row idx : Nat) {value : Pb.CellData} (hv : value.Plain) :
    (walkCell rt r w (row, idx, value)).Ensures PlainItem fun o => ∀ w' ∈ o, w'.Plain := by
  have hone : ∀ x ∈ place [] idx value, x.Plain := place_plain (List.forall_mem_nil _) idx hv
  have habort : ∀ i j, (abortUnsorted rt.fmt r.kind r.header.sheetName i j >>= fun _ =>
      (.done none : Stream Pb.RangeEvent (Option Walk))).Ensures PlainItem fun o => ∀ w' ∈ o, w'.Plain :=
    fun i j => (abortUnsorted_plain rt r i j).bind fun _ _ => nofun
  by_cases hk : keeps r.headerRow (row, idx, value) = true
  · by_cases hhere : w.isOpen = true → row = w.currentRow
    · rw [walkCell_placed_eq rt r hk hhere]
      intro w' hw'
      cases hw'
      exact ⟨h.batcher, place_plain h.values idx hv⟩
    · obtain ⟨ho, hne⟩ := Classical.not_imp.1 hhere
      rcases Nat.lt_or_gt_of_ne hne with hlt | hgt
      · cases ha : w.batcher.accepts row with
        | false =>
          rw [walkCell_lateRefused_eq rt r hk ho hlt ha]
          exact habort _ _
        | true =>
          rw [walkCell_late_eq rt r hk ho hlt ha]
          exact push_walkPlain rt h.batcher hone (fun b => { w with batcher := b }) fun b hb => ⟨hb, h.values⟩
      · cases ha : w.batcher.accepts w.currentRow with
        | false =>
          rw [walkCell_nextRefused_eq rt r hk ho hgt ha]
          exact habort _ _
        | true =>
          rw [walkCell_next_eq rt r hk ho hgt ha]
          exact push_walkPlain rt h.batcher h.values (fun b => ⟨b, row, true, place [] idx value⟩) fun b hb => ⟨hb, hone⟩
  · rw [walkCell_dropped_eq rt r (Bool.eq_false_iff.2 hk)]
    intro w' hw'
    cases hw'
    exact h

theorem walkCells_plain (h : w.Plain) (cells : List ReadCell) :
    (walkCells rt r w cells).Ensures PlainItem fun o => ∀ w' ∈ o, w'.Plain := by
  induction cells generalizing w with
  | nil =>
    intro w' hw'
    cases hw'
    exact h
  | cons c cells ih =>
    have hturn : (turn rt r w c).Ensures PlainItem fun o => ∀ w' ∈ o, w'.Plain := by
      have hcell := nextCell_plain r.is1904 c
      have htable : (nextCell r.is1904 w.batcher.strings c).2 = none := by
        cases hv : c.value <;> simp [nextCell, cellValue, h.batcher.strings, hv]
      unfold turn
      simp only [h.batcher.strings] at htable ⊢
      rw [htable]
      exact walkCell_plain rt r (w := { w with batcher := { w.batcher with strings := none } })
        ⟨⟨rfl, h.batcher.rows⟩, h.values⟩ _ _ hcell
    refine hturn.bind ?_
    intro o ho
    cases o with
    | none => exact nofun
    | some w' => exact ih (ho w' rfl)

theorem finish_plain (h : w.Plain) : (finish rt r w).Ensures PlainItem fun _ => True := by
  have hflush : ∀ b : RowBatcher, b.Plain →
      (b.flush rt >>= fun _ => (.done () : Stream Pb.RangeEvent Unit)).Ensures PlainItem fun _ => True :=
    fun b hb => (flush_plain rt hb).bind fun _ _ => trivial
  unfold finish
  split
  · split
    · exact abortUnsorted_plain rt r _ _
    · have hrow : Pb.WorksheetRow.Plain ⟨w.currentRow, w.values⟩ := h.values
      apply (push_plain rt h.batcher hrow).bind
      rintro ⟨ok, b⟩ hb
      cases ok with
      | true => exact hflush b hb
      | false => trivial
  · exact hflush w.batcher h.batcher

/-- Without a table, nothing an incremental stream sends needs one. -/
theorem emitIncremental_plain {b : RowBatcher} (h : b.Plain) :
    (emitIncremental rt r b).Ensures PlainItem fun _ => True := by
  have hstart : (Walk.start r b).Plain := by
    unfold Walk.start
    cases r.headerRow <;> exact ⟨⟨h.strings, h.rows⟩, List.forall_mem_nil _⟩
  have hstarted : PlainItem (.event (.started (b.header r.header))) := trivial
  refine (sendEvent_plain hstarted).bind ?_
  intro ok _
  cases ok with
  | false => trivial
  | true =>
    refine (walkCells_plain rt r hstart r.cells).bind ?_
    intro o ho
    cases o with
    | none => trivial
    | some w =>
      cases hf : r.failure with
      | none => exact finish_plain rt r (ho w rfl)
      | some e => exact abortWith_plain _ _

end walk

end GrpcCalamine
