import GrpcCalamine.Service.Flush
import GrpcCalamine.Service.Incremental
/-!
# Where the kept cells are

`Holds ws rows`: the rows account for the writes `ws`, each at its position.
It is kept by the two things the walk does with a kept cell, a row opened with
it (`Holds.add`) and a write into a row (`Holds.write`); `queue_cases` says
which of the two a push is.
-/

namespace GrpcCalamine

open Grid (denseRow)

/-- The kept cells, as writes to the grid. -/
def kept (headerRow : Option Nat) (tuples : List (Nat × Nat × Pb.CellData)) : List (Grid.Write Pb.CellData) :=
  (tuples.filter (keeps headerRow)).map fun t => ⟨t.1, t.2.1, t.2.2⟩

@[simp] theorem kept_nil (headerRow : Option Nat) : kept headerRow [] = [] := rfl

theorem kept_append (headerRow : Option Nat) (ts ts' : List (Nat × Nat × Pb.CellData)) :
    kept headerRow (ts ++ ts') = kept headerRow ts ++ kept headerRow ts' := by
  simp [kept]

/-! ## Merging -/

theorem getElem?_mergeRowValues (into late : List Pb.CellData) (i : Nat) :
    (mergeRowValues into late)[i]? =
      match late[i]? with
      | some v => some (if v.carries then v else into[i]?.getD Convert.emptyCellData)
      | none => into[i]? := by
  induction into, late using mergeRowValues.induct generalizing i with
  | case1 into => simp [mergeRowValues]
  | case2 value late ih =>
    cases i with
    | zero => simp [mergeRowValues]
    | succ i => simpa [mergeRowValues] using ih i
  | case3 slot into value late ih =>
    cases i with
    | zero => simp [mergeRowValues]
    | succ i => simpa [mergeRowValues] using ih i

theorem getElem?_place (values : List Pb.CellData) (c : Nat) (v : Pb.CellData) (i : Nat) :
    (place values c v)[i]? =
      if i = c then some v else if i < c then some (values[i]?.getD Convert.emptyCellData) else values[i]? :=
  Grid.getElem?_put _ _ _ _ _

/-- Merging a row that holds one cell is writing that cell. -/
theorem mergeRowValues_place (values : List Pb.CellData) (c : Nat) (v : Pb.CellData) (hv : v.carries = true) :
    mergeRowValues values (place [] c v) = place values c v := by
  apply List.ext_getElem?
  intro i
  rw [getElem?_mergeRowValues, getElem?_place, getElem?_place]
  by_cases hi : i = c
  · simp [hi, hv]
  · by_cases hlt : i < c
    · have hblank : Convert.emptyCellData.carries = false := rfl
      simp [hi, hlt, hblank]
    · simp [hi, hlt]

/-! ## Rows that account for the writes -/

/-- Every row written to is there, every write has its position filled, and as
long as no index occurs twice each row is its dense reading. -/
structure Holds (ws : List (Grid.Write Pb.CellData)) (rows : List Pb.WorksheetRow) : Prop where
  indices : ∀ i, i ∈ rows.map (·.rowIndex) ↔ i ∈ ws.map (·.row)
  carried : ∀ w ∈ ws, ∃ row ∈ rows, row.rowIndex = w.row ∧ ∃ v, row.values[w.col]? = some v ∧ v.carries = true
  exact : (rows.map (·.rowIndex)).Nodup → ∀ row ∈ rows, row.values = denseRow Convert.emptyCellData ws row.rowIndex

namespace Holds

variable {ws : List (Grid.Write Pb.CellData)} {rows rows' : List Pb.WorksheetRow}

theorem nil : Holds [] [] := ⟨by simp, nofun, nofun⟩

theorem perm (h : Holds ws rows) (hp : rows'.Perm rows) : Holds ws rows' where
  indices i := by rw [(hp.map (·.rowIndex)).mem_iff, h.indices]
  carried w hw := by
    obtain ⟨row, hr, hc⟩ := h.carried w hw
    exact ⟨row, hp.symm.subset hr, hc⟩
  exact hn row hr := h.exact ((hp.map (·.rowIndex)).nodup_iff.1 hn) row (hp.subset hr)

/-- A write that opens a row of its own. -/
theorem add (h : Holds ws rows) (w : Grid.Write Pb.CellData) (hv : w.val.carries = true) :
    Holds (ws ++ [w]) (⟨w.row, place [] w.col w.val⟩ :: rows) where
  indices i := by
    simp only [List.map_cons, List.mem_cons, List.map_append, List.mem_append, List.map_nil, List.not_mem_nil,
      or_false, h.indices i]
    exact or_comm
  carried x hx := by
    rcases List.mem_append.1 hx with hx | hx
    · obtain ⟨row, hr, hc⟩ := h.carried x hx
      exact ⟨row, List.mem_cons_of_mem _ hr, hc⟩
    · rw [List.mem_singleton.1 hx]
      exact ⟨_, List.mem_cons_self, rfl, w.val, by simp [getElem?_place], hv⟩
  exact hn row hr := by
    simp only [List.map_cons, List.nodup_cons] at hn
    rcases List.mem_cons.1 hr with rfl | hr
    · have hnew : w.row ∉ ws.map (·.row) := by
        intro hm
        exact hn.1 ((h.indices _).2 hm)
      show place [] w.col w.val = denseRow _ (ws ++ [w]) w.row
      rw [Grid.denseRow_concat, Grid.denseRow_of_not_mem _ _ hnew]
      rfl
    · have hne : w.row ≠ row.rowIndex := fun he => hn.1 (he ▸ List.mem_map_of_mem hr)
      rw [h.exact hn.2 row hr, Grid.denseRow_concat_ne _ _ _ hne]

/-- A write into a row that is there. -/
theorem write {row : Pb.WorksheetRow} (h : Holds ws (row :: rows)) (w : Grid.Write Pb.CellData)
    (hi : row.rowIndex = w.row) (hv : w.val.carries = true) :
    Holds (ws ++ [w]) ({ row with values := place row.values w.col w.val } :: rows) where
  indices i := by
    have hmem : w.row ∈ ws.map (·.row) := (h.indices _).1 (hi ▸ List.mem_cons_self)
    have := h.indices i
    simp only [List.map_cons, List.mem_cons, List.map_append, List.mem_append, List.map_nil, List.not_mem_nil,
      or_false] at this ⊢
    rw [this]
    constructor
    · exact .inl
    · rintro (hm | rfl)
      · exact hm
      · exact hmem
  carried x hx := by
    rcases List.mem_append.1 hx with hx | hx
    · obtain ⟨old, hr, he, v, hg, hc⟩ := h.carried x hx
      rcases List.mem_cons.1 hr with rfl | hr
      · refine ⟨_, List.mem_cons_self, he, ?_⟩
        by_cases hcol : x.col = w.col
        · exact ⟨w.val, by simp [getElem?_place, hcol], hv⟩
        · exact ⟨v, by simp [getElem?_place, hcol, hg], hc⟩
      · exact ⟨old, List.mem_cons_of_mem _ hr, he, v, hg, hc⟩
    · rw [List.mem_singleton.1 hx]
      exact ⟨_, List.mem_cons_self, hi, w.val, by simp [getElem?_place], hv⟩
  exact hn x hx := by
    have hn' : ((row :: rows).map (·.rowIndex)).Nodup := hn
    rcases List.mem_cons.1 hx with rfl | hx
    · show place row.values w.col w.val = denseRow _ (ws ++ [w]) row.rowIndex
      rw [h.exact hn' row List.mem_cons_self, hi, Grid.denseRow_concat]
      rfl
    · have hne : w.row ≠ x.rowIndex := by
        rw [← hi]
        intro he
        exact (List.nodup_cons.1 hn').1 (List.mem_map.2 ⟨x, hx, he.symm⟩)
      rw [h.exact hn' x (List.mem_cons_of_mem _ hx), Grid.denseRow_concat_ne _ _ _ hne]

end Holds

/-! ## The queue -/

namespace RowBatcher

/-- The index is queued, and yet past the row queued last: `push` then takes
its ascending path without looking for the row it should merge into. -/
def Requeues (rows : List Pb.WorksheetRow) (i : Nat) : Prop :=
  i ∈ rows.map (·.rowIndex) ∧ ∃ last ∈ rows.getLast?, last.rowIndex < i

theorem mergeQueued_of_not_mem {rows : List Pb.WorksheetRow} {row : Pb.WorksheetRow}
    (h : row.rowIndex ∉ rows.map (·.rowIndex)) : mergeQueued rows row = rows ++ [row] := by
  induction rows with
  | nil => rfl
  | cons existing rows ih =>
    simp only [List.map_cons, List.mem_cons, not_or] at h
    rw [mergeQueued, if_neg (Ne.symm h.1), ih h.2]
    rfl

theorem mergeQueued_of_mem {rows : List Pb.WorksheetRow} {row : Pb.WorksheetRow}
    (h : row.rowIndex ∈ rows.map (·.rowIndex)) :
    ∃ pre existing post, rows = pre ++ existing :: post ∧ existing.rowIndex = row.rowIndex ∧
      mergeQueued rows row = pre ++ { existing with values := mergeRowValues existing.values row.values } :: post := by
  induction rows with
  | nil => exact absurd h List.not_mem_nil
  | cons existing rows ih =>
    by_cases he : existing.rowIndex = row.rowIndex
    · exact ⟨[], existing, rows, rfl, he, by rw [mergeQueued, if_pos he]; rfl⟩
    · have hm : row.rowIndex ∈ rows.map (·.rowIndex) := by
        rcases List.mem_cons.1 h with h | h
        · exact absurd h.symm he
        · exact h
      obtain ⟨pre, found, post, hr, hf, hq⟩ := ih hm
      exact ⟨existing :: pre, found, post, by rw [hr]; rfl, hf, by rw [mergeQueued, if_neg he, hq]; rfl⟩

/-- A push adds its row to the queue or merges it into the queued row of the
same index. It does the first to an index already queued exactly when it
requeues it. -/
theorem queue_cases (rows : List Pb.WorksheetRow) (row : Pb.WorksheetRow) :
    (queue rows row = rows ++ [row] ∧
        (row.rowIndex ∉ rows.map (·.rowIndex) ∨ Requeues rows row.rowIndex)) ∨
      (¬ Requeues rows row.rowIndex ∧
        ∃ pre existing post, rows = pre ++ existing :: post ∧ existing.rowIndex = row.rowIndex ∧
          queue rows row =
            pre ++ { existing with values := mergeRowValues existing.values row.values } :: post) := by
  unfold queue
  by_cases hm : row.rowIndex ∈ rows.map (·.rowIndex)
  · obtain ⟨last, hl⟩ : ∃ last, rows.getLast? = some last :=
      ⟨_, List.getLast?_eq_some_getLast fun h => by simp [h] at hm⟩
    simp only [hl, Option.all_some, decide_eq_true_eq, Requeues, hm, true_and, Option.mem_def, Option.some.injEq,
      exists_eq_left', gt_iff_lt]
    by_cases hlt : last.rowIndex < row.rowIndex
    · exact .inl ⟨if_pos hlt, .inr hlt⟩
    · rw [if_neg hlt]
      exact .inr ⟨hlt, mergeQueued_of_mem hm⟩
  · refine .inl ⟨?_, .inl hm⟩
    split
    · rfl
    · exact mergeQueued_of_not_mem hm

theorem mem_queue_index (rows : List Pb.WorksheetRow) (row : Pb.WorksheetRow) (i : Nat) :
    i ∈ (queue rows row).map (·.rowIndex) ↔ i ∈ rows.map (·.rowIndex) ∨ i = row.rowIndex := by
  rcases queue_cases rows row with ⟨hq, -⟩ | ⟨-, pre, existing, post, rfl, he, hq⟩
  · simp [hq]
  · rw [hq]
    simp only [List.map_append, List.map_cons, List.mem_append, List.mem_cons, he]
    tauto

/-- An index in the queue was there before, or is the new row's. -/
theorem queue_index_cases {rows : List Pb.WorksheetRow} {row q : Pb.WorksheetRow} (hq : q ∈ queue rows row) :
    (∃ p ∈ rows, p.rowIndex = q.rowIndex) ∨ q.rowIndex = row.rowIndex := by
  rcases (mem_queue_index rows row q.rowIndex).1 (List.mem_map_of_mem hq) with hold | hnew
  · exact .inl (List.mem_map.1 hold)
  · exact .inr hnew

/-- Requeueing is what makes an index occur twice. -/
theorem nodup_queue (rows others : List Pb.WorksheetRow) (row : Pb.WorksheetRow)
    (hnew : row.rowIndex ∉ others.map (·.rowIndex)) :
    ((others ++ queue rows row).map (·.rowIndex)).Nodup ↔
      ((others ++ rows).map (·.rowIndex)).Nodup ∧ ¬ Requeues rows row.rowIndex := by
  rcases queue_cases rows row with ⟨hq, hr⟩ | ⟨hr, pre, existing, post, rfl, he, hq⟩
  · have hmem : row.rowIndex ∉ (others ++ rows).map (·.rowIndex) ↔ ¬ Requeues rows row.rowIndex := by
      simp only [List.map_append, List.mem_append, not_or, hnew, not_false_eq_true, true_and]
      constructor
      · intro hn hc
        exact hn hc.1
      · intro hn
        exact hr.resolve_right hn
    rw [hq, ← hmem, ← List.append_assoc, List.map_append, List.nodup_append']
    simp
  · rw [hq]
    simp [hr]

end RowBatcher

/-- What a push of a single kept cell does to the contents. -/
theorem Holds.queue {ws : List (Grid.Write Pb.CellData)} {others rows : List Pb.WorksheetRow}
    (h : Holds ws (others ++ rows)) (w : Grid.Write Pb.CellData) (hv : w.val.carries = true) :
    Holds (ws ++ [w]) (others ++ RowBatcher.queue rows ⟨w.row, place [] w.col w.val⟩) := by
  rcases RowBatcher.queue_cases rows ⟨w.row, place [] w.col w.val⟩ with ⟨hq, -⟩ | ⟨-, pre, existing, post, rfl, he, hq⟩
  · rw [hq]
    refine (h.add w hv).perm ?_
    rw [← List.append_assoc]
    exact List.perm_append_singleton _ _
  · rw [hq, mergeRowValues_place _ _ _ hv]
    have hp : ∀ x, (others ++ (pre ++ x :: post)).Perm (x :: (others ++ pre ++ post)) := by
      intro x
      rw [← List.append_assoc]
      exact List.perm_middle
    exact ((h.perm (hp existing).symm).write w he hv).perm (hp _)

end GrpcCalamine
