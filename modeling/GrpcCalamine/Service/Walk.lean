import GrpcCalamine.Service.Contents
/-!
# The walk, turn by turn

`Walk.Inv` is what holds at the head of every turn of `emit_incremental`'s
loop: what was sent, what is queued and the row under construction account for
the cells kept so far, in this order of row indices. `turn_spec` says that a
turn keeps it or ends the stream over a cell at or below a row already sent;
`walkCells_inv` carries it over a run.
-/

namespace GrpcCalamine

open RowBatcher (Delivery Sends)

/-! ## What the reader yields -/

/-- The tuples `next_cell` makes of the cells. -/
def yields (is1904 : Bool) : Option StringTable → List ReadCell → List (Nat × Nat × Pb.CellData)
  | _, [] => []
  | table, cell :: cells =>
    (nextCell is1904 table cell).1 :: yields is1904 (nextCell is1904 table cell).2 cells

/-- The table gives out the same id, whatever is still to be sent of it. -/
theorem nextCell_sameIds (is1904 : Bool) {a b : Option StringTable} (h : SameIds a b) (cell : ReadCell) :
    (nextCell is1904 a cell).1 = (nextCell is1904 b cell).1 ∧
      SameIds (nextCell is1904 a cell).2 (nextCell is1904 b cell).2 := by
  unfold SameIds at h ⊢
  cases a with
  | none =>
    cases b with
    | none => exact ⟨rfl, rfl⟩
    | some t => cases h
  | some s =>
    cases b with
    | none => cases h
    | some t =>
      simp only [Option.map_some, Option.some.injEq, Prod.mk.injEq] at h
      unfold nextCell cellValue
      cases cell.value with
      | sharedString str =>
        simp only [StringTable.intern, h.1, h.2]
        cases t.index.lookup str.key <;> simp [h.1, h.2]
      | _ => simp [h.1, h.2]

theorem yields_sameIds (is1904 : Bool) {a b : Option StringTable} (h : SameIds a b) (cells : List ReadCell) :
    yields is1904 a cells = yields is1904 b cells := by
  induction cells generalizing a b with
  | nil => rfl
  | cons cell cells ih =>
    obtain ⟨ht, hn⟩ := nextCell_sameIds is1904 h cell
    simp only [yields, ht, ih hn]

/-- A cell that is kept is one a merge lets win. -/
theorem nextCell_carries (is1904 : Bool) (table : Option StringTable) (cell : ReadCell) {headerRow : Option Nat}
    (h : keeps headerRow (nextCell is1904 table cell).1 = true) :
    (nextCell is1904 table cell).1.2.2.carries = true := by
  have hv : (nextCell is1904 table cell).1.2.2.value ≠ none := nofun
  simp only [keeps, Bool.and_eq_true, Pb.CellData.isBlank, Pb.CellData.carries, Bool.not_eq_true',
    Bool.and_eq_false_iff, decide_eq_false_iff_not] at h ⊢
  rcases h.2 with h | h
  · simp [h, hv]
  · simp [Option.isSome_iff_ne_none.2 h]

/-! ## The invariant -/

/-- The row under construction, if there is one. -/
def Walk.opened (w : Walk) : List Pb.WorksheetRow := if w.isOpen then [⟨w.currentRow, w.values⟩] else []

theorem Walk.opened_of_open {w : Walk} (ho : w.isOpen = true) : w.opened = [⟨w.currentRow, w.values⟩] := if_pos ho

theorem Walk.opened_of_closed {w : Walk} (ho : w.isOpen = false) : w.opened = [] := by
  simp [opened, ho]

structure Walk.Inv (headerRow : Option Nat) (ws : List (Grid.Write Pb.CellData)) (sent : List Pb.WorksheetRow)
    (w : Walk) : Prop where
  delivery : Delivery headerRow sent w.batcher
  unopened : w.isOpen = false → sent = [] ∧ w.batcher.rows = [] ∧ w.values = []
  below : w.isOpen = true → ∀ row ∈ sent ++ w.batcher.rows, row.rowIndex < w.currentRow
  holds : Holds ws (w.opened ++ sent ++ w.batcher.rows)
  bounded : ∀ x ∈ ws, x.row < 2 ^ 32 - 1

/-- No row index occurs twice among what was sent, queued and is under
construction. -/
def Walk.Distinct (sent : List Pb.WorksheetRow) (w : Walk) : Prop :=
  ((w.opened ++ sent ++ w.batcher.rows).map (·.rowIndex)).Nodup

/-- The turn queues a row index a second time. -/
def Walk.Requeues (headerRow : Option Nat) (w : Walk) (t : Nat × Nat × Pb.CellData) : Prop :=
  keeps headerRow t = true ∧ w.isOpen = true ∧ t.1 < w.currentRow ∧ RowBatcher.Requeues w.batcher.rows t.1

/-- The turn reaches for a row at or below one already sent. -/
def TooLate (headerRow : Option Nat) (sent : List Pb.WorksheetRow) (t : Nat × Nat × Pb.CellData) : Prop :=
  keeps headerRow t = true ∧ ∃ row ∈ sent, t.1 ≤ row.rowIndex

namespace Walk.Inv

variable {headerRow : Option Nat} {ws : List (Grid.Write Pb.CellData)} {sent : List Pb.WorksheetRow} {w : Walk}

theorem index_lt (h : Inv headerRow ws sent w) : ∀ row ∈ w.opened ++ sent ++ w.batcher.rows,
    row.rowIndex < 2 ^ 32 - 1 := by
  intro row hr
  obtain ⟨x, hx, he⟩ := List.mem_map.1 ((h.holds.indices row.rowIndex).1 (List.mem_map_of_mem hr))
  exact he ▸ h.bounded x hx

/-- The row under construction can always be delivered. -/
theorem accepts_current (h : Inv headerRow ws sent w) (ho : w.isOpen = true) :
    w.batcher.accepts w.currentRow = true := by
  rw [h.delivery.accepts_iff]
  intro s hs
  exact h.below ho s (List.mem_append_left _ hs)

/-- The string table plays no part. -/
theorem withStrings (h : Inv headerRow ws sent w) (table : Option StringTable) :
    Inv headerRow ws sent { w with batcher := { w.batcher with strings := table } } :=
  ⟨⟨h.delivery.next, h.delivery.highest, h.delivery.ascending, h.delivery.ahead, h.delivery.room⟩, h.unopened,
    h.below, h.holds, h.bounded⟩

end Walk.Inv

/-! ## One turn -/

/-- A turn that goes on: what it sends, and that it keeps the invariant. -/
structure Advances (r : IncrementalRead) (ws : List (Grid.Write Pb.CellData)) (sent : List Pb.WorksheetRow) (w : Walk)
    (t : Nat × Nat × Pb.CellData) (w' : Walk) (new : List Pb.WorksheetRow) (items : List (Item Pb.RangeEvent)) :
    Prop where
  sends : Sends r.headerRow sent new w.batcher w'.batcher items
  ids : SameIds w'.batcher.strings w.batcher.strings
  inv : w'.Inv r.headerRow (ws ++ kept r.headerRow [t]) (sent ++ new)
  distinct : w'.Distinct (sent ++ new) ↔ w.Distinct sent ∧ ¬ w.Requeues r.headerRow t
  inTime : ¬ TooLate r.headerRow sent t

section turns
variable {rt : Runtime} {r : IncrementalRead} {ws : List (Grid.Write Pb.CellData)} {sent : List Pb.WorksheetRow}
  {w : Walk} {row idx : Nat} {value : Pb.CellData}

theorem kept_of_keeps {headerRow : Option Nat} (hk : keeps headerRow (row, idx, value) = true) :
    kept headerRow [(row, idx, value)] = [⟨row, idx, value⟩] := by
  simp [kept, hk]

/-- The writes so far and the one of this turn. -/
theorem bounded_concat (h : w.Inv r.headerRow ws sent) (hrow : row < 2 ^ 32 - 1) :
    ∀ x ∈ ws ++ [(⟨row, idx, value⟩ : Grid.Write Pb.CellData)], x.row < 2 ^ 32 - 1 := by
  intro x hx
  rcases List.mem_append.1 hx with hx | hx
  · exact h.bounded x hx
  · rw [List.mem_singleton.1 hx]
    exact hrow

/-- A cell that is not part of the sheet. -/
theorem walkCell_skip (h : w.Inv r.headerRow ws sent) (hk : keeps r.headerRow (row, idx, value) = false) :
    ∃ w' new, (walkCell rt r w (row, idx, value)).result = some w' ∧
      Advances r ws sent w (row, idx, value) w' new (walkCell rt r w (row, idx, value)).events := by
  rw [walkCell_dropped_eq rt r hk]
  refine ⟨w, [], rfl, .quiet h.delivery rfl rfl, rfl, ?_, ?_, ?_⟩
  · simpa [kept, hk] using h
  · simp [Walk.Requeues, hk]
  · simp [TooLate, hk]

/-- A late row: it is queued, and may flush the queue. -/
theorem walkCell_late (h : w.Inv r.headerRow ws sent) (hk : keeps r.headerRow (row, idx, value) = true)
    (hv : value.carries = true) (hrow : row < 2 ^ 32 - 1) (ho : w.isOpen = true) (hlt : row < w.currentRow)
    (ha : w.batcher.accepts row = true) :
    ∃ w' new, (walkCell rt r w (row, idx, value)).result = some w' ∧
      Advances r ws sent w (row, idx, value) w' new (walkCell rt r w (row, idx, value)).events := by
  have hsent : ∀ s ∈ sent, s.rowIndex < row := (h.delivery.accepts_iff row).1 ha
  have hb : RowsBelow (RowBatcher.queue w.batcher.rows ⟨row, place [] idx value⟩) := by
    intro q hq
    rcases RowBatcher.queue_index_cases hq with ⟨p, hp, he⟩ | he
    · exact he ▸ h.index_lt p (List.mem_append_right _ hp)
    · exact he ▸ hrow
  have hahead : ∀ s ∈ sent, ∀ q ∈ RowBatcher.queue w.batcher.rows ⟨row, place [] idx value⟩,
      s.rowIndex < q.rowIndex := by
    intro s hs q hq
    rcases RowBatcher.queue_index_cases hq with ⟨p, hp, he⟩ | he
    · exact he ▸ h.delivery.ahead s hs p hp
    · exact he ▸ hsent s hs
  obtain ⟨b', new, hr, hp, hids, hs⟩ := RowBatcher.push_sends rt h.delivery _ hb hahead
  have hw := walkCell_late_eq rt r hk ho hlt ha
  have hopened := Walk.opened_of_open ho
  -- a push moves rows from the queue to what is sent, and loses none
  have hperm : (w.opened ++ (sent ++ new) ++ b'.rows).Perm
      (w.opened ++ sent ++ RowBatcher.queue w.batcher.rows ⟨row, place [] idx value⟩) := by
    simp only [List.append_assoc]
    exact (hp.append_left sent).append_left _
  have hnew : row ∉ (w.opened ++ sent).map (·.rowIndex) := by
    simp only [hopened, List.map_append, List.map_cons, List.map_nil, List.mem_append, List.mem_singleton, not_or]
    refine ⟨by omega, ?_⟩
    intro hm
    obtain ⟨s, hs, he⟩ := List.mem_map.1 hm
    have := hsent s hs
    omega
  refine ⟨{ w with batcher := b' }, new, by simp [hw, hr], ?_, hids, ⟨hs.delivery, ?_, ?_, ?_, ?_⟩, ?_, ?_⟩
  · simpa [hw, hr] using hs
  · simp [ho]
  · intro _ x hx
    have hx' : x ∈ sent ++ RowBatcher.queue w.batcher.rows ⟨row, place [] idx value⟩ := by
      rw [List.append_assoc] at hx
      exact (hp.append_left sent).subset hx
    rcases List.mem_append.1 hx' with hx | hx
    · exact h.below ho x (List.mem_append_left _ hx)
    · rcases RowBatcher.queue_index_cases hx with ⟨p, hp, he⟩ | he
      · exact he ▸ h.below ho p (List.mem_append_right _ hp)
      · exact he ▸ hlt
  · rw [kept_of_keeps hk]
    exact (h.holds.queue ⟨row, idx, value⟩ hv).perm hperm
  · rw [kept_of_keeps hk]
    exact bounded_concat h hrow
  · have hreq : w.Requeues r.headerRow (row, idx, value) ↔ RowBatcher.Requeues w.batcher.rows row := by
      simp [Walk.Requeues, hk, ho, hlt]
    rw [hreq]
    exact ((hperm.map _).nodup_iff).trans (RowBatcher.nodup_queue _ _ _ hnew)
  · rintro ⟨-, s, hs, hle⟩
    have := hsent s hs
    omega

/-- The row under construction is past the whole queue, so it is appended. -/
theorem queue_current (h : w.Inv r.headerRow ws sent) (ho : w.isOpen = true) :
    RowBatcher.queue w.batcher.rows ⟨w.currentRow, w.values⟩ = w.batcher.rows ++ [⟨w.currentRow, w.values⟩] := by
  rcases RowBatcher.queue_cases w.batcher.rows ⟨w.currentRow, w.values⟩ with ⟨hq, -⟩ | ⟨-, pre, x, post, hr, he, -⟩
  · exact hq
  · have := h.below ho x (List.mem_append_right _ (by simp [hr]))
    exact absurd he (Nat.ne_of_lt this)

theorem ahead_current (h : w.Inv r.headerRow ws sent) (ho : w.isOpen = true) :
    ∀ s ∈ sent, ∀ q ∈ w.batcher.rows ++ [⟨w.currentRow, w.values⟩], s.rowIndex < q.rowIndex := by
  intro s hs q hq
  rcases List.mem_append.1 hq with hq | hq
  · exact h.delivery.ahead s hs q hq
  · rw [List.mem_singleton.1 hq]
    exact h.below ho s (List.mem_append_left _ hs)

variable (rt) in
/-- Pushing the row under construction. -/
theorem push_current (h : w.Inv r.headerRow ws sent) (ho : w.isOpen = true) :
    ∃ b' new, (w.batcher.push rt ⟨w.currentRow, w.values⟩).result = (true, b') ∧
      (new ++ b'.rows).Perm (w.batcher.rows ++ w.opened) ∧ RowsBelow b'.rows ∧
      SameIds b'.strings w.batcher.strings ∧
      Sends r.headerRow sent new w.batcher b' (w.batcher.push rt ⟨w.currentRow, w.values⟩).events := by
  have hopened := Walk.opened_of_open ho
  have hqueue := queue_current h ho
  have hb : RowsBelow (RowBatcher.queue w.batcher.rows ⟨w.currentRow, w.values⟩) := by
    rw [hqueue]
    intro q hq
    apply h.index_lt q
    simp only [hopened, List.mem_append, List.mem_singleton] at hq ⊢
    tauto
  obtain ⟨b', new, hr, hp, hids, hs⟩ :=
    RowBatcher.push_sends rt h.delivery _ hb (by rw [hqueue]; exact ahead_current h ho)
  refine ⟨b', new, hr, ?_, fun q hq => hb q (hp.subset (List.mem_append_right _ hq)), hids, hs⟩
  rw [hqueue] at hp
  rwa [hopened]

/-- A later row: the row under construction is queued, and the new one opens. -/
theorem walkCell_next (h : w.Inv r.headerRow ws sent) (hk : keeps r.headerRow (row, idx, value) = true)
    (hv : value.carries = true) (hrow : row < 2 ^ 32 - 1) (ho : w.isOpen = true) (hgt : w.currentRow < row) :
    ∃ w' new, (walkCell rt r w (row, idx, value)).result = some w' ∧
      Advances r ws sent w (row, idx, value) w' new (walkCell rt r w (row, idx, value)).events := by
  have ha := h.accepts_current ho
  have hbelow := h.below ho
  have hopened := Walk.opened_of_open ho
  obtain ⟨b', new, hr, hp, -, hids, hs⟩ := push_current rt h ho
  have hw := walkCell_next_eq rt r hk ho hgt ha
  -- the row that was open is now among those queued or sent
  have hperm : ([(⟨row, place [] idx value⟩ : Pb.WorksheetRow)] ++ (sent ++ new) ++ b'.rows).Perm
      (⟨row, place [] idx value⟩ :: (w.opened ++ sent ++ w.batcher.rows)) := by
    rw [List.append_assoc, List.singleton_append, List.append_assoc sent]
    refine .cons _ ((hp.append_left sent).trans ?_)
    rw [← List.append_assoc, hopened]
    exact List.perm_append_singleton _ _
  have hall : ∀ x ∈ w.opened ++ sent ++ w.batcher.rows, x.rowIndex < row := by
    intro x hx
    rw [hopened, List.append_assoc, List.singleton_append] at hx
    rcases List.mem_cons.1 hx with rfl | hx
    · exact hgt
    · exact lt_trans (hbelow x hx) hgt
  refine ⟨⟨b', row, true, place [] idx value⟩, new, by simp [hw, hr], ?_, hids,
    ⟨hs.delivery, nofun, ?_, ?_, ?_⟩, ?_, ?_⟩
  · simpa [hw, hr] using hs
  · intro _ x hx
    rw [List.append_assoc] at hx
    apply hall x
    have hx' := (hp.append_left sent).subset hx
    simp only [List.mem_append, List.mem_singleton, hopened] at hx' ⊢
    tauto
  · rw [kept_of_keeps hk]
    exact (h.holds.add ⟨row, idx, value⟩ hv).perm hperm
  · rw [kept_of_keeps hk]
    exact bounded_concat h hrow
  · have hreq : ¬ w.Requeues r.headerRow (row, idx, value) := by
      intro hq
      have := hq.2.2.1
      omega
    have hnot : row ∉ (w.opened ++ sent ++ w.batcher.rows).map (·.rowIndex) := by
      intro hm
      obtain ⟨x, hx, he⟩ := List.mem_map.1 hm
      have := hall x hx
      omega
    refine ((hperm.map _).nodup_iff).trans ?_
    rw [List.map_cons, List.nodup_cons]
    simp only [hnot, not_false_eq_true, true_and, hreq, and_true]
    rfl
  · rintro ⟨-, s, hs, hle⟩
    have := hbelow s (List.mem_append_left _ hs)
    omega

/-- A cell of the row under construction. -/
theorem walkCell_here (h : w.Inv r.headerRow ws sent) (hk : keeps r.headerRow (row, idx, value) = true)
    (hv : value.carries = true) (hrow : row < 2 ^ 32 - 1) (ho : w.isOpen = true) (he : row = w.currentRow) :
    ∃ w' new, (walkCell rt r w (row, idx, value)).result = some w' ∧
      Advances r ws sent w (row, idx, value) w' new (walkCell rt r w (row, idx, value)).events := by
  subst he
  have hopened := Walk.opened_of_open ho
  have hholds := h.holds
  rw [hopened] at hholds
  rw [walkCell_placed_eq rt r hk fun _ => rfl]
  refine ⟨_, [], rfl, .quiet h.delivery rfl rfl, rfl, ?_, ?_, ?_⟩
  · rw [kept_of_keeps hk, List.append_nil]
    exact ⟨h.delivery, nofun, fun _ => h.below ho, hholds.write ⟨w.currentRow, idx, value⟩ rfl hv,
      bounded_concat h hrow⟩
  · have hreq : ¬ w.Requeues r.headerRow (w.currentRow, idx, value) := fun hq => Nat.lt_irrefl _ hq.2.2.1
    simp [Walk.Distinct, Walk.opened, ho, hreq]
  · rintro ⟨-, s, hs, hle⟩
    have := h.below ho s (List.mem_append_left _ hs)
    omega

/-- The first cell, which opens the walk. -/
theorem walkCell_first (h : w.Inv r.headerRow ws sent) (hk : keeps r.headerRow (row, idx, value) = true)
    (hv : value.carries = true) (hrow : row < 2 ^ 32 - 1) (ho : w.isOpen = false) :
    ∃ w' new, (walkCell rt r w (row, idx, value)).result = some w' ∧
      Advances r ws sent w (row, idx, value) w' new (walkCell rt r w (row, idx, value)).events := by
  obtain ⟨rfl, hrows, hvalues⟩ := h.unopened ho
  have hopened := Walk.opened_of_closed ho
  have hholds := h.holds
  rw [hopened, hrows] at hholds
  rw [walkCell_placed_eq rt r hk (by simp [ho]), hvalues]
  refine ⟨_, [], rfl, .quiet h.delivery rfl rfl, rfl, ?_, ?_, ?_⟩
  · rw [kept_of_keeps hk]
    refine ⟨h.delivery, nofun, by simp [hrows], ?_, bounded_concat h hrow⟩
    simpa [Walk.opened, hrows] using hholds.add ⟨row, idx, value⟩ hv
  · simp [Walk.Distinct, Walk.opened, ho, hrows, Walk.Requeues]
  · rintro ⟨-, s, hs, -⟩
    cases hs

variable (rt) in
/-- A cell at or below a row already sent ends the stream. -/
theorem walkCell_tooLate (h : w.Inv r.headerRow ws sent) (row idx : Nat) (value : Pb.CellData)
    (ht : TooLate r.headerRow sent (row, idx, value)) :
    walkCell rt r w (row, idx, value) =
      (abortUnsorted rt.fmt r.kind r.header.sheetName row idx >>= fun _ => .done none) := by
  obtain ⟨hk, s, hs, hle⟩ := ht
  have ho : w.isOpen = true := by
    by_contra ho
    obtain ⟨rfl, -, -⟩ := h.unopened (by simpa using ho)
    cases hs
  have hlt : row < w.currentRow := lt_of_le_of_lt hle (h.below ho s (List.mem_append_left _ hs))
  have ha : w.batcher.accepts row = false := by
    rw [Bool.eq_false_iff]
    intro ha
    have := (h.delivery.accepts_iff row).1 ha s hs
    simp only [] at hle
    omega
  exact walkCell_lateRefused_eq rt r hk ho hlt ha

variable (rt) in
/-- Every turn in time goes on. -/
theorem walkCell_spec (h : w.Inv r.headerRow ws sent) (row idx : Nat) (value : Pb.CellData) (hrow : row < 2 ^ 32 - 1)
    (hv : keeps r.headerRow (row, idx, value) = true → value.carries = true)
    (ht : ¬ TooLate r.headerRow sent (row, idx, value)) :
    ∃ w' new, (walkCell rt r w (row, idx, value)).result = some w' ∧
      Advances r ws sent w (row, idx, value) w' new (walkCell rt r w (row, idx, value)).events := by
  cases hk : keeps r.headerRow (row, idx, value) with
  | false => exact walkCell_skip h hk
  | true =>
    cases ho : w.isOpen with
    | false => exact walkCell_first h hk (hv hk) hrow ho
    | true =>
      rcases Nat.lt_trichotomy row w.currentRow with hlt | heq | hgt
      · have ha : w.batcher.accepts row = true := by
          rw [h.delivery.accepts_iff]
          intro s hs
          by_contra hle
          exact ht ⟨hk, s, hs, by simpa using hle⟩
        exact walkCell_late h hk (hv hk) hrow ho hlt ha
      · exact walkCell_here h hk (hv hk) hrow ho heq
      · exact walkCell_next h hk (hv hk) hrow ho hgt

end turns

/-! ## A run of turns -/

section runs
variable (rt : Runtime) (r : IncrementalRead)

/-- `w'` is what the walk is at after the cells `pre`, every send taken. -/
def Reaches (w : Walk) (pre : List ReadCell) (w' : Walk) : Prop := (walkCells rt r w pre).result = some w'

variable {rt r} {ws : List (Grid.Write Pb.CellData)} {sent : List Pb.WorksheetRow} {w : Walk}

theorem walkCells_cons_some {c : ReadCell} {w₁ : Walk} (h : (turn rt r w c).result = some w₁) (cells : List ReadCell) :
    (walkCells rt r w (c :: cells)).result = (walkCells rt r w₁ cells).result ∧
      (walkCells rt r w (c :: cells)).events = (turn rt r w c).events ++ (walkCells rt r w₁ cells).events := by
  simp [walkCells, h]

theorem walkCells_cons_none {c : ReadCell} (h : (turn rt r w c).result = none) (cells : List ReadCell) :
    (walkCells rt r w (c :: cells)).result = none ∧
      (walkCells rt r w (c :: cells)).events = (turn rt r w c).events := by
  simp [walkCells, h]

/-- The tuple a turn walks. -/
def Walk.tuple (r : IncrementalRead) (w : Walk) (c : ReadCell) : Nat × Nat × Pb.CellData :=
  (nextCell r.is1904 w.batcher.strings c).1

theorem turn_spec (h : w.Inv r.headerRow ws sent) {c : ReadCell} (hrow : c.row < 2 ^ 32 - 1)
    (ht : ¬ TooLate r.headerRow sent (w.tuple r c)) :
    ∃ w' new, (turn rt r w c).result = some w' ∧
      Sends r.headerRow sent new w.batcher w'.batcher (turn rt r w c).events ∧
      SameIds w'.batcher.strings (nextCell r.is1904 w.batcher.strings c).2 ∧
      w'.Inv r.headerRow (ws ++ kept r.headerRow [w.tuple r c]) (sent ++ new) ∧
      (w'.Distinct (sent ++ new) ↔ w.Distinct sent ∧ ¬ w.Requeues r.headerRow (w.tuple r c)) := by
  obtain ⟨w', new, hr, ha⟩ := walkCell_spec rt (h.withStrings (nextCell r.is1904 w.batcher.strings c).2)
    c.row c.col (w.tuple r c).2.2 hrow (nextCell_carries _ _ _) ht
  exact ⟨w', new, hr, ⟨ha.sends.flat, ha.sends.carried, ha.sends.cap, ha.sends.single, ha.sends.delivery⟩, ha.ids,
    ha.inv, ha.distinct⟩

variable (rt) in
theorem turn_tooLate (h : w.Inv r.headerRow ws sent) {c : ReadCell} (ht : TooLate r.headerRow sent (w.tuple r c)) :
    turn rt r w c = (abortUnsorted rt.fmt r.kind r.header.sheetName c.row c.col >>= fun _ => .done none) :=
  walkCell_tooLate rt (h.withStrings (nextCell r.is1904 w.batcher.strings c).2) c.row c.col (w.tuple r c).2.2 ht

/-- The invariant holds at the head of every turn reached, and no row index
occurs twice there exactly when no turn so far has requeued one. -/
theorem walkCells_inv {cells : List ReadCell} {w' : Walk} (h : w.Inv r.headerRow ws sent)
    (hrows : ∀ c ∈ cells, c.row < 2 ^ 32 - 1) (hr : Reaches rt r w cells w') :
    ∃ new, Sends r.headerRow sent new w.batcher w'.batcher (walkCells rt r w cells).events ∧
      w'.Inv r.headerRow (ws ++ kept r.headerRow (yields r.is1904 w.batcher.strings cells)) (sent ++ new) ∧
      (w'.Distinct (sent ++ new) ↔ w.Distinct sent ∧
        ∀ pre c post w₁, cells = pre ++ c :: post → Reaches rt r w pre w₁ →
          ¬ w₁.Requeues r.headerRow (w₁.tuple r c)) := by
  induction cells generalizing w ws sent with
  | nil =>
    obtain rfl : w = w' := by simpa [Reaches, walkCells] using hr
    exact ⟨[], .quiet h.delivery rfl rfl, by simpa [yields] using h, by simp⟩
  | cons c cells ih =>
    have hc := hrows c List.mem_cons_self
    by_cases ht : TooLate r.headerRow sent (w.tuple r c)
    · have hnone : (turn rt r w c).result = none := by rw [turn_tooLate rt h ht]; simp
      unfold Reaches at hr
      rw [(walkCells_cons_none hnone cells).1] at hr
      cases hr
    · obtain ⟨w₁, new, h₁, hs, hids, hinv, hd⟩ := turn_spec h hc ht
      obtain ⟨hres, hev⟩ := walkCells_cons_some h₁ cells
      obtain ⟨new', hs', hinv', hd'⟩ :=
        ih hinv (fun c' hm => hrows c' (List.mem_cons_of_mem _ hm)) (hres.symm.trans hr)
      rw [yields_sameIds _ hids, List.append_assoc, List.append_assoc, ← kept_append] at hinv'
      refine ⟨new ++ new', by rw [hev]; exact hs.trans hs', hinv', ?_⟩
      rw [← List.append_assoc, hd', hd, and_assoc]
      -- a turn of the run is this one or one of the rest
      apply and_congr_right
      intro _
      constructor
      · rintro ⟨h0, hrest⟩ pre c' post w₂ hsplit hreach
        cases pre with
        | nil =>
          obtain rfl : w = w₂ := by simpa [Reaches, walkCells] using hreach
          obtain ⟨rfl, -⟩ := List.cons.inj hsplit
          exact h0
        | cons d pre =>
          obtain ⟨rfl, htail⟩ := List.cons.inj hsplit
          exact hrest pre c' post w₂ htail ((walkCells_cons_some h₁ pre).1.symm.trans hreach)
      · intro hall
        refine ⟨hall [] c cells w rfl rfl, ?_⟩
        intro pre c' post w₂ hsplit hreach
        exact hall (c :: pre) c' post w₂ (by rw [hsplit]; rfl) ((walkCells_cons_some h₁ pre).1.trans hreach)

/-- A run that does not get through its cells ends at one that comes too
late. -/
theorem walkCells_none {cells : List ReadCell} (h : w.Inv r.headerRow ws sent)
    (hrows : ∀ c ∈ cells, c.row < 2 ^ 32 - 1) (hr : (walkCells rt r w cells).result = none) :
    ∃ pre c post w₁ new, cells = pre ++ c :: post ∧ Reaches rt r w pre w₁ ∧
      Sends r.headerRow sent new w.batcher w₁.batcher (walkCells rt r w pre).events ∧
      TooLate r.headerRow (sent ++ new) (w₁.tuple r c) := by
  induction cells generalizing w ws sent with
  | nil => cases hr
  | cons c cells ih =>
    have hc := hrows c List.mem_cons_self
    by_cases ht : TooLate r.headerRow sent (w.tuple r c)
    · exact ⟨[], c, cells, w, [], rfl, rfl, .quiet h.delivery rfl rfl, by rwa [List.append_nil]⟩
    · obtain ⟨w₁, new, h₁, hs, -, hinv, -⟩ := turn_spec h hc ht
      obtain ⟨hres, -⟩ := walkCells_cons_some h₁ cells
      obtain ⟨pre, c', post, w₂, new', hsplit, hreach, hs', hlate⟩ :=
        ih hinv (fun c' hm => hrows c' (List.mem_cons_of_mem _ hm)) (hres ▸ hr)
      obtain ⟨hres', hev'⟩ := walkCells_cons_some h₁ pre
      refine ⟨c :: pre, c', post, w₂, new ++ new', by rw [hsplit]; rfl, hres'.trans hreach, ?_, ?_⟩
      · rw [hev']
        exact hs.trans hs'
      · rwa [← List.append_assoc]

theorem walkCells_append {pre : List ReadCell} {w₁ : Walk} (h : Reaches rt r w pre w₁) (cells : List ReadCell) :
    (walkCells rt r w (pre ++ cells)).result = (walkCells rt r w₁ cells).result ∧
      (walkCells rt r w (pre ++ cells)).events =
        (walkCells rt r w pre).events ++ (walkCells rt r w₁ cells).events := by
  induction pre generalizing w with
  | nil =>
    obtain rfl : w = w₁ := by simpa [Reaches, walkCells] using h
    exact ⟨rfl, rfl⟩
  | cons c pre ih =>
    cases hc : (turn rt r w c).result with
    | none =>
      unfold Reaches at h
      rw [(walkCells_cons_none hc pre).1] at h
      cases h
    | some w₂ =>
      obtain ⟨hres, hev⟩ := walkCells_cons_some hc (pre ++ cells)
      obtain ⟨hres', hev'⟩ := walkCells_cons_some hc pre
      obtain ⟨ihr, ihe⟩ := ih (hres'.symm.trans h)
      exact ⟨by rw [List.cons_append, hres, ihr], by rw [List.cons_append, hev, ihe, hev', List.append_assoc]⟩

end runs

/-! ## The end of the walk -/

section ends
variable {rt : Runtime} {r : IncrementalRead} {ws : List (Grid.Write Pb.CellData)} {sent : List Pb.WorksheetRow}
  {w : Walk}

variable (rt) in
/-- The final row is queued behind the others, and the queue is sent. -/
theorem finish_spec (h : w.Inv r.headerRow ws sent) :
    ∃ b' new, new.Perm (w.opened ++ w.batcher.rows) ∧
      Sends r.headerRow sent new w.batcher b' (finish rt r w).events := by
  have hlt := h.index_lt
  cases ho : w.isOpen with
  | false =>
    have hopened := Walk.opened_of_closed ho
    obtain ⟨b', new, -, hp, hs⟩ := RowBatcher.flush_rest rt h.delivery
      (fun row hr => hlt row (List.mem_append_right _ hr))
    refine ⟨b', new, by simpa [hopened] using hp, ?_⟩
    simpa [finish, ho] using hs
  | true =>
    obtain ⟨b₁, new, hr, hp, hb, -, hs⟩ := push_current rt h ho
    obtain ⟨b', new', -, hp', hs'⟩ := RowBatcher.flush_rest rt hs.delivery hb
    refine ⟨b', new ++ new', ?_, ?_⟩
    · exact ((hp'.append_left new).trans hp).trans List.perm_append_comm
    · simpa [finish, ho, h.accepts_current ho, hr] using hs.trans hs'

end ends

end GrpcCalamine
