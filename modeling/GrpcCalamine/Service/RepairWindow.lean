import GrpcCalamine.Service.Pushes
/-!
# The repair window

A sheet is repaired whole if nothing of it is sent before its last cell. Where
the bytes and the clock close no batch, that is a matter of row indices alone:
`Window` follows the queue by them, and the queue is as long as the rows that
are populated and the rows that were requeued (`Window.Of`). A row that is requeued
takes a second place.
-/

namespace GrpcCalamine

open Grid (rowsIn)

/-! ## Row indices -/

/-- A walk by its row indices: those queued, in order of entry, and the one
under construction. -/
structure Window where
  queued : List Nat
  current : Option Nat

/-- Queue a row index: behind the others if it is past the last of them or not
among them. -/
def enter (queued : List Nat) (row : Nat) : List Nat :=
  if queued.getLast?.all (row > ·) ∨ row ∉ queued then queued ++ [row] else queued

namespace Window

/-- A cell arrives in a row. -/
def take (s : Window) (row : Nat) : Window :=
  match s.current with
  | none => { s with current := some row }
  | some current =>
    if row < current then { s with queued := enter s.queued row }
    else if current < row then ⟨enter s.queued current, some row⟩
    else s

/-- A late row that is queued already, and is queued again. -/
def Requeues (s : Window) (row : Nat) : Prop :=
  (∃ current ∈ s.current, row < current) ∧ row ∈ s.queued ∧ s.queued.getLast?.all (row > ·)

instance (s : Window) (row : Nat) : Decidable (s.Requeues row) := inferInstanceAs (Decidable (_ ∧ _))

/-- Cells arrive in these rows, one after another. -/
def takeAll (s : Window) (rows : List Nat) : Window := rows.foldl take s

/-- How many of the cells requeue their row. -/
def requeuesFrom (s : Window) : List Nat → Nat
  | [] => 0
  | row :: rows => (if s.Requeues row then 1 else 0) + (s.take row).requeuesFrom rows

end Window

/-- The rows of a sheet as they come in, from the start. -/
def window (rows : List Nat) : Window := Window.takeAll ⟨[], none⟩ rows

def requeues (rows : List Nat) : Nat := Window.requeuesFrom ⟨[], none⟩ rows

theorem mem_enter {queued : List Nat} {row i : Nat} : i ∈ enter queued row ↔ i ∈ queued ∨ i = row := by
  unfold enter
  split
  · simp
  · next h =>
    have hmem : row ∈ queued := by
      by_contra hn
      exact h (.inr hn)
    constructor
    · exact Or.inl
    · rintro (hi | rfl)
      · exact hi
      · exact hmem

theorem length_enter (queued : List Nat) (row : Nat) :
    (enter queued row).length =
      queued.length + if row ∈ queued ∧ ¬ queued.getLast?.all (row > ·) then 0 else 1 := by
  unfold enter
  by_cases hlast : queued.getLast?.all (row > ·) = true
  · simp [hlast]
  · by_cases hmem : row ∈ queued <;> simp [hlast, hmem]

theorem length_le_enter (queued : List Nat) (row : Nat) : queued.length ≤ (enter queued row).length := by
  rw [length_enter]
  exact Nat.le_add_right _ _

namespace Window

theorem length_le_take (s : Window) (row : Nat) : s.queued.length ≤ (s.take row).queued.length := by
  unfold take
  split
  · exact le_rfl
  · split
    · exact length_le_enter _ _
    · split
      · exact length_le_enter _ _
      · exact le_rfl

theorem length_le_takeAll (s : Window) (rows : List Nat) : s.queued.length ≤ (s.takeAll rows).queued.length := by
  induction rows generalizing s with
  | nil => exact le_rfl
  | cons row rows ih => exact (s.length_le_take row).trans (ih (s.take row))

theorem takeAll_append (s : Window) (rows rows' : List Nat) : s.takeAll (rows ++ rows') = (s.takeAll rows).takeAll rows' :=
  List.foldl_append

theorem requeuesFrom_concat (s : Window) (rows : List Nat) (row : Nat) :
    s.requeuesFrom (rows ++ [row]) = s.requeuesFrom rows + if (s.takeAll rows).Requeues row then 1 else 0 := by
  induction rows generalizing s with
  | nil => exact (Nat.zero_add _).symm
  | cons i rows ih =>
    rw [List.cons_append, requeuesFrom, ih, requeuesFrom, Nat.add_assoc]
    rfl

theorem takeAll_concat (s : Window) (rows : List Nat) (row : Nat) :
    s.takeAll (rows ++ [row]) = (s.takeAll rows).take row :=
  s.takeAll_append rows [row]

/-! ### What a window has of its rows -/

/-- The rows that came in are those queued and the one under construction,
which is past all of them; a place in the queue is a row's first or that of a
requeue. -/
structure Of (rows : List Nat) (requeued : Nat) (s : Window) : Prop where
  mem : ∀ i, i ∈ rows ↔ i ∈ s.queued ∨ s.current = some i
  below : ∀ current, s.current = some current → ∀ i ∈ s.queued, i < current
  unopened : s.current = none → s.queued = []
  length : s.queued.length + s.current.toList.length = rows.dedup.length + requeued

theorem length_dedup_concat (rows : List Nat) (row : Nat) :
    (rows ++ [row]).dedup.length = rows.dedup.length + if row ∈ rows then 0 else 1 := by
  have hperm : (rows ++ [row]).Perm (row :: rows) := List.perm_append_singleton row rows
  rw [hperm.dedup.length_eq]
  by_cases h : row ∈ rows <;> simp [h]

section step
variable {rows queued : List Nat} {requeued current row : Nat}

/-- The first cell opens a row. -/
theorem Of.first (h : Of rows requeued ⟨queued, none⟩) : Of (rows ++ [row]) requeued ⟨queued, some row⟩ := by
  obtain rfl : queued = [] := h.unopened rfl
  obtain rfl : rows = [] := List.eq_nil_iff_forall_not_mem.2 fun i hi => by simpa using (h.mem i).1 hi
  exact ⟨by simp [eq_comm], by simp, nofun, by simpa using h.length.symm⟩

/-- A late row takes a place of its own where it is not queued yet, and where
it is requeued. -/
theorem Of.late (h : Of rows requeued ⟨queued, some current⟩) (hlt : row < current) :
    Of (rows ++ [row]) (requeued + if row ∈ queued ∧ queued.getLast?.all (row > ·) then 1 else 0)
      ⟨enter queued row, some current⟩ := by
  have hmem : row ∈ rows ↔ row ∈ queued := by
    rw [h.mem]
    simp only [Option.some.injEq, or_iff_left_iff_imp]
    omega
  refine ⟨?_, ?_, nofun, ?_⟩
  · intro i
    rw [List.mem_append, List.mem_singleton, h.mem, mem_enter]
    tauto
  · intro _ hc i hi
    obtain rfl := Option.some.inj hc
    rcases mem_enter.1 hi with hi | rfl
    · exact h.below current rfl i hi
    · exact hlt
  · have hlen : queued.length + 1 = rows.dedup.length + requeued := h.length
    show (enter queued row).length + 1 = _
    rw [length_dedup_concat, length_enter]
    simp only [hmem]
    by_cases hm : row ∈ queued
    · cases queued.getLast?.all (row > ·) with
      | true =>
        simp only [hm, not_true, and_false, and_true, if_true, if_false]
        omega
      | false =>
        simp only [hm, Bool.false_eq_true, not_false_eq_true, and_true, and_false, if_true, if_false]
        omega
    · simp only [hm, false_and, if_false]
      omega

/-- A further row puts the one under construction behind the queue. -/
theorem Of.next (h : Of rows requeued ⟨queued, some current⟩) (hgt : current < row) :
    Of (rows ++ [row]) requeued ⟨enter queued current, some row⟩ := by
  have hbelow := h.below current rfl
  have hmem : row ∉ rows := by
    rw [h.mem]
    rintro (hq | hc)
    · have := hbelow row hq
      omega
    · have := Option.some.inj hc
      omega
  have hcur : current ∉ queued := fun hq => Nat.lt_irrefl _ (hbelow current hq)
  refine ⟨?_, ?_, nofun, ?_⟩
  · intro i
    rw [List.mem_append, List.mem_singleton, h.mem, mem_enter]
    simp only [Option.some.injEq, eq_comm]
  · intro _ hc i hi
    obtain rfl := Option.some.inj hc
    rcases mem_enter.1 hi with hi | rfl
    · exact (hbelow i hi).trans hgt
    · exact hgt
  · have hlen := h.length
    rw [length_dedup_concat, length_enter]
    simp only [hcur, hmem, false_and, if_false, Option.toList_some, List.length_singleton] at hlen ⊢
    omega

end step

theorem Of.take {rows : List Nat} {requeued : Nat} {s : Window} (h : Of rows requeued s) (row : Nat) :
    Of (rows ++ [row]) (requeued + if s.Requeues row then 1 else 0) (s.take row) := by
  obtain ⟨queued, current⟩ := s
  cases current with
  | none => simpa [Window.take, Requeues] using h.first
  | some current =>
    rcases Nat.lt_trichotomy row current with hlt | rfl | hgt
    · simpa [Window.take, Requeues, hlt] using h.late hlt
    · -- the row under construction, which is there already
      have hmem : row ∈ rows := (h.mem row).2 (.inr rfl)
      have hlen := h.length
      have htake : Window.take ⟨queued, some row⟩ row = ⟨queued, some row⟩ := by simp [Window.take]
      rw [htake]
      refine ⟨?_, h.below, nofun, ?_⟩
      · intro i
        rw [List.mem_append, List.mem_singleton, h.mem]
        simp only [Option.some.injEq]
        tauto
      · rw [length_dedup_concat]
        simpa [hmem, Requeues] using hlen
    · simpa [Window.take, Requeues, hgt, Nat.not_lt.2 (Nat.le_of_lt hgt)] using h.next hgt

end Window

theorem window_of (rows : List Nat) : (window rows).Of rows (requeues rows) := by
  induction rows using List.reverseRecOn with
  | nil => exact ⟨by simp [window, Window.takeAll], nofun, fun _ => rfl, rfl⟩
  | append_singleton rows row ih =>
    have hrequeues : requeues (rows ++ [row]) = requeues rows + if (window rows).Requeues row then 1 else 0 :=
      Window.requeuesFrom_concat _ _ _
    have hwindow : window (rows ++ [row]) = (window rows).take row := Window.takeAll_concat _ _ _
    rw [hrequeues, hwindow]
    exact ih.take row

/-! ## The walk by its row indices -/

namespace RowBatcher

theorem map_queue (rows : List Pb.WorksheetRow) (row : Pb.WorksheetRow) :
    (queue rows row).map (·.rowIndex) = enter (rows.map (·.rowIndex)) row.rowIndex := by
  have hlast : (rows.map (·.rowIndex)).getLast?.all (row.rowIndex > ·) =
      rows.getLast?.all fun last => row.rowIndex > last.rowIndex := by
    rw [List.getLast?_map]
    cases rows.getLast? <;> rfl
  unfold queue enter
  rw [hlast]
  split
  · next hpast => simp [hpast]
  · next hpast =>
    by_cases hm : row.rowIndex ∈ rows.map (·.rowIndex)
    · obtain ⟨pre, existing, post, rfl, he, hq⟩ := mergeQueued_of_mem hm
      rw [hq, if_neg (by simp only [hpast, hm, not_true, or_self, not_false_eq_true, Bool.false_eq_true])]
      simp
    · rw [mergeQueued_of_not_mem hm, if_pos (.inr hm)]
      simp

/-- Neither the bytes of the queued rows nor the linger deadline closes the
batch at this push. -/
def WithinLimits (rt : Runtime) (b : RowBatcher) (row : Pb.WorksheetRow) : Prop :=
  (b.enqueue rt row).pendingBytes < MAX_BATCH_BYTES ∧ ¬ (b.enqueue rt row).LingerExpired rt

instance (rt : Runtime) (b : RowBatcher) (row : Pb.WorksheetRow) : Decidable (WithinLimits rt b row) :=
  inferInstanceAs (Decidable (_ ∧ _))

/-- Where neither does, the row cap decides. -/
theorem WithinLimits.flushes_iff {rt : Runtime} {b : RowBatcher} {row : Pb.WorksheetRow} (h : WithinLimits rt b row) :
    b.flushes rt row = true ↔ b.cap ≤ (queue b.rows row).length := by
  obtain ⟨o, p, n, he⟩ := b.enqueue_eq rt row
  unfold flushes
  rw [flushDue_iff, or_iff_left (not_or.2 ⟨Nat.not_le.2 h.1, h.2⟩), he]

end RowBatcher

/-- A walk that has sent nothing is where its row indices say. -/
structure Walk.Follows (s : Window) (w : Walk) : Prop where
  rows : w.batcher.rows.map (·.rowIndex) = s.queued
  current : s.current = if w.isOpen then some w.currentRow else none
  unsent : w.batcher.highestSent = none
  room : s.queued.length < w.batcher.cap

section walk
variable {rt : Runtime} {r : IncrementalRead} {s : Window} {w : Walk}

/-- The rows of the cells a walk keeps. -/
def keptRows (r : IncrementalRead) (strings : Option StringTable) (cells : List ReadCell) : List Nat :=
  (kept r.headerRow (yields r.is1904 strings cells)).map (·.row)

theorem keptRows_cons (r : IncrementalRead) (strings : Option StringTable) (c : ReadCell) (cells : List ReadCell) :
    keptRows r strings (c :: cells) = (kept r.headerRow [(nextCell r.is1904 strings c).1]).map (·.row) ++
      keptRows r (nextCell r.is1904 strings c).2 cells := by
  rw [keptRows, yields, ← List.singleton_append, kept_append, List.map_append]
  rfl

theorem Walk.Follows.accepts (h : w.Follows s) (i : Nat) : w.batcher.accepts i = true := by
  rw [RowBatcher.accepts, h.unsent]
  rfl

/-- Either the batch closes and its rows are sent, or the row is queued and
there is room left. -/
theorem push_cases (rt : Runtime) (b : RowBatcher) (row : Pb.WorksheetRow) :
    (b.flushes rt row = true ∧ rowsIn (flatten (b.push rt row).events) ≠ []) ∨
      ∃ o p n, b.push rt row = .done (true, b.queued row o p n) ∧ (RowBatcher.queue b.rows row).length < b.cap := by
  obtain ⟨o, p, n, hpush⟩ := b.push_flushes rt row
  cases hf : b.flushes rt row with
  | true =>
    have hne : (b.queued row o p n).rows ≠ [] := List.length_pos_iff.1 (RowBatcher.length_queue b.rows row).1
    refine .inl ⟨rfl, ?_⟩
    rw [hpush, hf, if_pos rfl, RowBatcher.flush_rows rt _ hne]
    intro hnil
    have hperm := (rt.sort_perm (b.queued row o p n).rows).symm
    rw [hnil] at hperm
    exact hne hperm.eq_nil
  | false =>
    obtain ⟨o', p', n', he⟩ := b.enqueue_eq rt row
    have hdue : ¬ ((b.enqueue rt row).flushDue rt).1 = true := by
      rw [← RowBatcher.flushes, hf]
      exact Bool.false_ne_true
    rw [RowBatcher.flushDue_iff, he] at hdue
    refine .inr ⟨o, p, n, ?_, Nat.not_le.1 fun hcap => hdue (.inl hcap)⟩
    rw [hpush, hf]
    rfl

/-- What a cell does to a walk that has sent nothing, where its row indices
come to `s`: the batch closes at its push, or the walk goes on. -/
inductive CellFollows (rt : Runtime) (r : IncrementalRead) (s : Window) (w : Walk) (cell : Nat × Nat × Pb.CellData) :
    Prop where
  | closes (row : Pb.WorksheetRow) (hpushed : w.pushed r cell = some row)
      (hflushes : w.batcher.flushes rt row = true)
      (hqueue : (RowBatcher.queue w.batcher.rows row).map (·.rowIndex) = s.queued)
      (hsent : rowsIn (flatten (walkCell rt r w cell).events) ≠ [])
  | goes (w' : Walk) (hcell : walkCell rt r w cell = .done (some w')) (hfollows : w'.Follows s)
      (hstrings : w'.batcher.strings = w.batcher.strings) (hcap : w'.batcher.cap = w.batcher.cap)

section cell
variable {row idx : Nat} {value : Pb.CellData}

/-- A cell that pushes. -/
theorem CellFollows.of_pushed (h : w.Follows s) {s' : Window} {cell : Nat × Nat × Pb.CellData} {x : Pb.WorksheetRow}
    (hpushed : w.pushed r cell = some x) (hqueued : s'.queued = enter s.queued x.rowIndex)
    (hresumed : ∀ b, (w.resumed cell b).batcher = b ∧
      s'.current = if (w.resumed cell b).isOpen then some (w.resumed cell b).currentRow else none) :
    CellFollows rt r s' w cell := by
  have hcell : walkCell rt r w cell = _ := walkCell_of_pushed hpushed
  have hq := RowBatcher.map_queue w.batcher.rows x
  rw [h.rows, ← hqueued] at hq
  rcases push_cases rt w.batcher x with ⟨hf, hsent⟩ | ⟨o, p, n, hpush, hroom⟩
  · refine .closes x hpushed hf hq ?_
    rw [hcell, Emit.events_bind, flatten_append, Grid.rowsIn_append]
    intro hnil
    exact hsent (List.append_eq_nil_iff.1 hnil).1
  · obtain ⟨hb, hcurrent⟩ := hresumed (w.batcher.queued x o p n)
    refine .goes (w.resumed cell (w.batcher.queued x o p n)) ?_ ⟨?_, hcurrent, ?_, ?_⟩ ?_ ?_
    · rw [hcell, hpush]
      rfl
    · rw [hb]
      exact hq
    · rw [hb]
      exact h.unsent
    · rw [hb, ← hq, List.length_map]
      exact hroom
    · rw [hb]
      rfl
    · rw [hb]
      rfl

variable (rt) in
theorem walkCell_follows (h : w.Follows s) (row idx : Nat) (value : Pb.CellData) :
    CellFollows rt r (s.takeAll ((kept r.headerRow [(row, idx, value)]).map (·.row))) w (row, idx, value) := by
  have hcurrent := h.current
  cases hk : keeps r.headerRow (row, idx, value) with
  | false =>
    have hnone : kept r.headerRow [(row, idx, value)] = [] := by simp [kept, hk]
    rw [hnone]
    exact .goes w (walkCell_dropped_eq rt r hk) h rfl rfl
  | true =>
    rw [kept_of_keeps hk]
    show CellFollows rt r (s.take row) w (row, idx, value)
    -- a cell that is only placed leaves the queue as it is
    have hplaced : (w.isOpen = true → row = w.currentRow) → s.take row = ⟨s.queued, some row⟩ →
        CellFollows rt r (s.take row) w (row, idx, value) := by
      intro hrow htake
      rw [htake]
      exact .goes _ (walkCell_placed_eq rt r hk hrow) ⟨h.rows, rfl, h.unsent, h.room⟩ rfl rfl
    cases ho : w.isOpen with
    | false =>
      rw [ho, if_neg Bool.false_ne_true] at hcurrent
      apply hplaced
      · rw [ho]
        rintro ⟨⟩
      · simp [Window.take, hcurrent]
    | true =>
      rw [ho, if_pos rfl] at hcurrent
      rcases Nat.lt_trichotomy row w.currentRow with hlt | heq | hgt
      · apply CellFollows.of_pushed h (pushed_late hk ho hlt (h.accepts row))
        · simp [Window.take, hcurrent, hlt]
        · intro b
          simp [Window.take, hcurrent, hlt, Walk.resumed, ho]
      · apply hplaced
        · exact fun _ => heq
        · simp only [heq, Window.take, hcurrent, Nat.lt_irrefl, if_false]
          rw [← hcurrent]
      · have hnlt : ¬ row < w.currentRow := Nat.not_lt.2 (Nat.le_of_lt hgt)
        apply CellFollows.of_pushed h (pushed_next hk ho hgt (h.accepts _))
        · simp [Window.take, hcurrent, hnlt, hgt]
        · intro b
          simp [Window.take, hcurrent, hnlt, hgt, Walk.resumed]

end cell

/-! ## The run -/

/-- A run from a walk that has sent nothing: it goes over all its cells by
their row indices and sends nothing, or it sends rows. Where rows alone close
batches, it does so only once the queue is full. -/
theorem walkCells_follows (rt : Runtime) (h : w.Follows s) (cells : List ReadCell) :
    (∃ w', Reaches rt r w cells w' ∧ (walkCells rt r w cells).events = [] ∧ w'.batcher.cap = w.batcher.cap ∧
        w'.Follows (s.takeAll (keptRows r w.batcher.strings cells))) ∨
      (rowsIn (flatten (walkCells rt r w cells).events) ≠ [] ∧
        ((∀ p ∈ pushesFrom rt r w cells, p.1.WithinLimits rt p.2) →
          w.batcher.cap ≤ (s.takeAll (keptRows r w.batcher.strings cells)).queued.length)) := by
  induction cells generalizing w s with
  | nil => exact .inl ⟨w, rfl, rfl, rfl, h⟩
  | cons c cells ih =>
    have hw₁ : (w.interned r c).Follows s := ⟨h.rows, h.current, h.unsent, h.room⟩
    rw [keptRows_cons, Window.takeAll_append]
    cases walkCell_follows rt hw₁ c.row c.col (w.tuple r c).2.2 with
    | closes row hpushed hflushes hqueue hsent =>
      refine .inr ⟨?_, ?_⟩
      · rw [walkCells, Emit.events_bind, flatten_append, Grid.rowsIn_append]
        intro hnil
        exact hsent (List.append_eq_nil_iff.1 hnil).1
      · intro hlimits
        have hpush : ((w.interned r c).batcher, row) ∈ pushesFrom rt r w (c :: cells) := by
          have hpushed' : (w.interned r c).pushed r (w.tuple r c) = some row := hpushed
          rw [pushesFrom, hpushed']
          exact List.mem_append_left _ (List.mem_singleton_self _)
        have hfull := (hlimits _ hpush).flushes_iff.1 hflushes
        rw [← List.length_map (f := fun x : Pb.WorksheetRow => x.rowIndex)] at hfull
        exact (hqueue ▸ hfull).trans (Window.length_le_takeAll _ _)
    | goes w' hcell hfollows hstrings hcap =>
      have hturn : turn rt r w c = .done (some w') := hcell
      have hwalk : walkCells rt r w (c :: cells) = walkCells rt r w' cells := by rw [walkCells, hturn]; rfl
      have hnext := ih hfollows
      rw [hstrings, hcap] at hnext
      unfold Reaches at hnext ⊢
      rw [hwalk]
      rcases hnext with hgoes | ⟨hsent, hfull⟩
      · exact .inl hgoes
      · refine .inr ⟨hsent, ?_⟩
        intro hlimits
        apply hfull
        intro p hp
        apply hlimits p
        rw [pushesFrom, hturn]
        exact List.mem_append_right _ hp

end walk

/-! ## The end of the sheet -/

/-- An item that reports no error. -/
def NoError (i : Item Pb.RangeEvent) : Prop := ∀ e, i ≠ .event (.error e)

theorem flush_noError (rt : Runtime) (b : RowBatcher) : ∀ i ∈ (b.flush rt).events, NoError i := by
  by_cases hne : b.rows = []
  · rw [RowBatcher.flush_nil rt b hne]
    exact nofun
  · rw [(b.flush_cons rt hne).2]
    refine List.forall_mem_append.2 ⟨?_, ?_⟩
    · intro i hi e he
      obtain ⟨e', rfl, hc⟩ := b.sendNewStrings_carried i hi
      rw [Item.event.inj he] at hc
      exact hc
    · intro i hi e he
      have hrun := (b.emptied.sendRuns_runItems (rt.sort b.rows)).events i hi
      rw [he] at hrun
      cases hrun

theorem push_noError (rt : Runtime) (b : RowBatcher) (row : Pb.WorksheetRow) :
    ∀ i ∈ (b.push rt row).events, NoError i := by
  obtain ⟨o, p, n, hpush⟩ := b.push_flushes rt row
  rw [hpush]
  split
  · exact flush_noError rt _
  · exact nofun

theorem finish_noError (rt : Runtime) (r : IncrementalRead) {s : Window} {w : Walk} (h : w.Follows s) :
    ∀ i ∈ (finish rt r w).events, NoError i := by
  unfold finish
  split
  · rw [h.accepts]
    simp only [Bool.not_true, Bool.false_eq_true, if_false, Emit.events_bind, List.forall_mem_append]
    refine ⟨push_noError rt _ _, ?_⟩
    split
    · simpa using flush_noError rt _
    · exact nofun
  · simpa using flush_noError rt _

/-- How many rows a batcher queues before it sends any. -/
def repairRows (maxRows : Nat) : Nat :=
  if maxRows ≤ 1 then DEFAULT_MAX_ROWS_PER_MESSAGE else min maxRows MAX_ROWS_PER_MESSAGE_CEILING

theorem new_cap (maxRows : Nat) (strings : Option StringTable) : (RowBatcher.new maxRows strings).cap = repairRows maxRows := by
  match maxRows with
  | 0 | 1 => rfl
  | n + 2 =>
    have hne : min (n + 2) MAX_ROWS_PER_MESSAGE_CEILING ≠ 1 := by
      unfold MAX_ROWS_PER_MESSAGE_CEILING
      omega
    have hmany : ¬ n + 2 ≤ 1 := by omega
    simp only [RowBatcher.new, repairRows, if_neg (Nat.succ_ne_zero (n + 1)), beq_false_of_ne hne, if_neg hmany]
    rfl

section stream
variable (rt : Runtime) (r : IncrementalRead) (maxRows : Nat) (strings : Option StringTable)
  (tables : List Pb.DeclaredTable) (formats : List Pb.NumberFormat)

theorem startWalk_follows : (startWalk r maxRows strings tables formats).Follows ⟨[], none⟩ ∧
    (startWalk r maxRows strings tables formats).batcher.cap = repairRows maxRows := by
  have hcap := new_cap maxRows strings
  have hpos : 0 < repairRows maxRows := by
    unfold repairRows DEFAULT_MAX_ROWS_PER_MESSAGE MAX_ROWS_PER_MESSAGE_CEILING
    split <;> omega
  have hroom : 0 < (RowBatcher.new maxRows strings).cap := hcap ▸ hpos
  unfold startWalk Walk.start
  cases r.headerRow with
  | none => exact ⟨⟨rfl, rfl, rfl, hroom⟩, hcap⟩
  | some n => exact ⟨⟨rfl, rfl, rfl, hroom⟩, hcap⟩

/-- The sheet is repaired whole: no row is sent before its end, and no error
but the reader's own. -/
structure RepairedWhole : Prop where
  unsent : sentAfter rt r maxRows strings tables formats r.cells = []
  clean : ∀ e, .error e ∈ eventsOf (rangeEvents rt r maxRows strings tables formats) →
    ∃ msg, r.failure = some msg ∧ .error e = readError r msg

variable {rt r maxRows strings tables formats}

theorem repairedWhole_of_follows {s : Window} {w : Walk}
    (hreach : Reaches rt r (startWalk r maxRows strings tables formats) r.cells w) (hfollows : w.Follows s)
    (hevents : (walkCells rt r (startWalk r maxRows strings tables formats) r.cells).events = []) :
    RepairedWhole rt r maxRows strings tables formats := by
  constructor
  · rw [sentAfter, hevents]
    rfl
  · intro e he
    have hitem := mem_eventsOf he
    rw [rangeEvents_eq, hevents, hreach, List.nil_append] at hitem
    rcases List.mem_cons.1 hitem with hstarted | hitem
    · cases hstarted
    cases hfail : r.failure with
    | some msg =>
      rw [hfail] at hitem
      exact ⟨msg, rfl, Item.event.inj (List.mem_singleton.1 hitem)⟩
    | none =>
      rw [hfail] at hitem
      exact absurd rfl (finish_noError rt r hfollows _ hitem e)

variable (rt r maxRows strings tables formats) in
/-- Where neither bytes nor the clock close a batch, a sheet is repaired whole
exactly when its populated rows, a row counted once more for every cell that
requeues it, are no more than the batcher queues. -/
theorem repaired_whole_iff
    (hlimits : ∀ p ∈ pushesFrom rt r (startWalk r maxRows strings tables formats) r.cells, p.1.WithinLimits rt p.2) :
    RepairedWhole rt r maxRows strings tables formats ↔
      (Grid.populated (kept r.headerRow (yields r.is1904 strings r.cells))).length +
        requeues (keptRows r strings r.cells) ≤ repairRows maxRows := by
  obtain ⟨hstart, hcap⟩ := startWalk_follows r maxRows strings tables formats
  have hpopulated : (Grid.populated (kept r.headerRow (yields r.is1904 strings r.cells))).length =
      (keptRows r strings r.cells).dedup.length := List.length_insertionSort _ _
  have hof := window_of (keptRows r strings r.cells)
  have hlength := hof.length
  have hrun := walkCells_follows (r := r) rt hstart r.cells
  rw [startWalk_strings, hcap] at hrun
  rw [hpopulated, ← hlength]
  rcases hrun with ⟨w, hreach, hevents, hcap', hfollows⟩ | ⟨hsent, hfull⟩
  · have hroom : (window (keptRows r strings r.cells)).queued.length < repairRows maxRows :=
      hcap' ▸ hfollows.room
    have hone := Option.length_toList_le (o := (window (keptRows r strings r.cells)).current)
    refine iff_of_true (repairedWhole_of_follows hreach hfollows hevents) ?_
    omega
  · have hfull' : repairRows maxRows ≤ (window (keptRows r strings r.cells)).queued.length := hfull hlimits
    refine iff_of_false (fun hwhole => hsent hwhole.unsent) ?_
    -- a full queue has a row under construction behind it
    cases hcurrent : (window (keptRows r strings r.cells)).current with
    | none =>
      have hempty := hof.unopened hcurrent
      have hroom := hstart.room
      rw [hempty] at hfull'
      rw [hcap] at hroom
      exact absurd hroom (Nat.not_lt.2 hfull')
    | some current =>
      rw [Option.toList_some, List.length_singleton]
      omega

end stream

/-- Rows 3, 5 and 1 come, then 3 and 1 once more. -/
def requeuedRead : IncrementalRead := numbersRead none [(3, 0, 1), (5, 0, 2), (1, 0, 3), (3, 0, 4), (1, 1, 5)]

/-- Three rows fit a queue of three, but row 3 takes two places: the queue is
sent, and the last cell comes too late. -/
theorem requeued_row_fills_queue :
    (Grid.populated (kept none (yields false none requeuedRead.cells))).length = 3 ∧ repairRows 3 = 3 ∧
      (∀ p ∈ pushesFrom insertionRuntime requeuedRead (startWalk requeuedRead 3 none [] []) requeuedRead.cells,
        p.1.WithinLimits insertionRuntime p.2) ∧
      (sentAfter insertionRuntime requeuedRead 3 none [] [] requeuedRead.cells).map (·.rowIndex) = [1, 3, 3] ∧
      (rangeEvents insertionRuntime requeuedRead 3 none [] []).getLast? =
        some (.event (unsortedError insertionRuntime requeuedRead 1 1)) ∧
      ¬ RepairedWhole insertionRuntime requeuedRead 3 none [] [] := by
  have hsent : (sentAfter insertionRuntime requeuedRead 3 none [] [] requeuedRead.cells).map (·.rowIndex) = [1, 3, 3] := by
    decide
  refine ⟨by decide, rfl, by decide, hsent, rfl, ?_⟩
  intro hwhole
  rw [hwhole.unsent] at hsent
  cases hsent

/-- Three rows from the last to the first. -/
def reversedRead : IncrementalRead := numbersRead none [(2, 0, 1), (1, 0, 2), (0, 0, 3)]

theorem repaired_whole_iff_reversed :
    (Grid.populated (kept none (yields false none reversedRead.cells))).length +
        requeues (keptRows reversedRead none reversedRead.cells) ≤ repairRows 3 ∧
      RepairedWhole insertionRuntime reversedRead 3 none [] [] := by
  have hfits : (Grid.populated (kept none (yields false none reversedRead.cells))).length +
      requeues (keptRows reversedRead none reversedRead.cells) ≤ repairRows 3 := by decide
  exact ⟨hfits, (repaired_whole_iff insertionRuntime reversedRead 3 none [] [] (by decide)).2 hfits⟩

end GrpcCalamine
