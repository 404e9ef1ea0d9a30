import GrpcCalamine.Service.Ascending
import GrpcCalamine.Service.RangeStream
/-!
# Rows in order, to the last row there is

`rangeEvents_sorted` counts the row after the last one, which wraps past
`u32::MAX`. Where rows come in order nothing follows such a row, so the stream
is the reference there too, whatever strings wait to be sent (`rangeEvents_inOrder`).
-/

namespace GrpcCalamine

open Grid (announce)
open RowBatcher (Queues)

section walk

variable {rt : Runtime} {r : IncrementalRead} {ws : List (Grid.Write Pb.CellData)} {closed : List Pb.WorksheetRow}
  {w : Walk}

/-- A walk over rows in order: `closed` has gone into the batcher, and with the
row under construction it holds the writes so far. -/
structure Walk.Sorted (ws : List (Grid.Write Pb.CellData)) (closed : List Pb.WorksheetRow) (w : Walk) : Prop where
  holds : Holds ws (w.opened ++ closed)
  inOrder : InOrder (closed ++ w.opened)
  unopened : w.isOpen = false → closed = [] ∧ w.values = []
  queues : ∀ todo, InOrder (closed ++ todo) → w.batcher.Queues todo

/-- Going on from `b` to `b'`: what is sent is `new`, taken off what `b` owes. -/
def Owing (closed : List Pb.WorksheetRow) (b b' : RowBatcher) (new : List Pb.WorksheetRow)
    (items : List (Item Pb.RangeEvent)) : Prop :=
  ∀ todo, InOrder (closed ++ new ++ todo) → flatten items ++ b'.owes todo = b.owes (new ++ todo)

theorem Owing.trans {b b' b'' : RowBatcher} {new new' : List Pb.WorksheetRow} {is js : List (Item Pb.RangeEvent)}
    (h : Owing closed b b' new is) (h' : Owing (closed ++ new) b' b'' new' js) :
    Owing closed b b'' (new ++ new') (is ++ js) := by
  intro todo hin
  rw [← List.append_assoc closed] at hin
  rw [flatten_append, List.append_assoc, h' todo hin, h (new' ++ todo) (by rwa [List.append_assoc] at hin),
    List.append_assoc]

theorem InOrder.concat {rows : List Pb.WorksheetRow} {row : Pb.WorksheetRow} (h : InOrder rows)
    (hlt : ∀ x ∈ rows, x.rowIndex < row.rowIndex) (hrow : row.rowIndex < 2 ^ 32) : InOrder (rows ++ [row]) := by
  refine ⟨List.pairwise_append.2 ⟨h.ascending, List.pairwise_singleton _ _, ?_⟩, ?_⟩
  · intro x hx y hy
    rw [List.mem_singleton.1 hy]
    exact hlt x hx
  · intro x hx
    rcases List.mem_append.1 hx with hx | hx
    · exact h.u32 x hx
    · exact List.mem_singleton.1 hx ▸ hrow

/-- Only the indices count. -/
theorem InOrder.of_indices {rows rows' : List Pb.WorksheetRow} (h : InOrder rows)
    (he : rows'.map (·.rowIndex) = rows.map (·.rowIndex)) : InOrder rows' := by
  refine ⟨List.pairwise_map.1 (he ▸ List.pairwise_map.2 h.ascending), fun x hx => ?_⟩
  have hmem : x.rowIndex ∈ rows.map (·.rowIndex) := he ▸ List.mem_map_of_mem hx
  obtain ⟨y, hy, hxy⟩ := List.mem_map.1 hmem
  exact hxy ▸ h.u32 y hy

namespace Walk.Sorted

/-- The first cell of the walk, or a cell of the row under construction. -/
theorem place (h : w.Sorted ws closed) {row col : Nat} {value : Pb.CellData} (hrow : row < 2 ^ 32)
    (hv : value.carries = true) (hopen : w.isOpen = true → row = w.currentRow) :
    Walk.Sorted (ws ++ [⟨row, col, value⟩]) closed
      { w with currentRow := row, isOpen := true, values := GrpcCalamine.place w.values col value } := by
  obtain ⟨b, current, isOpen, values⟩ := w
  cases isOpen with
  | false =>
    obtain ⟨rfl, rfl⟩ := h.unopened rfl
    refine ⟨h.holds.add ⟨row, col, value⟩ hv, ?_, by rintro ⟨⟩, h.queues⟩
    exact InOrder.concat ⟨.nil, List.forall_mem_nil _⟩ (List.forall_mem_nil _) hrow
  | true =>
    obtain rfl : row = current := hopen rfl
    have hholds : Holds ws (⟨row, values⟩ :: closed) := h.holds
    refine ⟨hholds.write ⟨row, col, value⟩ rfl hv, ?_, by rintro ⟨⟩, h.queues⟩
    apply h.inOrder.of_indices
    simp [Walk.opened]

/-- A row past the one under construction, which has been pushed. -/
theorem next (h : w.Sorted ws closed) (ho : w.isOpen = true) {row col : Nat} {value : Pb.CellData}
    (hrow : row < 2 ^ 32) (hv : value.carries = true) (hgt : w.currentRow < row) {b : RowBatcher}
    (hqueues : ∀ todo, InOrder (closed ++ [⟨w.currentRow, w.values⟩] ++ todo) → b.Queues todo) :
    Walk.Sorted (ws ++ [⟨row, col, value⟩]) (closed ++ [⟨w.currentRow, w.values⟩])
      ⟨b, row, true, GrpcCalamine.place [] col value⟩ := by
  have hholds := h.holds
  have hin := h.inOrder
  rw [Walk.opened_of_open ho] at hholds hin
  have hlast : ∀ x ∈ closed ++ [⟨w.currentRow, w.values⟩], x.rowIndex < row := by
    intro x hx
    rcases List.mem_append.1 hx with hx | hx
    · have hlt := (List.pairwise_append.1 hin.ascending).2.2 x hx ⟨w.currentRow, w.values⟩ List.mem_cons_self
      exact Nat.lt_trans hlt hgt
    · rw [List.mem_singleton.1 hx]
      exact hgt
  refine ⟨?_, hin.concat hlast hrow, by rintro ⟨⟩, hqueues⟩
  apply (hholds.add ⟨row, col, value⟩ hv).perm
  exact .cons _ (List.perm_append_singleton _ _)

end Walk.Sorted

variable (rt r) in
/-- A cell at or past every row so far. -/
theorem walkCell_sorted (h : w.Sorted ws closed) {row col : Nat} {value : Pb.CellData} (hrow : row < 2 ^ 32)
    (hpast : ∀ x ∈ ws, x.row ≤ row) (hcarries : keeps r.headerRow (row, col, value) = true → value.carries = true) :
    ∃ w' new, (walkCell rt r w (row, col, value)).result = some w' ∧
      SameIds w'.batcher.strings w.batcher.strings ∧
      w'.Sorted (ws ++ kept r.headerRow [(row, col, value)]) (closed ++ new) ∧
      Owing closed w.batcher w'.batcher new (walkCell rt r w (row, col, value)).events := by
  cases hk : keeps r.headerRow (row, col, value) with
  | false =>
    have hnone : kept r.headerRow [(row, col, value)] = [] := by simp [kept, hk]
    rw [walkCell_dropped_eq rt r hk, hnone, List.append_nil]
    exact ⟨w, [], rfl, rfl, by rwa [List.append_nil], fun todo _ => rfl⟩
  | true =>
    have hv := hcarries hk
    rw [kept_of_keeps hk]
    by_cases hopen : w.isOpen = true → row = w.currentRow
    · rw [walkCell_placed_eq rt r hk hopen]
      exact ⟨_, [], rfl, rfl, by rw [List.append_nil]; exact h.place hrow hv hopen, fun todo _ => rfl⟩
    · obtain ⟨ho, hne⟩ := Classical.not_imp.1 hopen
      have hholds := h.holds
      have hin := h.inOrder
      rw [Walk.opened_of_open ho] at hholds hin
      -- the row under construction holds a write, so the cell is past it
      have hgt : w.currentRow < row := by
        obtain ⟨x, hx, hxrow⟩ := List.mem_map.1 ((hholds.indices w.currentRow).1 List.mem_cons_self)
        exact Nat.lt_of_le_of_ne (hxrow ▸ hpast x hx) (Ne.symm hne)
      have hready := h.queues [⟨w.currentRow, w.values⟩] hin
      obtain ⟨b', hr, hids, hpush⟩ := RowBatcher.push_queues rt hready
      rw [walkCell_next_eq rt r hk ho hgt (hready.accepts ⟨w.currentRow, w.values⟩ List.mem_cons_self)]
      have htodo : ∀ todo, InOrder (closed ++ [⟨w.currentRow, w.values⟩] ++ todo) →
          w.batcher.Queues ([⟨w.currentRow, w.values⟩] ++ todo) := by
        intro todo hin
        rw [List.append_assoc] at hin
        exact h.queues _ hin
      refine ⟨⟨b', row, true, place [] col value⟩, [⟨w.currentRow, w.values⟩], by simp [hr], hids,
        h.next ho hrow hv hgt fun todo hin => (hpush todo (htodo todo hin)).1, fun todo hin => ?_⟩
      have hflat := (hpush todo (htodo todo hin)).2
      simpa [hr, RowBatcher.owes] using hflat

variable (rt r) in
/-- A turn on a cell at or past every row so far. -/
theorem turn_sorted (h : w.Sorted ws closed) {c : ReadCell} (hrow : c.row < 2 ^ 32) (hpast : ∀ x ∈ ws, x.row ≤ c.row) :
    ∃ w' new, (turn rt r w c).result = some w' ∧
      SameIds w'.batcher.strings (nextCell r.is1904 w.batcher.strings c).2 ∧
      w'.Sorted (ws ++ kept r.headerRow [w.tuple r c]) (closed ++ new) ∧
      Owing closed w.batcher w'.batcher new (turn rt r w c).events := by
  have hqueues : ∀ todo, InOrder (closed ++ todo) →
      ({ w.batcher with strings := (nextCell r.is1904 w.batcher.strings c).2 } : RowBatcher).Queues todo := by
    intro todo hin
    obtain ⟨hq, hu⟩ := h.queues todo hin
    exact ⟨hq, hu⟩
  have hinterned : Walk.Sorted ws closed
      { w with batcher := { w.batcher with strings := (nextCell r.is1904 w.batcher.strings c).2 } } :=
    ⟨h.holds, h.inOrder, h.unopened, hqueues⟩
  have hcarries : keeps r.headerRow (nextCell r.is1904 w.batcher.strings c).1 = true →
      (nextCell r.is1904 w.batcher.strings c).1.2.2.carries = true := nextCell_carries r.is1904 w.batcher.strings c
  exact walkCell_sorted rt r hinterned hrow hpast hcarries

variable (rt r) in
theorem walkCells_sorted (h : w.Sorted ws closed) {cells : List ReadCell} (hrows : ∀ c ∈ cells, c.row < 2 ^ 32)
    (hsorted : cells.Pairwise fun c c' => c.row ≤ c'.row) (hpast : ∀ x ∈ ws, ∀ c ∈ cells, x.row ≤ c.row) :
    ∃ w' new, (walkCells rt r w cells).result = some w' ∧
      w'.Sorted (ws ++ kept r.headerRow (yields r.is1904 w.batcher.strings cells)) (closed ++ new) ∧
      Owing closed w.batcher w'.batcher new (walkCells rt r w cells).events := by
  induction cells generalizing ws closed w with
  | nil => exact ⟨w, [], rfl, by simpa [yields, kept] using h, fun todo _ => rfl⟩
  | cons c cells ih =>
    obtain ⟨hfirst, hrest⟩ := List.pairwise_cons.1 hsorted
    obtain ⟨w₁, new, h₁, hids, hs, howing⟩ :=
      turn_sorted rt r h (hrows c List.mem_cons_self) fun x hx => hpast x hx c List.mem_cons_self
    have hpast' : ∀ x ∈ ws ++ kept r.headerRow [w.tuple r c], ∀ c' ∈ cells, x.row ≤ c'.row := by
      intro x hx c' hc'
      rcases List.mem_append.1 hx with hx | hx
      · exact hpast x hx c' (List.mem_cons_of_mem _ hc')
      · obtain ⟨t, ht, rfl⟩ := List.mem_map.1 hx
        rw [List.mem_singleton.1 (List.mem_filter.1 ht).1]
        exact hfirst c' hc'
    obtain ⟨w', new', hr, hs', howing'⟩ := ih hs (fun c' hc' => hrows c' (List.mem_cons_of_mem _ hc')) hrest hpast'
    obtain ⟨hres, hev⟩ := walkCells_cons_some h₁ cells
    rw [yields_sameIds _ hids, List.append_assoc ws, ← kept_append, List.append_assoc closed] at hs'
    exact ⟨w', new ++ new', hres.trans hr, hs', hev ▸ howing.trans howing'⟩

variable (rt r) in
/-- The end of the sheet, where nothing is left to come. -/
theorem finish_sorted (h : w.Sorted ws closed) : flatten (finish rt r w).events = w.batcher.owes w.opened := by
  have hready := h.queues w.opened h.inOrder
  have hflush : ∀ b : RowBatcher, b.Queues [] → flatten (b.flush rt).events = b.owes [] := by
    intro b hb
    obtain ⟨b', -, hrows, -, hpays⟩ := RowBatcher.flush_queues rt hb.inOrder.left
    rw [← (hpays [] hb).2, RowBatcher.owes, hrows]
    exact (List.append_nil _).symm
  unfold finish
  cases ho : w.isOpen with
  | false =>
    rw [Walk.opened_of_closed ho] at hready ⊢
    simpa using hflush _ hready
  | true =>
    rw [Walk.opened_of_open ho] at hready ⊢
    have ha := hready.accepts ⟨w.currentRow, w.values⟩ List.mem_cons_self
    obtain ⟨b', hr, -, hpush⟩ := RowBatcher.push_queues rt hready
    obtain ⟨hq, hflat⟩ := hpush [] hready
    rw [← hflat, ← hflush b' hq]
    simp [ha, hr]

end walk

variable (rt : Runtime) (r : IncrementalRead) (maxRows : Nat) (strings : Option StringTable)
  (tables : List Pb.DeclaredTable) (formats : List Pb.NumberFormat)

theorem startWalk_sorted : (startWalk r maxRows strings tables formats).Sorted [] [] := by
  have hfresh : (startWalk r maxRows strings tables formats).batcher.rows = [] ∧
      (startWalk r maxRows strings tables formats).batcher.highestSent = none := by
    unfold startWalk Walk.start
    cases r.headerRow <;> exact ⟨rfl, rfl⟩
  refine ⟨.nil, ⟨.nil, List.forall_mem_nil _⟩, fun _ => ⟨rfl, rfl⟩, fun todo hin => ⟨?_, ?_⟩⟩
  · rw [hfresh.1]
    exact hin
  · rw [hfresh.2]
    exact nofun

/-- Rows in order: the stream is the reference, to the last row a `u32` has. -/
theorem rangeEvents_inOrder (hrows : ∀ c ∈ r.cells, c.row < 2 ^ 32)
    (hsorted : r.cells.Pairwise fun c c' => c.row ≤ c'.row) (hfail : r.failure = none) :
    flatten (rangeEvents rt r maxRows strings tables formats) = reference r strings := by
  obtain ⟨w, all, hr, hs, howing⟩ := walkCells_sorted rt r
    (startWalk_sorted r maxRows strings tables formats) hrows hsorted (List.forall_mem_nil _)
  rw [List.nil_append, List.nil_append, startWalk_strings] at hs
  have hflat := howing w.opened hs.inOrder
  have howes : (startWalk r maxRows strings tables formats).batcher.owes (all ++ w.opened) =
      announce (·.rowIndex) r.headerRow (all ++ w.opened) := by
    unfold startWalk Walk.start
    cases r.headerRow <;> rfl
  have hholds : Holds (kept r.headerRow (yields r.is1904 strings r.cells)) (all ++ w.opened) :=
    hs.holds.perm List.perm_append_comm
  have hreference := (announce_eq_reference (hs.inOrder.ascending.imp Nat.le_of_lt) hholds).2
    (List.pairwise_map.2 (hs.inOrder.ascending.imp Nat.ne_of_lt))
  rw [← hreference, ← howes, ← hflat, rangeEvents_eq, hr, hfail]
  simp only [startedEvent, flatten_event, rowEvents, List.nil_append, flatten_append, finish_sorted rt r hs]

end GrpcCalamine
