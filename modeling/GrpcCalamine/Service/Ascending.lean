import GrpcCalamine.Service.Flush
/-!
# Rows pushed in order

A batcher whose rows come in ascending order, the last of them as far down as
`u32::MAX`: whatever it has sent, what it still owes (`owes`: the rows queued
and the rows to come, announced from the row it expects) is the rest of one
announcement. `push_queues` and `flush_queues` keep this, whenever they flush;
`push_ready` and `flush_ready` say it of a batcher with no strings to send.
-/

namespace GrpcCalamine

open Grid (announce expectedAfter Consecutive)

/-- Row indices ascend, each once, within `u32`. -/
structure InOrder (rows : List Pb.WorksheetRow) : Prop where
  ascending : rows.Pairwise fun x y => x.rowIndex < y.rowIndex
  u32 : ∀ row ∈ rows, row.rowIndex < 2 ^ 32

namespace InOrder

variable {rows todo : List Pb.WorksheetRow} {row : Pb.WorksheetRow}

theorem left (h : InOrder (rows ++ todo)) : InOrder rows :=
  ⟨(List.pairwise_append.1 h.ascending).1, fun x hx => h.u32 x (List.mem_append_left _ hx)⟩

/-- Rows with another after them are below `u32::MAX`. -/
theorem below (h : InOrder (rows ++ row :: todo)) : RowsBelow rows := by
  intro x hx
  have hlt := (List.pairwise_append.1 h.ascending).2.2 x hx row List.mem_cons_self
  have := h.u32 row (by simp)
  omega

/-- Sorting leaves them. -/
theorem sort_eq (rt : Runtime) (h : InOrder rows) : rt.sort rows = rows := by
  have hp := rt.sort_perm rows
  have hsorted : (rt.sort rows).Pairwise fun x y => x.rowIndex ≤ y.rowIndex := List.pairwise_map.1 (rt.sort_sorted rows)
  have hrows : rows.Pairwise fun x y => x.rowIndex ≤ y.rowIndex := h.ascending.imp Nat.le_of_lt
  refine List.Perm.eq_of_pairwise ?_ hsorted hrows hp
  -- equal keys are one row, as no index occurs twice
  intro x y hx hy hxy hyx
  exact List.inj_on_of_nodup_map (f := (·.rowIndex)) (List.pairwise_map.2 (h.ascending.imp Nat.ne_of_lt))
    (hp.subset hx) hy (Nat.le_antisymm hxy hyx)

/-- Only the last of them can be `u32::MAX`. -/
theorem below_dropLast (h : InOrder rows) : RowsBelow rows.dropLast := by
  rcases List.eq_nil_or_concat' rows with rfl | ⟨init, last, rfl⟩
  · exact List.forall_mem_nil _
  · rw [List.dropLast_concat]
    exact h.below

/-- The row expected next, as the batcher counts in a `u32`: it wraps only
where nothing follows. -/
theorem announce_next (h : InOrder (rows ++ todo)) {last : Pb.WorksheetRow} (hl : rows.getLast? = some last)
    (start : Option Nat) :
    announce (·.rowIndex) start (rows ++ todo) =
      announce (·.rowIndex) start rows ++ announce (·.rowIndex) (some ((last.rowIndex + 1) % 2 ^ 32)) todo := by
  apply RowBatcher.announce_reached _ hl
  intro hne
  obtain ⟨row, todo, rfl⟩ := List.exists_cons_of_ne_nil hne
  exact h.below

end InOrder

/-! ## What carries rows -/

/-- An item that carries rows or the space between them. -/
def RowItem : Item Pb.RangeEvent → Prop
  | .event (.row _) | .event (.rows _) | .event (.rowGap _ _) => True
  | _ => False

theorem RowBatcher.RunItem.rowItem {single : Bool} {sorted : List Pb.WorksheetRow} {i : Item Pb.RangeEvent}
    (h : RunItem single sorted i) : RowItem i := by
  cases h <;> trivial

namespace RowBatcher

/-! ## Sending -/

theorem sendRuns_inOrder (b : RowBatcher) {rows : List Pb.WorksheetRow} (h : InOrder rows) :
    (b.sendRuns rows []).result = (true, b.reached rows) ∧
      flatten (b.sendRuns rows []).events = announce (·.rowIndex) b.nextExpected rows :=
  b.sendRuns_reached rows [] .nil h.below_dropLast

/-- What a batcher still owes: its queue and the rows to come, announced from
the row it expects. -/
def owes (b : RowBatcher) (todo : List Pb.WorksheetRow) : List (Grid.Announced Pb.WorksheetRow) :=
  announce (·.rowIndex) b.nextExpected (b.rows ++ todo)

/-! ### In order -/

/-- A batcher that can deliver `todo` after its queue: none of it is behind
what was sent. -/
structure Queues (b : RowBatcher) (todo : List Pb.WorksheetRow) : Prop where
  inOrder : InOrder (b.rows ++ todo)
  unsent : ∀ i ∈ b.highestSent, ∀ row ∈ b.rows ++ todo, i < row.rowIndex

section

variable {b : RowBatcher} {todo : List Pb.WorksheetRow}

theorem Queues.accepts (h : b.Queues todo) : ∀ row ∈ todo, b.accepts row.rowIndex = true := by
  intro row hrow
  unfold RowBatcher.accepts
  cases hs : b.highestSent with
  | none => rfl
  | some i => simpa using h.unsent i hs row (List.mem_append_right _ hrow)

/-- Flushing a queue in order announces it, and what is owed after it. -/
theorem flush_queues (rt : Runtime) (h : InOrder b.rows) :
    ∃ b', (b.flush rt).result = (true, b') ∧ b'.rows = [] ∧ SameIds b'.strings b.strings ∧
      ∀ todo, b.Queues todo → b'.Queues todo ∧ flatten (b.flush rt).events ++ b'.owes todo = b.owes todo := by
  by_cases hemp : b.rows = []
  · rw [flush_nil rt b hemp]
    exact ⟨b, rfl, hemp, rfl, fun todo hq => ⟨hq, rfl⟩⟩
  obtain ⟨last, hl⟩ : ∃ last, b.rows.getLast? = some last := ⟨_, List.getLast?_eq_some_getLast hemp⟩
  obtain ⟨hresult, hevents⟩ := b.flush_cons rt hemp
  rw [h.sort_eq rt] at hresult hevents
  obtain ⟨hr, he⟩ := b.emptied.sendRuns_inOrder h
  rw [reached_of_getLast hl] at hr
  refine ⟨_, hresult.trans hr, rfl, .drained _, fun todo hq => ⟨⟨?_, ?_⟩, ?_⟩⟩
  · exact ⟨(List.pairwise_append.1 hq.inOrder.ascending).2.1, fun x hx => hq.inOrder.u32 x (List.mem_append_right _ hx)⟩
  · intro i hi row hrow
    obtain rfl : last.rowIndex = i := by simpa using hi
    exact (List.pairwise_append.1 hq.inOrder.ascending).2.2 last (List.mem_of_getLast? hl) row hrow
  · rw [hevents, flatten_append, b.sendNewStrings_spec.2, he, List.nil_append, owes, owes,
      hq.inOrder.announce_next hl]
    rfl

/-- A row in order goes to the end of the queue. -/
theorem queue_of_inOrder {row : Pb.WorksheetRow} (h : InOrder (b.rows ++ row :: todo)) :
    queue b.rows row = b.rows ++ [row] := by
  apply if_pos
  cases hl : b.rows.getLast? with
  | none => rfl
  | some last =>
    have := (List.pairwise_append.1 h.ascending).2.2 last (List.mem_of_getLast? hl) row List.mem_cons_self
    simpa using this

/-- Pushing the first of the rows to come queues it, and may flush. -/
theorem push_queues (rt : Runtime) {row : Pb.WorksheetRow} (h : b.Queues [row]) :
    ∃ b', (b.push rt row).result = (true, b') ∧ SameIds b'.strings b.strings ∧ ∀ todo, b.Queues (row :: todo) →
      b'.Queues todo ∧ flatten (b.push rt row).events ++ b'.owes todo = b.owes (row :: todo) := by
  have hqueue := queue_of_inOrder h.inOrder
  have hqueued : ∀ o p n todo, b.Queues (row :: todo) →
      (b.queued row o p n).Queues todo ∧ (b.queued row o p n).owes todo = b.owes (row :: todo) := by
    intro o p n todo hq
    have happ : queue b.rows row ++ todo = b.rows ++ row :: todo := by rw [hqueue, List.append_assoc]; rfl
    refine ⟨⟨?_, ?_⟩, ?_⟩
    · simpa only [queued, happ] using hq.inOrder
    · simpa only [queued, happ] using hq.unsent
    · simp only [owes, queued, happ]
  obtain ⟨o, p, n, ⟨hpush, -⟩ | hpush⟩ := b.push_eq rt row
  · rw [hpush]
    exact ⟨_, rfl, rfl, fun todo hq => hqueued o p n todo hq⟩
  · obtain ⟨b', hr, -, hids, hpays⟩ := flush_queues rt (hqueued o p n [] h).1.inOrder.left
    rw [hpush]
    refine ⟨b', hr, hids, fun todo hq => ?_⟩
    obtain ⟨hq', howes⟩ := hqueued o p n todo hq
    obtain ⟨hq', hflat⟩ := hpays todo hq'
    exact ⟨hq', hflat.trans howes⟩

end

/-! ### Nothing pending -/

/-- A batcher that can deliver `todo` after its queue: none of it is behind
what was sent, and no string waits to be sent before it. -/
structure Ready (b : RowBatcher) (todo : List Pb.WorksheetRow) : Prop where
  inOrder : InOrder (b.rows ++ todo)
  unsent : ∀ i ∈ b.highestSent, ∀ row ∈ b.rows ++ todo, i < row.rowIndex
  drained : ∀ t ∈ b.strings, t.pending = []

/-- What a stretch of the stream does: it takes what it sends off what the
batcher owes, and leaves it ready for what is still to come. -/
structure Pays (b : RowBatcher) (todo : List Pb.WorksheetRow) (b' : RowBatcher) (todo' : List Pb.WorksheetRow)
    (items : List (Item Pb.RangeEvent)) : Prop where
  flat : flatten items ++ b'.owes todo' = b.owes todo
  rowItems : ∀ i ∈ items, RowItem i
  ready : b'.Ready todo'

theorem Pays.trans {b b' b'' : RowBatcher} {todo todo' todo'' : List Pb.WorksheetRow}
    {is js : List (Item Pb.RangeEvent)} (h : Pays b todo b' todo' is) (h' : Pays b' todo' b'' todo'' js) :
    Pays b todo b'' todo'' (is ++ js) where
  flat := by rw [flatten_append, List.append_assoc, h'.flat, h.flat]
  rowItems := List.forall_mem_append.2 ⟨h.rowItems, h'.rowItems⟩
  ready := h'.ready

section

variable {b : RowBatcher} {todo : List Pb.WorksheetRow}

/-- A table with nothing left to send sends nothing. -/
theorem sendNewStrings_drained (h : ∀ t ∈ b.strings, t.pending = []) : b.sendNewStrings = .done (true, b) := by
  unfold sendNewStrings
  cases hs : b.strings with
  | none => rfl
  | some t =>
    have hp : t.pending = [] := h t hs
    obtain ⟨_, _, _, _, _, _, _, _, _, _, _, _⟩ := b
    subst hs
    simp [hp, StringTable.sendChunks]

theorem Ready.queues (h : b.Ready todo) : b.Queues todo := ⟨h.inOrder, h.unsent⟩

theorem Ready.accepts (h : b.Ready todo) : ∀ row ∈ todo, b.accepts row.rowIndex = true := h.queues.accepts

/-- Flushing pays the queue. -/
theorem flush_ready (rt : Runtime) (h : b.Ready todo) :
    ∃ b', (b.flush rt).result = (true, b') ∧ b'.rows = [] ∧ Pays b todo b' todo (b.flush rt).events := by
  obtain ⟨b', hr, hrows, -, hpays⟩ := flush_queues rt h.inOrder.left
  obtain ⟨hq, hflat⟩ := hpays todo h.queues
  refine ⟨b', hr, hrows, ⟨hflat, ?_, hq.inOrder, hq.unsent, ?_⟩⟩
  · by_cases hemp : b.rows = []
    · rw [flush_nil rt b hemp]
      exact List.forall_mem_nil _
    · rw [(b.flush_cons rt hemp).2, sendNewStrings_drained h.drained]
      exact fun i hi => ((b.emptied.sendRuns_runItems _).events i hi).rowItem
  · by_cases hemp : b.rows = []
    · rw [flush_nil rt b hemp] at hr
      obtain rfl : b = b' := congrArg Prod.snd hr
      exact h.drained
    · rw [(b.flush_cons rt hemp).1] at hr
      have hstrings := (b.emptied.sendRuns_runItems (rt.sort b.rows)).result.strings
      rw [hr] at hstrings
      intro t ht
      rw [hstrings] at ht
      obtain ⟨t', -, rfl⟩ := Option.map_eq_some_iff.1 ht
      rfl

/-- Pushing the first of the rows to come queues it, and may flush. -/
theorem push_ready (rt : Runtime) {row : Pb.WorksheetRow} (h : b.Ready (row :: todo)) :
    ∃ b', (b.push rt row).result = (true, b') ∧ Pays b (row :: todo) b' todo (b.push rt row).events := by
  have hqueue := queue_of_inOrder h.inOrder
  have hready : ∀ o p n, (b.queued row o p n).Ready todo ∧ (b.queued row o p n).owes todo = b.owes (row :: todo) := by
    intro o p n
    have happ : queue b.rows row ++ todo = b.rows ++ row :: todo := by rw [hqueue, List.append_assoc]; rfl
    refine ⟨⟨?_, ?_, h.drained⟩, ?_⟩
    · simpa only [queued, happ] using h.inOrder
    · simpa only [queued, happ] using h.unsent
    · simp only [owes, queued, happ]
  obtain ⟨o, p, n, ⟨hpush, -⟩ | hpush⟩ := b.push_eq rt row
  · rw [hpush]
    exact ⟨_, rfl, (hready o p n).2, List.forall_mem_nil _, (hready o p n).1⟩
  · obtain ⟨b', hr, -, hp⟩ := flush_ready rt (hready o p n).1
    rw [hpush]
    exact ⟨b', hr, (hready o p n).2 ▸ hp.flat, hp.rowItems, hp.ready⟩

end

end RowBatcher

end GrpcCalamine
