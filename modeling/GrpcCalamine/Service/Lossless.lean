import GrpcCalamine.Service.Dictionary
import GrpcCalamine.Service.RangeStream
/-!
# Dictionary mode over a whole stream

Every cell that is queued, under construction or sent is one the run made of a
cell it read there, and resolves to what the plain mode makes of that cell
(`Sourced`). Flushing sends what is pending first, so the rows it sends resolve
against what has been received (`flush_goes`), and so on through the walk to
the end, or to wherever the stream is cut.
-/

namespace GrpcCalamine

/-! ## Cells and their sources -/

/-- The run made `v` of a cell it read at this position, and `all` resolves it
to what the plain mode makes of the cell. -/
def Sourced (is1904 : Bool) (pairs : List (ReadCell × (Nat × Nat × Pb.CellData))) (all : List String) (row col : Nat)
    (v : Pb.CellData) : Prop :=
  ∃ c, (c, (row, col, v)) ∈ pairs ∧
    (∀ id, v.value = some (.sharedStringId id) → ∃ s, c.value = .sharedString s ∧ all[id]? = some s.text) ∧
    resolve all v = (nextCell is1904 none c).1.2.2

/-- Every cell of the row is filler or has its source. -/
def RowOk (is1904 : Bool) (pairs : List (ReadCell × (Nat × Nat × Pb.CellData))) (all : List String)
    (row : Pb.WorksheetRow) : Prop :=
  ∀ col v, row.values[col]? = some v → v = Convert.emptyCellData ∨ Sourced is1904 pairs all row.rowIndex col v

section sources
variable {is1904 : Bool} {pairs : List (ReadCell × (Nat × Nat × Pb.CellData))} {all : List String}

/-- Entries that come later change nothing. -/
theorem Sourced.mono {row col : Nat} {v : Pb.CellData} (h : Sourced is1904 pairs all row col v) (more : List String) :
    Sourced is1904 pairs (all ++ more) row col v := by
  obtain ⟨c, hc, hid, hres⟩ := h
  refine ⟨c, hc, ?_, ?_⟩
  · intro id hv
    obtain ⟨s, hs, hall⟩ := hid id hv
    exact ⟨s, hs, entry_append hall more⟩
  · rw [← hres]
    unfold resolve
    split
    · next id hv =>
      obtain ⟨s, -, hall⟩ := hid id hv
      rw [entry_append hall more, hall]
    · rfl

theorem RowOk.mono {row : Pb.WorksheetRow} (h : RowOk is1904 pairs all row) (more : List String) :
    RowOk is1904 pairs (all ++ more) row := by
  intro col v hv
  rcases h col v hv with hempty | hs
  · exact .inl hempty
  · exact .inr (hs.mono more)

theorem RowOk.nil (i : Nat) : RowOk is1904 pairs all ⟨i, []⟩ := by
  intro col v hv
  cases hv

theorem RowOk.place {i c : Nat} {values : List Pb.CellData} {v : Pb.CellData} (h : RowOk is1904 pairs all ⟨i, values⟩)
    (hv : Sourced is1904 pairs all i c v) : RowOk is1904 pairs all ⟨i, place values c v⟩ := by
  intro col x hx
  rw [getElem?_place] at hx
  split at hx
  · next hc =>
    cases hx
    exact .inr (hc ▸ hv)
  · split at hx
    · cases hg : values[col]? with
      | none =>
        rw [hg] at hx
        exact .inl (Option.some.inj hx).symm
      | some y =>
        rw [hg] at hx
        exact h col x (hg.trans hx)
    · exact h col x hx

theorem RowOk.merge {i : Nat} {into late : List Pb.CellData} (hi : RowOk is1904 pairs all ⟨i, into⟩)
    (hl : RowOk is1904 pairs all ⟨i, late⟩) : RowOk is1904 pairs all ⟨i, mergeRowValues into late⟩ := by
  intro col x hx
  rw [getElem?_mergeRowValues] at hx
  split at hx
  · next v hv =>
    by_cases hc : v.carries = true
    · rw [if_pos hc] at hx
      cases hx
      exact hl col _ hv
    · rw [if_neg hc] at hx
      cases hg : into[col]? with
      | none =>
        rw [hg] at hx
        exact .inl (Option.some.inj hx).symm
      | some y =>
        rw [hg] at hx
        exact hi col x (hg.trans hx)
  · exact hi col x hx

theorem RowOk.queue {rows : List Pb.WorksheetRow} {row : Pb.WorksheetRow}
    (hrows : ∀ x ∈ rows, RowOk is1904 pairs all x) (hrow : RowOk is1904 pairs all row) :
    ∀ x ∈ RowBatcher.queue rows row, RowOk is1904 pairs all x := by
  rcases RowBatcher.queue_cases rows row with ⟨hq, -⟩ | ⟨-, pre, old, post, rfl, he, hq⟩
  · rw [hq]
    intro x hx
    rcases List.mem_append.1 hx with hx | hx
    · exact hrows x hx
    · rwa [List.mem_singleton.1 hx]
  · rw [hq]
    intro x hx
    rcases List.mem_append.1 hx with hx | hx
    · exact hrows x (List.mem_append_left _ hx)
    · rcases List.mem_cons.1 hx with rfl | hx
      · have hold : RowOk is1904 pairs all old := hrows old (by simp)
        apply RowOk.merge hold
        rw [he]
        exact hrow
      · exact hrows x (by simp [hx])

end sources

/-! ## Interning -/

section intern
variable {strs : List Calamine.SharedStr} {received : List String} {t : StringTable}

/-- While a borrow is without an id, there is one left to give. -/
theorem TableInv.room (h : TableInv strs received t) {s : Calamine.SharedStr} (hs : s ∈ strs)
    (hnew : s.key ∉ t.index.map Prod.fst) (hfew : (strs.map (·.key)).dedup.length < 2 ^ 32) :
    t.nextId + 1 < 2 ^ 32 := by
  have hkeys : s.key :: t.index.map Prod.fst ⊆ (strs.map (·.key)).dedup := by
    intro k hk
    rw [List.mem_dedup]
    rcases List.mem_cons.1 hk with rfl | hk
    · exact List.mem_map_of_mem hs
    · obtain ⟨⟨k, id⟩, hp, rfl⟩ := List.mem_map.1 hk
      obtain ⟨s', hs', rfl, -⟩ := h.entry k id hp
      exact List.mem_map_of_mem hs'
  have hlen := (List.subperm_of_subset (List.nodup_cons.2 ⟨hnew, h.keys⟩) hkeys).length_le
  rw [List.length_cons, List.length_map, h.size] at hlen
  omega

/-- Interning gives the place of the text, old or new. -/
theorem StringTable.intern_spec (h : TableInv strs received t) {s : Calamine.SharedStr} (hs : s ∈ strs)
    (hborrow : ∀ s ∈ strs, ∀ s' ∈ strs, s.key = s'.key → s.text = s'.text)
    (hfew : (strs.map (·.key)).dedup.length < 2 ^ 32) :
    TableInv strs received (t.intern s).2 ∧ (∃ more, (t.intern s).2.pending = t.pending ++ more) ∧
      (received ++ (t.intern s).2.pending)[(t.intern s).1]? = some s.text := by
  unfold intern
  cases hl : t.index.lookup s.key with
  | some id =>
    obtain ⟨l₁, l₂, hidx, -⟩ := List.lookup_eq_some_iff.1 hl
    obtain ⟨s', hs', hk, hall⟩ := h.entry s.key id (by rw [hidx]; simp)
    exact ⟨h, ⟨[], (List.append_nil _).symm⟩, by rw [hborrow s hs s' hs' hk.symm]; exact hall⟩
  | none =>
    have hnew : s.key ∉ t.index.map Prod.fst := by
      intro hm
      obtain ⟨p, hp, he⟩ := List.mem_map.1 hm
      have := List.lookup_eq_none_iff.1 hl p hp
      simp [he] at this
    have hroom := h.room hs hnew hfew
    have hnext : (t.nextId + 1) % 2 ^ 32 = t.nextId + 1 := Nat.mod_eq_of_lt hroom
    have hat : (received ++ (t.pending ++ [s.text]))[t.nextId]? = some s.text := by
      rw [← List.append_assoc, h.next]
      exact List.getElem?_concat_length
    refine ⟨⟨?_, ?_, List.nodup_cons.2 ⟨hnew, h.keys⟩, ?_, ?_⟩, ⟨[s.text], rfl⟩, hat⟩
    · show (t.nextId + 1) % 2 ^ 32 = (received ++ (t.pending ++ [s.text])).length
      rw [hnext, ← List.append_assoc, List.length_append, ← h.next]
      rfl
    · intro key id hp
      rcases List.mem_cons.1 hp with he | hp
      · cases he
        exact ⟨s, hs, rfl, hat⟩
      · obtain ⟨s', hs', hk, hall⟩ := h.entry key id hp
        refine ⟨s', hs', hk, ?_⟩
        rw [← List.append_assoc]
        exact entry_append hall [s.text]
    · simp only [hnext, List.length_cons, h.size]
    · simp only [hnext]
      exact hroom

/-- What the run makes of a cell it reads, with the table as it then is. -/
theorem nextCell_sourced {is1904 : Bool} {pairs : List (ReadCell × (Nat × Nat × Pb.CellData))} {c : ReadCell}
    (h : TableInv strs received t) (hc : ∀ s, c.value = .sharedString s → s ∈ strs)
    (hborrow : ∀ s ∈ strs, ∀ s' ∈ strs, s.key = s'.key → s.text = s'.text)
    (hfew : (strs.map (·.key)).dedup.length < 2 ^ 32) (hpair : (c, (nextCell is1904 (some t) c).1) ∈ pairs) :
    ∃ t', (nextCell is1904 (some t) c).2 = some t' ∧ TableInv strs received t' ∧
      (∃ more, t'.pending = t.pending ++ more) ∧
      Sourced is1904 pairs (received ++ t'.pending) c.row c.col (nextCell is1904 (some t) c).1.2.2 := by
  cases hv : c.value with
  | sharedString s =>
    obtain ⟨hinv, hmore, hat⟩ := StringTable.intern_spec h (hc s hv) hborrow hfew
    refine ⟨(t.intern s).2, by simp [nextCell, cellValue, hv], hinv, hmore, c, hpair, ?_, ?_⟩
    · intro id hid
      simp only [nextCell, cellValue, hv, Convert.cellData, Option.some.injEq, Pb.Value.sharedStringId.injEq] at hid
      exact ⟨s, hv, by rw [← hid]; exact hat⟩
    · simp [resolve, nextCell, cellValue, hv, Convert.cellData, hat, Convert.dataRefValue]
  | _ =>
    refine ⟨t, by simp [nextCell, cellValue, hv], h, ⟨[], (List.append_nil _).symm⟩, c, hpair, ?_, ?_⟩
    · simp [nextCell, cellValue, hv, Convert.cellData, Convert.dataRefValue]
    · simp [resolve, nextCell, cellValue, hv, Convert.cellData, Convert.dataRefValue]

end intern

/-! ## Sending rows -/

namespace RowBatcher

theorem RunItem.carriesOnly {single : Bool} {sorted rows : List Pb.WorksheetRow} (hsub : ∀ row ∈ sorted, row ∈ rows)
    {i : Item Pb.RangeEvent} (h : RunItem single sorted i) : CarriesOnly rows i := by
  cases h with
  | gap _ _ => trivial
  | row _ hr => exact hsub _ hr
  | rows _ _ hrun _ => exact fun row hr => hsub row (hrun.subset hr)

end RowBatcher

section batch
variable {is1904 : Bool} {pairs : List (ReadCell × (Nat × Nat × Pb.CellData))} {strs : List Calamine.SharedStr}
  {received : List String} {t : StringTable} {b : RowBatcher}

/-- The batcher's side: its table, and its queue sourced against it. -/
structure BatchOk (is1904 : Bool) (pairs : List (ReadCell × (Nat × Nat × Pb.CellData)))
    (strs : List Calamine.SharedStr) (received : List String) (t : StringTable) (b : RowBatcher) : Prop where
  strings : b.strings = some t
  table : TableInv strs received t
  rows : ∀ row ∈ b.rows, RowOk is1904 pairs (received ++ t.pending) row

/-- Going on from `b` with `received`: what is sent is defined, and the entries
are the same, some of them received now. -/
structure Goes (is1904 : Bool) (pairs : List (ReadCell × (Nat × Nat × Pb.CellData)))
    (strs : List Calamine.SharedStr) (received : List String) (t : StringTable) (items : List (Item Pb.RangeEvent))
    (b' : RowBatcher) : Prop where
  defined : Defined (RowOk is1904 pairs) received items
  next : ∃ t', BatchOk is1904 pairs strs (received ++ entriesOf items) t' b' ∧
    received ++ entriesOf items ++ t'.pending = received ++ t.pending ∧ SameIds (some t') (some t)

theorem Goes.quiet (h : BatchOk is1904 pairs strs received t b) : Goes is1904 pairs strs received t [] b :=
  ⟨.nil _, t, by simpa using h, by simp, rfl⟩

theorem flush_goes (rt : Runtime) (h : BatchOk is1904 pairs strs received t b) :
    ∃ b', (b.flush rt).result = (true, b') ∧ Goes is1904 pairs strs received t (b.flush rt).events b' := by
  cases hrows : b.rows with
  | nil =>
    rw [RowBatcher.flush_nil rt b hrows]
    exact ⟨b, rfl, .quiet h⟩
  | cons row rows =>
    obtain ⟨hr, hflush⟩ := b.flush_cons rt (by simp [hrows])
    have hruns := b.emptied.sendRuns_runItems (rt.sort b.rows)
    have hmoves := hruns.result
    obtain ⟨b', hr'⟩ : ∃ b', (b.emptied.sendRuns (rt.sort b.rows) []).result = (true, b') :=
      ⟨_, Prod.ext (b.emptied.sendRuns_rows _ _).1 rfl⟩
    rw [hr'] at hmoves
    have hi : ∀ i ∈ (b.emptied.sendRuns (rt.sort b.rows) []).events, CarriesOnly b.rows i := fun i h =>
      (hruns.events i h).carriesOnly fun row hrow => (rt.sort_perm b.rows).subset hrow
    obtain ⟨hd, he⟩ := StringTable.sendChunks_defined (RowOk is1904 pairs) t.pending.length t received
      h.table.next h.table.few le_rfl
    have hchunks : b.sendNewStrings.events = (t.sendChunks t.pending.length).events := by
      simp [RowBatcher.sendNewStrings, h.strings]
    obtain ⟨hd', he'⟩ := Defined.of_rows (RowOk is1904 pairs) b.rows h.rows hi
    rw [hchunks] at hflush
    have hentries : entriesOf (b.flush rt).events = t.pending := by
      rw [hflush, entriesOf_append, he, he', List.append_nil]
    refine ⟨b', hr.trans hr', ?_, t.drained, ⟨?_, ?_, ?_⟩, ?_, rfl⟩
    · rw [hflush]
      exact hd.append (by rwa [he])
    · rw [hmoves.strings]
      simp [RowBatcher.emptied, h.strings]
    · -- the entries sent and pending are the same list as before, cut at another place
      rw [hentries]
      exact ⟨by simpa [StringTable.drained] using h.table.next, by simpa [StringTable.drained] using h.table.entry,
        h.table.keys, h.table.size, h.table.few⟩
    · rw [hmoves.rows]
      intro row hrow
      cases hrow
    · rw [hentries]
      simp [StringTable.drained]

theorem push_goes (rt : Runtime) (h : BatchOk is1904 pairs strs received t b) {row : Pb.WorksheetRow}
    (hrow : RowOk is1904 pairs (received ++ t.pending) row) :
    ∃ b', (b.push rt row).result = (true, b') ∧ Goes is1904 pairs strs received t (b.push rt row).events b' := by
  have hq : ∀ o p n, BatchOk is1904 pairs strs received t (b.queued row o p n) :=
    fun o p n => ⟨h.strings, h.table, RowOk.queue h.rows hrow⟩
  obtain ⟨o, p, n, ⟨hpush, -⟩ | hpush⟩ := b.push_eq rt row
  · rw [hpush]
    exact ⟨_, rfl, .quiet (hq o p n)⟩
  · rw [hpush]
    exact flush_goes rt (hq o p n)

end batch

/-! ## Walking -/

section walk
variable {rt : Runtime} {r : IncrementalRead} {pairs : List (ReadCell × (Nat × Nat × Pb.CellData))}
  {strs : List Calamine.SharedStr} {received : List String} {t : StringTable} {w : Walk}

/-- The walk's side: the batcher's, and the row under construction. -/
structure WalkOk (is1904 : Bool) (pairs : List (ReadCell × (Nat × Nat × Pb.CellData)))
    (strs : List Calamine.SharedStr) (received : List String) (t : StringTable) (w : Walk) : Prop where
  batch : BatchOk is1904 pairs strs received t w.batcher
  row : RowOk is1904 pairs (received ++ t.pending) ⟨w.currentRow, w.values⟩
  fresh : w.isOpen = false → w.values = []

/-- What a turn sends is defined, and so is what it goes on with. -/
def WalkGoes (is1904 : Bool) (pairs : List (ReadCell × (Nat × Nat × Pb.CellData)))
    (strs : List Calamine.SharedStr) (received : List String) (t : StringTable)
    (p : Stream Pb.RangeEvent (Option Walk)) : Prop :=
  Defined (RowOk is1904 pairs) received p.events ∧
    ∀ w', p.result = some w' →
      ∃ t', WalkOk is1904 pairs strs (received ++ entriesOf p.events) t' w' ∧ SameIds (some t') (some t)

theorem abortUnsorted_defined (row col : Nat) :
    Defined (RowOk r.is1904 pairs) received (abortUnsorted rt.fmt r.kind r.header.sheetName row col).events := by
  have hnone : ∀ i ∈ (abortUnsorted rt.fmt r.kind r.header.sheetName row col).events, CarriesOnly [] i := by
    intro i hi
    obtain rfl : i = .event (unsortedError rt r row col) := List.mem_singleton.1 hi
    trivial
  exact (Defined.of_rows (RowOk r.is1904 pairs) [] nofun hnone).1

theorem abortUnsorted_goes (row col : Nat) :
    WalkGoes r.is1904 pairs strs received t
      (abortUnsorted rt.fmt r.kind r.header.sheetName row col >>= fun _ => .done none) :=
  ⟨by simpa using abortUnsorted_defined row col, nofun⟩

/-- A push whose outcome the walk goes on with. -/
theorem push_walkGoes (h : BatchOk r.is1904 pairs strs received t w.batcher) {row : Pb.WorksheetRow}
    (hrow : RowOk r.is1904 pairs (received ++ t.pending) row) (go : RowBatcher → Walk)
    (hgo : ∀ b received' t', BatchOk r.is1904 pairs strs received' t' b →
      received' ++ t'.pending = received ++ t.pending → WalkOk r.is1904 pairs strs received' t' (go b)) :
    WalkGoes r.is1904 pairs strs received t
      (w.batcher.push rt row >>= fun ok => .done (if ok.1 then some (go ok.2) else none)) := by
  obtain ⟨b', hr, hg⟩ := push_goes rt h hrow
  obtain ⟨t', hb', hall, hids⟩ := hg.next
  refine ⟨by simpa [hr] using hg.defined, ?_⟩
  intro w' hw'
  refine ⟨t', ?_, hids⟩
  simp only [Emit.result_bind, hr, if_true, Emit.result_done, Option.some.injEq] at hw'
  simp only [Emit.events_bind, hr, if_true, Emit.events_done, List.append_nil]
  exact hw' ▸ hgo b' _ t' hb' hall

variable (rt) in
theorem walkCell_goes (h : WalkOk r.is1904 pairs strs received t w) {row idx : Nat} {value : Pb.CellData}
    (hv : Sourced r.is1904 pairs (received ++ t.pending) row idx value) :
    WalkGoes r.is1904 pairs strs received t (walkCell rt r w (row, idx, value)) := by
  have hstay : ∀ w', WalkOk r.is1904 pairs strs received t w' →
      WalkGoes r.is1904 pairs strs received t (.done (some w')) := by
    intro w' hw'
    refine ⟨.nil _, ?_⟩
    intro w'' he
    obtain rfl : w' = w'' := by simpa using he
    exact ⟨t, by simpa using hw', rfl⟩
  -- a row opened by this cell holds it alone
  have hone : ∀ all, Sourced r.is1904 pairs all row idx value → RowOk r.is1904 pairs all ⟨row, place [] idx value⟩ :=
    fun all hs => (RowOk.nil row).place hs
  by_cases hk : keeps r.headerRow (row, idx, value) = true
  · -- the turn places the cell, or pushes a row first: a late one, or the one under construction
    cases ho : w.isOpen with
    | false =>
      rw [walkCell_placed_eq rt r hk (by simp [ho]), h.fresh ho]
      refine hstay _ ⟨h.batch, hone _ hv, ?_⟩
      intro hclosed
      cases hclosed
    | true =>
      rcases Nat.lt_trichotomy row w.currentRow with hlt | heq | hgt
      · cases ha : w.batcher.accepts row with
        | false =>
          rw [walkCell_lateRefused_eq rt r hk ho hlt ha]
          exact abortUnsorted_goes row idx
        | true =>
          rw [walkCell_late_eq rt r hk ho hlt ha]
          apply push_walkGoes h.batch (hone _ hv) (fun b => { w with batcher := b })
          intro b received' t' hb hall
          refine ⟨hb, ?_, h.fresh⟩
          rw [hall]
          exact h.row
      · subst heq
        rw [walkCell_placed_eq rt r hk fun _ => rfl]
        refine hstay _ ⟨h.batch, h.row.place hv, ?_⟩
        intro hclosed
        cases hclosed
      · cases ha : w.batcher.accepts w.currentRow with
        | false =>
          rw [walkCell_nextRefused_eq rt r hk ho hgt ha]
          exact abortUnsorted_goes _ _
        | true =>
          rw [walkCell_next_eq rt r hk ho hgt ha]
          apply push_walkGoes h.batch h.row (fun b => ⟨b, row, true, place [] idx value⟩)
          intro b received' t' hb hall
          refine ⟨hb, ?_, ?_⟩
          · rw [hall]
            exact hone _ hv
          · intro hclosed
            cases hclosed
  · rw [walkCell_dropped_eq rt r (Bool.eq_false_iff.2 hk)]
    exact hstay w h

/-- The strings a run is given: equal borrows have equal texts, and there are
ids enough. -/
structure Borrowed (strs : List Calamine.SharedStr) : Prop where
  texts : ∀ s ∈ strs, ∀ s' ∈ strs, s.key = s'.key → s.text = s'.text
  few : (strs.map (·.key)).dedup.length < 2 ^ 32

variable (rt) in
theorem turn_goes (hs : Borrowed strs) (h : WalkOk r.is1904 pairs strs received t w) {c : ReadCell}
    (hc : ∀ s, c.value = .sharedString s → s ∈ strs) (hpair : (c, (nextCell r.is1904 (some t) c).1) ∈ pairs) :
    Defined (RowOk r.is1904 pairs) received (turn rt r w c).events ∧
      ∀ w', (turn rt r w c).result = some w' →
        ∃ t', WalkOk r.is1904 pairs strs (received ++ entriesOf (turn rt r w c).events) t' w' ∧
          SameIds (some t') (nextCell r.is1904 (some t) c).2 := by
  obtain ⟨t₁, ht₁, hinv, ⟨more, hmore⟩, hv⟩ := nextCell_sourced h.batch.table hc hs.texts hs.few hpair
  have hall : received ++ t₁.pending = received ++ t.pending ++ more := by rw [hmore, List.append_assoc]
  have h₁ : WalkOk r.is1904 pairs strs received t₁ { w with batcher := { w.batcher with strings := some t₁ } } := by
    refine ⟨⟨rfl, hinv, ?_⟩, ?_, h.fresh⟩
    · intro row hr
      rw [hall]
      exact (h.batch.rows row hr).mono more
    · rw [hall]
      exact h.row.mono more
  obtain ⟨hd, hn⟩ := walkCell_goes rt h₁ hv
  have hturn : turn rt r w c =
      walkCell rt r { w with batcher := { w.batcher with strings := some t₁ } }
        (c.row, c.col, (nextCell r.is1904 (some t) c).1.2.2) := by
    simp only [turn, h.batch.strings, ht₁]
    rfl
  rw [hturn, ht₁]
  exact ⟨hd, hn⟩

variable (rt) in
theorem walkCells_goes (hs : Borrowed strs) {cells : List ReadCell}
    (hc : ∀ c ∈ cells, ∀ s, c.value = .sharedString s → s ∈ strs) (h : WalkOk r.is1904 pairs strs received t w)
    (hpairs : ∀ p ∈ cells.zip (yields r.is1904 (some t) cells), p ∈ pairs) :
    Defined (RowOk r.is1904 pairs) received (walkCells rt r w cells).events ∧
      ∀ w', (walkCells rt r w cells).result = some w' →
        ∃ t', WalkOk r.is1904 pairs strs (received ++ entriesOf (walkCells rt r w cells).events) t' w' := by
  induction cells generalizing received t w with
  | nil =>
    refine ⟨.nil _, ?_⟩
    intro w' he
    obtain rfl : w = w' := by simpa [walkCells] using he
    exact ⟨t, by simpa [walkCells] using h⟩
  | cons c cells ih =>
    obtain ⟨hd, hn⟩ := turn_goes rt hs h (hc c List.mem_cons_self) (hpairs _ List.mem_cons_self)
    cases hw : (turn rt r w c).result with
    | none =>
      obtain ⟨hres, hev⟩ := walkCells_cons_none hw cells
      rw [hres, hev]
      refine ⟨hd, ?_⟩
      intro w' he
      cases he
    | some w₁ =>
      obtain ⟨t₁, h₁, hids⟩ := hn w₁ hw
      obtain ⟨hd', hn'⟩ := ih (fun c' hm => hc c' (List.mem_cons_of_mem _ hm)) h₁ (fun p hp => by
        rw [yields_sameIds _ hids] at hp
        exact hpairs p (List.mem_cons_of_mem _ hp))
      obtain ⟨hres, hev⟩ := walkCells_cons_some hw cells
      rw [hres, hev, entriesOf_append, ← List.append_assoc]
      exact ⟨hd.append hd', hn'⟩

theorem finish_goes (h : WalkOk r.is1904 pairs strs received t w) :
    Defined (RowOk r.is1904 pairs) received (finish rt r w).events := by
  unfold finish
  cases ho : w.isOpen with
  | false =>
    obtain ⟨b', -, hg⟩ := flush_goes rt h.batch
    simpa using hg.defined
  | true =>
    cases ha : w.batcher.accepts w.currentRow with
    | false => simpa using abortUnsorted_defined w.currentRow 0
    | true =>
      obtain ⟨b₁, hr, hg⟩ := push_goes rt h.batch h.row
      obtain ⟨t₁, hb₁, -, -⟩ := hg.next
      obtain ⟨b', -, hg'⟩ := flush_goes rt hb₁
      simpa [hr] using hg.defined.append hg'.defined

end walk

/-! ## The whole stream -/

/-- Looking an id up again finds it again, whatever was interned since. -/
theorem nextCell_lookup (is1904 : Bool) (t : StringTable) (c : ReadCell) {key : Nat × Nat} {id : Nat}
    (h : t.index.lookup key = some id) :
    ∃ t', (nextCell is1904 (some t) c).2 = some t' ∧ t'.index.lookup key = some id := by
  cases hv : c.value with
  | sharedString s =>
    refine ⟨(t.intern s).2, by simp [nextCell, cellValue, hv], ?_⟩
    unfold StringTable.intern
    cases hl : t.index.lookup s.key with
    | some id' => exact h
    | none =>
      have hne : key ≠ s.key := fun he => by rw [he, hl] at h; cases h
      show List.lookup key ((s.key, t.nextId) :: t.index) = some id
      rw [List.lookup_cons, beq_false_of_ne hne]
      exact h
  | _ => exact ⟨t, by simp [nextCell, cellValue, hv], h⟩

/-- Once a borrow has its id, every later cell of that borrow carries it. -/
theorem yields_lookup (is1904 : Bool) (t : StringTable) (cells : List ReadCell) {key : Nat × Nat} {id : Nat}
    (h : t.index.lookup key = some id) {c : ReadCell} {v : Nat × Nat × Pb.CellData} {s : Calamine.SharedStr}
    (hp : (c, v) ∈ cells.zip (yields is1904 (some t) cells)) (hs : c.value = .sharedString s) (hk : s.key = key) :
    v.2.2.value = some (.sharedStringId id) := by
  induction cells generalizing t with
  | nil => cases hp
  | cons d cells ih =>
    rcases List.mem_cons.1 hp with he | hp
    · cases he
      subst hk
      simp [nextCell, cellValue, hs, StringTable.intern, h, Convert.cellData]
    · obtain ⟨t', ht', h'⟩ := nextCell_lookup is1904 t d h
      rw [ht'] at hp
      exact ih t' h' hp

/-- No borrow gets two ids. -/
theorem yields_one_id (is1904 : Bool) (t : StringTable) (cells : List ReadCell) {c c' : ReadCell}
    {v v' : Nat × Nat × Pb.CellData} {s s' : Calamine.SharedStr}
    (hp : (c, v) ∈ cells.zip (yields is1904 (some t) cells))
    (hp' : (c', v') ∈ cells.zip (yields is1904 (some t) cells)) (hs : c.value = .sharedString s)
    (hs' : c'.value = .sharedString s') (hk : s.key = s'.key) : v.2.2.value = v'.2.2.value := by
  induction cells generalizing t with
  | nil => cases hp
  | cons d cells ih =>
    -- The first cell of the borrow fixes the id.
    have hfirst : ∀ s'', d.value = .sharedString s'' → ∃ id t', (nextCell is1904 (some t) d).2 = some t' ∧
        (nextCell is1904 (some t) d).1.2.2.value = some (.sharedStringId id) ∧
        t'.index.lookup s''.key = some id := by
      intro s'' hd
      refine ⟨(t.intern s'').1, (t.intern s'').2, by simp [nextCell, cellValue, hd],
        by simp [nextCell, cellValue, hd, Convert.cellData], ?_⟩
      unfold StringTable.intern
      cases hl : t.index.lookup s''.key with
      | some id => exact hl
      | none => simp
    rcases List.mem_cons.1 hp with he | hp <;> rcases List.mem_cons.1 hp' with he' | hp'
    · cases he
      cases he'
      rfl
    · cases he
      obtain ⟨id, t', ht', hv, hl⟩ := hfirst s hs
      rw [ht'] at hp'
      rw [hv, yields_lookup is1904 t' cells hl hp' hs' hk.symm]
    · cases he'
      obtain ⟨id, t', ht', hv, hl⟩ := hfirst s' hs'
      rw [ht'] at hp
      rw [hv, yields_lookup is1904 t' cells hl hp hs hk]
    · cases hn : (nextCell is1904 (some t) d).2 with
      | none => cases hd : d.value <;> simp [nextCell, cellValue, hd] at hn
      | some t' =>
        rw [hn] at hp hp'
        exact ih t' hp hp'

section stream
variable (rt : Runtime) (r : IncrementalRead) (maxRows : Nat) (tables : List Pb.DeclaredTable)
  (formats : List Pb.NumberFormat)

/-- The cells read, each with what a dictionary run makes of it. -/
def dictionaryPairs : List (ReadCell × (Nat × Nat × Pb.CellData)) :=
  r.cells.zip (yields r.is1904 (some .new) r.cells)

/-- What a dictionary run delivers when its sends are answered by `ans`. -/
def dictionaryItems (ans : Nat → Bool) : List (Item Pb.RangeEvent) :=
  (emitIncremental rt r (rangeBatcher maxRows (some .new) tables formats)).accepted ans

theorem rangeEvents_defined (hs : Borrowed (borrows r.cells)) :
    Defined (RowOk r.is1904 (dictionaryPairs r)) [] (rangeEvents rt r maxRows (some .new) tables formats) := by
  have hstart : WalkOk r.is1904 (dictionaryPairs r) (borrows r.cells) [] .new
      (startWalk r maxRows (some .new) tables formats) := by
    refine ⟨⟨startWalk_strings, .new _, ?_⟩, ?_, fun _ => rfl⟩
    · unfold startWalk Walk.start
      cases r.headerRow <;> exact nofun
    · exact RowOk.nil _
  obtain ⟨hd, hn⟩ := walkCells_goes rt hs (fun c hc s hv => mem_borrows hc hv) hstart (fun p hp => hp)
  rw [rangeEvents_eq]
  refine .cons trivial (hd.append ?_)
  cases hw : (walkCells rt r (startWalk r maxRows (some .new) tables formats) r.cells).result with
  | none => exact .nil _
  | some w =>
    obtain ⟨t', h'⟩ := hn w hw
    cases r.failure with
    | none => exact finish_goes h'
    | some e => exact .cons trivial (.nil _)

/-- Dictionary mode is lossless, however far the stream gets. Every chunk is
non-empty, bounded and starts at the id next in order; every cell of a row
event is filler or was made of a cell read at its position, its id names the
text of that cell's shared string among the entries received before, and so
resolves to what the plain mode makes of the cell; and no borrow has two ids. -/
theorem dictionary_lossless (ans : Nat → Bool)
    (htexts : ∀ s ∈ borrows r.cells, ∀ s' ∈ borrows r.cells, s.key = s'.key → s.text = s'.text)
    (hfew : ((borrows r.cells).map (·.key)).dedup.length < 2 ^ 32) :
    (∀ before chunk after,
      dictionaryItems rt r maxRows tables formats ans = before ++ .event (.stringTable chunk) :: after →
        ChunkOk (entriesOf before) chunk) ∧
    (∀ before e after, dictionaryItems rt r maxRows tables formats ans = before ++ .event e :: after →
      ∀ row ∈ Grid.rowsIn (rowEvents e), RowOk r.is1904 (dictionaryPairs r) (entriesOf before) row) ∧
    (∀ c v s c' v' s', (c, v) ∈ dictionaryPairs r → (c', v') ∈ dictionaryPairs r → c.value = .sharedString s →
      c'.value = .sharedString s' → s.key = s'.key → v.2.2.value = v'.2.2.value) := by
  have hd : Defined (RowOk r.is1904 (dictionaryPairs r)) [] (dictionaryItems rt r maxRows tables formats ans) :=
    (rangeEvents_defined rt r maxRows tables formats ⟨htexts, hfew⟩).of_initial
      ((emitIncremental_stops rt r _).accepted_initial ans)
  refine ⟨?_, ?_, ?_⟩
  · intro before chunk after h
    exact hd before _ after h
  · intro before e after h row hr
    exact hd.row h hr
  · intro c v s c' v' s' hp hp' hs hs' hk
    exact yields_one_id _ _ _ hp hp' hs hs' hk

end stream

/-- Two cells that borrow one string, and a third that borrows another. -/
def sharedRead : IncrementalRead :=
  { numbersRead none [] with
    cells := [⟨0, 0, .sharedString ⟨16, "north"⟩, none, none⟩, ⟨0, 1, .sharedString ⟨32, "south"⟩, none, none⟩,
      ⟨2, 0, .sharedString ⟨16, "north"⟩, none, none⟩] }

theorem dictionary_lossless_shared :
    (∃ chunk, .event (.stringTable chunk) ∈ dictionaryItems insertionRuntime sharedRead 0 [] [] fun _ => true) ∧
      ∀ before e after, (dictionaryItems insertionRuntime sharedRead 0 [] [] fun _ => true) =
          before ++ .event e :: after →
        ∀ row ∈ Grid.rowsIn (rowEvents e), RowOk false (dictionaryPairs sharedRead) (entriesOf before) row :=
  ⟨⟨⟨0, ["north", "south"]⟩, by decide⟩,
    (dictionary_lossless insertionRuntime sharedRead 0 [] [] (fun _ => true) (by decide) (by decide)).2.1⟩

end GrpcCalamine
