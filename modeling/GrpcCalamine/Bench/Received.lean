import GrpcCalamine.Service.Lossless
import GrpcCalamine.Service.SortedStream
import GrpcCalamine.Bench.Densify
/-!
# What the gRPC arm makes of a stream

A stream of rows is events, with chunks of the table only where it has one
(`rangeEvents_told`). Where every cell resolves against the entries before it
the arm digests the rows as announced, a gap as wide as the row before it
(`armGrpc_eq`), and a cell as what arrives of the value it was read as
(`digested_read`): that value, but 0.0 for a date serial of -0.0.
-/

namespace GrpcCalamine

open Grid (Announced rowsIn)
open RowBatcher (RunItem)

/-! ## What a stream is made of -/

/-- An event, and a chunk of the table only if `dict`. -/
def Told (dict : Bool) : Item Pb.RangeEvent → Prop
  | .event (.stringTable _) => dict = true
  | .event _ => True
  | .status _ => False

section told

variable {dict : Bool} {rt : Runtime} {r : IncrementalRead}

theorem runItem_told {single : Bool} {sorted : List Pb.WorksheetRow} {i : Item Pb.RangeEvent}
    (h : RunItem single sorted i) : Told dict i := by
  cases h <;> trivial

theorem StringTable.sendChunks_told (n : Nat) (t : StringTable) : (t.sendChunks n).Ensures (Told true) fun _ => True := by
  induction n generalizing t with
  | zero => trivial
  | succ n ih =>
    unfold sendChunks
    cases t.takeChunk with
    | none => trivial
    | some c =>
      refine ⟨rfl, fun ok => ?_⟩
      cases ok with
      | true => exact ih c.2
      | false => trivial

theorem sendNewStrings_told {b : RowBatcher} (h : b.strings.isSome = dict) :
    b.sendNewStrings.Ensures (Told dict) fun p => p.2.strings.isSome = dict := by
  unfold RowBatcher.sendNewStrings
  cases hs : b.strings with
  | none =>
    rw [hs] at h
    exact (congrArg Option.isSome hs).trans h
  | some t =>
    rw [hs] at h
    subst h
    exact (t.sendChunks_told _).bind fun _ _ => rfl

theorem flush_told {b : RowBatcher} (h : b.strings.isSome = dict) :
    (b.flush rt).Ensures (Told dict) fun p => p.2.strings.isSome = dict := by
  unfold RowBatcher.flush
  split
  · exact h
  · have hstrings : ({ b with openedAt := none, pendingBytes := 0 } : RowBatcher).strings.isSome = dict := h
    apply (sendNewStrings_told hstrings).bind
    rintro ⟨ok, b'⟩ hb'
    cases ok with
    | false => exact hb'
    | true =>
      refine (RowBatcher.sendRuns_runItems _ _).mono (fun _ hi => runItem_told hi) ?_
      intro p hmoves
      rw [hmoves.strings]
      exact hb'

theorem push_told {b : RowBatcher} (h : b.strings.isSome = dict) (row : Pb.WorksheetRow) :
    (b.push rt row).Ensures (Told dict) fun p => p.2.strings.isSome = dict := by
  obtain ⟨o, p, n, ⟨hpush, -⟩ | hpush⟩ := b.push_eq rt row
  · rw [hpush]
    exact h
  · rw [hpush]
    exact flush_told h

theorem walkCell_told {w : Walk} (h : w.batcher.strings.isSome = dict) (cell : Nat × Nat × Pb.CellData) :
    (walkCell rt r w cell).Ensures (Told dict) fun o => ∀ w' ∈ o, w'.batcher.strings.isSome = dict := by
  obtain ⟨row, idx, value⟩ := cell
  -- what the walk goes on with, if the push was taken
  have hpush : ∀ (pushed : Pb.WorksheetRow) (go : RowBatcher → Walk), (∀ b, (go b).batcher = b) →
      (w.batcher.push rt pushed >>= fun ok => .done (if ok.1 then some (go ok.2) else none)).Ensures (Told dict)
        fun o => ∀ w' ∈ o, w'.batcher.strings.isSome = dict := by
    intro pushed go hgo
    apply (push_told h pushed).bind
    rintro ⟨ok, b⟩ hb w' hw'
    cases ok with
    | false => cases hw'
    | true =>
      obtain rfl := Option.some.inj hw'
      rw [hgo]
      exact hb
  simp only [walkCell]
  split
  · rintro w' ⟨⟩
    exact h
  · split
    · split
      · exact ⟨trivial, fun _ => by rintro w' ⟨⟩⟩
      · exact hpush _ (fun b => { w with batcher := b }) fun _ => rfl
    · split
      · split
        · exact ⟨trivial, fun _ => by rintro w' ⟨⟩⟩
        · exact hpush _ (fun b => ⟨b, row, true, place [] idx value⟩) fun _ => rfl
      · rintro w' ⟨⟩
        exact h

variable (rt r) in
theorem walkCells_told (cells : List ReadCell) {w : Walk} (h : w.batcher.strings.isSome = dict) :
    (walkCells rt r w cells).Ensures (Told dict) fun o => ∀ w' ∈ o, w'.batcher.strings.isSome = dict := by
  induction cells generalizing w with
  | nil =>
    rintro w' ⟨⟩
    exact h
  | cons c cells ih =>
    have htable : (nextCell r.is1904 w.batcher.strings c).2.isSome = dict := by
      rw [← h]
      unfold nextCell cellValue
      cases w.batcher.strings with
      | none => cases c.value <;> rfl
      | some t => cases c.value <;> rfl
    unfold walkCells
    have hturn : (turn rt r w c).Ensures (Told dict) fun o => ∀ w' ∈ o, w'.batcher.strings.isSome = dict :=
      walkCell_told htable _
    apply hturn.bind
    rintro (- | w') hw'
    · rintro w' ⟨⟩
    · exact ih (hw' w' rfl)

theorem finish_told {w : Walk} (h : w.batcher.strings.isSome = dict) :
    (finish rt r w).Ensures (Told dict) fun _ => True := by
  unfold finish
  split
  · split
    · exact ⟨trivial, fun _ => trivial⟩
    · apply (push_told h _).bind
      rintro ⟨ok, b⟩ hb
      cases ok with
      | false => trivial
      | true => exact (flush_told hb).bind fun _ _ => trivial
  · exact (flush_told h).bind fun _ _ => trivial

variable (rt r) in
theorem rangeEvents_told (maxRows : Nat) (strings : Option StringTable) (tables : List Pb.DeclaredTable)
    (formats : List Pb.NumberFormat) : ∀ i ∈ rangeEvents rt r maxRows strings tables formats, Told strings.isSome i := by
  have htable : (startWalk r maxRows strings tables formats).batcher.strings.isSome = strings.isSome := by
    rw [startWalk_strings]
  have hwalk := walkCells_told rt r r.cells htable
  rw [rangeEvents_eq]
  intro i hi
  rcases List.mem_cons.1 hi with rfl | hi
  · trivial
  rcases List.mem_append.1 hi with hi | hi
  · exact hwalk.events i hi
  · cases hw : (walkCells rt r (startWalk r maxRows strings tables formats) r.cells).result with
    | none =>
      rw [hw] at hi
      cases hi
    | some w =>
      rw [hw] at hi
      cases hf : r.failure with
      | some e =>
        rw [hf] at hi
        rw [List.mem_singleton.1 hi]
        trivial
      | none =>
        rw [hf] at hi
        exact (finish_told (hwalk.result w hw)).events i hi

end told

namespace Bench

/-! ## The arm -/

/-- Every cell of the row arrives as `f` says it is digested, given the entries
received. -/
def Feeds (f : Pb.CellData → DigestCall) (received : List String) (row : Pb.WorksheetRow) : Prop :=
  ∀ v ∈ row.values, GrpcArm.feedCell received v.received = some (f v)

/-- The calls of rows as announced, the row before them `width` wide. -/
def spelled (f : Pb.CellData → DigestCall) : (width : Nat) → List (Announced Pb.WorksheetRow) → List DigestCall
  | _, [] => []
  | _, .row row :: rest => .row row.rowIndex :: row.values.map f ++ spelled f row.values.length rest
  | width, .gap first count :: rest => GrpcArm.gapCalls width first count ++ spelled f width rest

/-- `a'` is `a` once what is announced and these entries are in. -/
structure Takes (f : Pb.CellData → DigestCall) (a : GrpcArm) (announced : List (Announced Pb.WorksheetRow))
    (entries : List String) (a' : GrpcArm) : Prop where
  table : a'.table = a.table ++ entries
  calls : ∀ rest, a'.calls ++ spelled f a'.width rest = a.calls ++ spelled f a.width (announced ++ rest)

section arm

variable {f : Pb.CellData → DigestCall} {a : GrpcArm}

theorem Takes.trans {a' a'' : GrpcArm} {announced announced' : List (Announced Pb.WorksheetRow)}
    {entries entries' : List String} (h : Takes f a announced entries a') (h' : Takes f a' announced' entries' a'') :
    Takes f a (announced ++ announced') (entries ++ entries') a'' where
  table := by rw [h'.table, h.table, List.append_assoc]
  calls rest := by rw [h'.calls, h.calls, List.append_assoc]

/-- A map that never fails. -/
theorem mapM_eq_some {α β : Type} {g : α → Option β} {f : α → β} {l : List α} (h : ∀ x ∈ l, g x = some (f x)) :
    l.mapM g = some (l.map f) := by
  induction l with
  | nil => rfl
  | cons x l ih =>
    obtain ⟨hx, hl⟩ := List.forall_mem_cons.1 h
    rw [List.mapM_cons, hx, ih hl]
    rfl

/-- A row that feeds is taken. -/
theorem feed_takes {row : Pb.WorksheetRow} (h : Feeds f a.table row) :
    ∃ a', a.feed row.received = some a' ∧ Takes f a [.row row] [] a' := by
  refine ⟨{ a with calls := a.calls ++ .row row.rowIndex :: row.values.map f, width := row.values.length }, ?_, ?_, ?_⟩
  · have hcells : row.received.values.mapM (GrpcArm.feedCell a.table) = some (row.values.map f) := by
      rw [Pb.WorksheetRow.received, List.mapM_map]
      exact mapM_eq_some h
    rw [GrpcArm.feed, hcells, Pb.WorksheetRow.received, List.length_map]
    rfl
  · exact (List.append_nil _).symm
  · intro rest
    rw [List.singleton_append, spelled, ← List.append_assoc]

theorem feeds_takes {rows : List Pb.WorksheetRow} (h : ∀ row ∈ rows, Feeds f a.table row) :
    ∃ a', (rows.map Pb.WorksheetRow.received).foldlM GrpcArm.feed a = some a' ∧ Takes f a (rows.map .row) [] a' := by
  induction rows generalizing a with
  | nil => exact ⟨a, rfl, (List.append_nil _).symm, fun _ => rfl⟩
  | cons row rows ih =>
    obtain ⟨hrow, hrows⟩ := List.forall_mem_cons.1 h
    obtain ⟨a₁, hfeed, htakes⟩ := feed_takes hrow
    rw [← List.append_nil a.table, ← htakes.table] at hrows
    obtain ⟨a', hrest, htakes'⟩ := ih hrows
    refine ⟨a', ?_, htakes.trans htakes'⟩
    rw [List.map_cons, List.foldlM_cons, hfeed]
    exact hrest

/-- What arrives of an event that is what it must be is taken. -/
theorem event_takes {e : Pb.RangeEvent} (h : ItemOk (Feeds f) a.table (.event e)) :
    ∃ a', a.event e.received = some a' ∧ Takes f a (rowEvents e) (entriesIn (.event e)) a' := by
  have hquiet : Takes f a [] [] a := ⟨(List.append_nil _).symm, fun _ => rfl⟩
  cases e with
  | row row =>
    have hfeeds : Feeds f ({ a with messages := a.messages + 1 } : GrpcArm).table row := h
    obtain ⟨a', hfeed, htakes⟩ := feed_takes hfeeds
    exact ⟨a', hfeed, htakes.table, htakes.calls⟩
  | rows rows =>
    have hfeeds : ∀ row ∈ rows, Feeds f ({ a with messages := a.messages + 1 } : GrpcArm).table row := h
    obtain ⟨a', hfeed, htakes⟩ := feeds_takes hfeeds
    exact ⟨a', hfeed, htakes.table, htakes.calls⟩
  | rowGap first count =>
    refine ⟨_, rfl, (List.append_nil _).symm, fun rest => ?_⟩
    rw [List.append_assoc]
    rfl
  | stringTable chunk =>
    refine ⟨{ a with table := a.table ++ chunk.entries }, if_pos h.firstId, rfl, fun _ => rfl⟩
  | started _ => exact ⟨a, rfl, hquiet⟩
  | error _ => exact ⟨a, rfl, hquiet⟩

theorem items_takes {dict : Bool} {items : List (Item Pb.RangeEvent)} (h : Defined (Feeds f) a.table items)
    (htold : ∀ i ∈ items, Told dict i) :
    ∃ a', items.foldlM GrpcArm.item a = some a' ∧ Takes f a (flatten items) (entriesOf items) a' := by
  induction items generalizing a with
  | nil => exact ⟨a, rfl, (List.append_nil _).symm, fun _ => rfl⟩
  | cons i items ih =>
    obtain ⟨hi, hitems⟩ := List.forall_mem_cons.1 htold
    cases i with
    | status s => exact hi.elim
    | event e =>
      have hok : ItemOk (Feeds f) a.table (.event e) := by simpa using h [] (.event e) items rfl
      obtain ⟨a₁, hevent, htakes⟩ := event_takes hok
      have hdef : Defined (Feeds f) a₁.table items := by
        intro before j after he
        rw [htakes.table, List.append_assoc]
        exact h (.event e :: before) j after (by rw [he]; rfl)
      obtain ⟨a', hrest, htakes'⟩ := ih hdef hitems
      refine ⟨a', ?_, htakes.trans htakes'⟩
      rw [List.foldlM_cons, GrpcArm.item_event, hevent]
      exact hrest

/-- The arm digests what the stream announces. -/
theorem armGrpc_eq {dict : Bool} {items : List (Item Pb.RangeEvent)} (h : Defined (Feeds f) [] items)
    (htold : ∀ i ∈ items, Told dict i) : ∃ arm, armGrpc items = some arm ∧ arm.calls = spelled f 0 (flatten items) := by
  have hstart : Defined (Feeds f) (⟨[], [], 0, 0⟩ : GrpcArm).table items := h
  obtain ⟨arm, harm, htakes⟩ := items_takes hstart htold
  refine ⟨arm, harm, ?_⟩
  have hcalls := htakes.calls []
  rwa [spelled, List.append_nil, List.append_nil, List.nil_append] at hcalls

end arm

/-! ## Cells as they were read -/

/-- A value read, as the native arms digest it. -/
def digestRef (d : Calamine.DataRef) : DigestCall := (Owned.fromRef d).digestInto

/-- What arrives of a value read. -/
def arriving : Calamine.DataRef → Calamine.DataRef
  | .dateTime dt => .dateTime { dt with value := Pb.doubleReceived dt.value }
  | d => d

/-- A cell sent, as the arm digests what arrives of it with `entries`. -/
def digested (entries : List String) (v : Pb.CellData) : DigestCall :=
  (GrpcArm.feedCell entries v.received).getD (.cell 0 [])

theorem pushPb_dataRefValue (d : Calamine.DataRef) (is1904 : Bool) :
    pushPb (some (Convert.dataRefValue d is1904)) = some (digestRef d) := by
  cases d <;> rfl

theorem pushPb_received (d : Calamine.DataRef) (is1904 : Bool) :
    pushPb (some (Convert.dataRefValue d is1904).received) = some (digestRef (arriving d)) := by
  cases d with
  | int v =>
    have hbytes : Pb.toTwos (Pb.fromTwos (Pb.toTwos v)) = Pb.toTwos v := Pb.toTwos_fromTwos (by unfold Pb.toTwos; omega)
    exact congrArg (fun n => some (DigestCall.cell 1 (Layout.leBytes 8 n))) hbytes
  | _ => rfl

theorem dataRefValue_ne_id (d : Calamine.DataRef) (is1904 : Bool) (id : Nat) :
    Convert.dataRefValue d is1904 ≠ .sharedStringId id := by
  cases d <;> nofun

theorem received_ne_id (d : Calamine.DataRef) (is1904 : Bool) (id : Nat) :
    (Convert.dataRefValue d is1904).received ≠ .sharedStringId id := by
  cases d <;> nofun

theorem nextCell_plain (is1904 : Bool) (c : ReadCell) :
    (nextCell is1904 none c).1.2.2.value = some (Convert.dataRefValue c.value is1904) ∧
      (nextCell is1904 none c).2 = none := by
  unfold nextCell cellValue
  cases c.value <;> exact ⟨rfl, rfl⟩

theorem feedCell_append {entries : List String} {v : Pb.CellData} {call : DigestCall}
    (h : GrpcArm.feedCell entries v = some call) (more : List String) :
    GrpcArm.feedCell (entries ++ more) v = some call := by
  unfold GrpcArm.feedCell at h ⊢
  split at h
  · obtain ⟨text, htext, hcall⟩ := Option.map_eq_some_iff.1 h
    rw [entry_append htext more, Option.map_some, hcall]
  · exact h

section sourced

variable {is1904 : Bool} {pairs : List (ReadCell × (Nat × Nat × Pb.CellData))} {received : List String}

/-- A cell with a source is digested as what arrives of the value read there. -/
theorem feedCell_sourced {row col : Nat} {v : Pb.CellData} (h : Sourced is1904 pairs received row col v) :
    ∃ c, (c, (row, col, v)) ∈ pairs ∧ GrpcArm.feedCell received v.received = some (digestRef (arriving c.value)) := by
  obtain ⟨c, hc, hid, hres⟩ := h
  refine ⟨c, hc, ?_⟩
  have hplain := (nextCell_plain is1904 c).1
  rw [← hres] at hplain
  by_cases hentry : ∃ id, v.value = some (.sharedStringId id)
  · obtain ⟨id, hv⟩ := hentry
    obtain ⟨s, hs, hentry⟩ := hid id hv
    have harrives : v.received.value = some (.sharedStringId id) := by
      rw [Pb.CellData.received, hv]
      rfl
    simp only [GrpcArm.feedCell, harrives, hentry, hs]
    rfl
  · rw [resolve_eq_self fun id hv => hentry ⟨id, hv⟩] at hplain
    have harrives : v.received.value = some (Convert.dataRefValue c.value is1904).received := by
      rw [Pb.CellData.received, hplain]
      rfl
    unfold GrpcArm.feedCell
    rw [harrives]
    split
    · next id hv => exact absurd (Option.some.inj hv) (received_ne_id c.value is1904 id)
    · exact pushPb_received c.value is1904

theorem feeds_of_rowOk {row : Pb.WorksheetRow} (h : RowOk is1904 pairs received row) (more : List String) :
    Feeds (digested (received ++ more)) received row := by
  intro v hv
  have hsome : ∃ call, GrpcArm.feedCell received v.received = some call := by
    obtain ⟨col, hcol⟩ := List.mem_iff_getElem?.1 hv
    rcases h col v hcol with rfl | hs
    · exact ⟨_, rfl⟩
    · obtain ⟨c, -, hfeed⟩ := feedCell_sourced hs
      exact ⟨_, hfeed⟩
  obtain ⟨call, hcall⟩ := hsome
  rw [digested, feedCell_append hcall more, hcall]
  rfl

/-- Where every cell has its source, every row feeds with all the entries there are. -/
theorem feeds_of_sourced {items : List (Item Pb.RangeEvent)} (h : Defined (RowOk is1904 pairs) [] items) :
    Defined (Feeds (digested (entriesOf items))) [] items := by
  intro before i after hsplit
  have hentries : entriesOf items = entriesOf before ++ entriesOf (i :: after) := by rw [hsplit, entriesOf_append]
  have hi := h before i after hsplit
  rw [List.nil_append] at hi ⊢
  rw [hentries]
  cases i with
  | status s => trivial
  | event e =>
    cases e with
    | row row => exact feeds_of_rowOk hi _
    | rows run => exact fun row hrow => feeds_of_rowOk (hi row hrow) _
    | stringTable chunk => exact hi
    | _ => trivial

end sourced

section stream

variable {rt : Runtime} {r : IncrementalRead} {maxRows : Nat} {strings : Option StringTable}
  {tables : List Pb.DeclaredTable} {formats : List Pb.NumberFormat}

/-- Without a table each cell is its own. -/
theorem yields_plain (is1904 : Bool) (cells : List ReadCell) :
    yields is1904 none cells = cells.map fun c => (nextCell is1904 none c).1 := by
  induction cells with
  | nil => rfl
  | cons c cells ih => rw [yields, (nextCell_plain is1904 c).2, ih, List.map_cons]

/-- The cells read, each with what the run makes of it. -/
def readPairs (r : IncrementalRead) (strings : Option StringTable) : List (ReadCell × (Nat × Nat × Pb.CellData)) :=
  r.cells.zip (yields r.is1904 strings r.cells)

/-- A row of the reference of a run without a table. -/
theorem rowOk_reference {row : Pb.WorksheetRow} (h : row ∈ rowsIn (reference r none)) :
    RowOk r.is1904 (readPairs r none) [] row := by
  rw [reference, Grid.rowsIn_announce] at h
  obtain ⟨x, hx, rfl⟩ := List.mem_map.1 h
  obtain ⟨i, hi, rfl⟩ := List.mem_map.1 hx
  intro col v hv
  obtain ⟨hlt, rfl⟩ := List.getElem?_eq_some_iff.1 hv
  rw [Grid.getElem_denseRow]
  cases hlast : Grid.lastAt (kept r.headerRow (yields r.is1904 none r.cells)) i col with
  | none => exact .inl rfl
  | some v =>
    obtain ⟨t, ht, he⟩ := List.mem_map.1 (Grid.lastAt_mem hlast)
    cases he
    rw [yields_plain] at ht
    obtain ⟨c, hc, rfl⟩ := List.mem_map.1 (List.mem_filter.1 ht).1
    have hno : ∀ id, (nextCell r.is1904 none c).1.2.2.value ≠ some (.sharedStringId id) := by
      intro id hid
      rw [(nextCell_plain r.is1904 c).1] at hid
      exact dataRefValue_ne_id _ _ _ (Option.some.inj hid)
    refine .inr ⟨c, ?_, fun id hid => absurd hid (hno id), resolve_eq_self hno _⟩
    rw [readPairs, yields_plain, ← List.map_prod_left_eq_zip]
    exact List.mem_map_of_mem hc

variable (rt maxRows tables formats) in
/-- Every cell of a stream over rows in order has its source, with a table or without. -/
theorem rangeEvents_sourced (hrows : ∀ c ∈ r.cells, c.row < 2 ^ 32)
    (hsorted : r.cells.Pairwise fun c c' => c.row ≤ c'.row) (hfail : r.failure = none)
    (htable : strings = none ∨ strings = some .new ∧ Borrowed (borrows r.cells)) :
    Defined (RowOk r.is1904 (readPairs r strings)) [] (rangeEvents rt r maxRows strings tables formats) := by
  rcases htable with rfl | ⟨rfl, hborrowed⟩
  · have htold := rangeEvents_told rt r maxRows none tables formats
    have hflat := rangeEvents_inOrder rt r maxRows none tables formats hrows hsorted hfail
    refine (Defined.of_rows _ (rowsIn (reference r none)) (fun _ hrow => rowOk_reference hrow) ?_).1
    intro i hi
    have hmem : ∀ e, i = .event e → ∀ row ∈ rowsIn (rowEvents e), row ∈ rowsIn (reference r none) := by
      rintro e rfl row hrow
      rw [← hflat]
      obtain ⟨before, after, hsplit⟩ := List.append_of_mem hi
      rw [hsplit, flatten_append, flatten_event, Grid.rowsIn_append, Grid.rowsIn_append]
      exact List.mem_append_right _ (List.mem_append_left _ hrow)
    have hi' := htold i hi
    cases i with
    | status s => exact hi'.elim
    | event e =>
      cases e with
      | stringTable chunk => cases hi'
      | row row => exact hmem _ rfl row List.mem_cons_self
      | rows run =>
        intro row hrow
        apply hmem _ rfl row
        rw [rowEvents, Grid.rowsIn_map_row]
        exact hrow
      | _ => trivial
  · exact rangeEvents_defined rt r maxRows tables formats hborrowed

theorem exists_of_rowsIn_flatten {items : List (Item Pb.RangeEvent)} {row : Pb.WorksheetRow}
    (h : row ∈ rowsIn (flatten items)) :
    ∃ before e after, items = before ++ .event e :: after ∧ row ∈ rowsIn (rowEvents e) := by
  induction items with
  | nil => cases h
  | cons i items ih =>
    have hlater : row ∈ rowsIn (flatten items) →
        ∃ before e after, i :: items = before ++ .event e :: after ∧ row ∈ rowsIn (rowEvents e) := by
      intro h
      obtain ⟨before, e, after, hsplit, hin⟩ := ih h
      exact ⟨i :: before, e, after, by rw [hsplit]; rfl, hin⟩
    cases i with
    | status s => exact hlater h
    | event e =>
      rw [flatten_event, Grid.rowsIn_append] at h
      rcases List.mem_append.1 h with h | h
      · exact ⟨[], e, items, rfl, h⟩
      · exact hlater h

theorem mem_readPairs {c : ReadCell} {t : Nat × Nat × Pb.CellData} (h : (c, t) ∈ readPairs r strings) :
    c ∈ r.cells ∧ ∃ table, t = (nextCell r.is1904 table c).1 := by
  refine ⟨(List.of_mem_zip h).1, ?_⟩
  unfold readPairs at h
  generalize r.cells = cells at h
  induction cells generalizing strings with
  | nil => cases h
  | cons d cells ih =>
    rcases List.mem_cons.1 h with he | h
    · cases he
      exact ⟨strings, rfl⟩
    · exact ih h

/-- A cell read with a value is kept. -/
theorem nextCell_keeps (is1904 : Bool) {c : ReadCell} (hval : c.value ≠ .empty) (table : Option StringTable) :
    keeps none (nextCell is1904 table c).1 = true := by
  have hvalue : (cellValue c.value is1904 table).1 ≠ .empty := by
    unfold cellValue
    cases hv : c.value with
    | empty => exact absurd hv hval
    | sharedString s => cases table <;> nofun
    | _ => nofun
  simp [keeps, Pb.CellData.isBlank, nextCell, Convert.cellData, hvalue]

theorem yields_positions (is1904 : Bool) (table : Option StringTable) (cells : List ReadCell) :
    (yields is1904 table cells).map (fun t => (t.1, t.2.1)) = cells.map fun c => (c.row, c.col) := by
  induction cells generalizing table with
  | nil => rfl
  | cons c cells ih =>
    rw [yields, List.map_cons, List.map_cons, ih]
    rfl

variable (strings) in
/-- What is kept of cells in order is in order. -/
theorem kept_ordered (hasc : r.cells.Pairwise fun a b => a.row < b.row ∨ a.row = b.row ∧ a.col < b.col) :
    Grid.Ordered (kept r.headerRow (yields r.is1904 strings r.cells)) := by
  have hpairs : ((yields r.is1904 strings r.cells).map fun t => (t.1, t.2.1)).Pairwise fun a b =>
      a.1 < b.1 ∨ a.1 = b.1 ∧ a.2 < b.2 := by
    rw [yields_positions]
    exact List.pairwise_map.2 hasc
  exact List.pairwise_map.2 ((List.pairwise_map.1 hpairs).filter _)

/-- One cell to a position. -/
theorem eq_of_position {cells : List ReadCell}
    (hasc : cells.Pairwise fun a b => a.row < b.row ∨ a.row = b.row ∧ a.col < b.col) {c c' : ReadCell} (hc : c ∈ cells)
    (hc' : c' ∈ cells) (hrow : c.row = c'.row) (hcol : c.col = c'.col) : c = c' := by
  have happart : cells.Pairwise fun a b => a.row ≠ b.row ∨ a.col ≠ b.col := by
    apply hasc.imp
    intro a b h
    omega
  have : Std.Symm fun a b : ReadCell => a.row ≠ b.row ∨ a.col ≠ b.col := ⟨fun a b h => h.imp Ne.symm Ne.symm⟩
  by_contra hne
  rcases happart.forall hc hc' hne with h | h
  · exact h hrow
  · exact h hcol

/-- With all that the stream carries, a cell is digested as what arrives of the
value read. -/
theorem digested_read {items : List (Item Pb.RangeEvent)} (hsourced : Defined (RowOk r.is1904 (readPairs r strings)) [] items)
    (hflat : flatten items = reference r strings) (hheader : r.headerRow = none)
    (hasc : r.cells.Pairwise fun a b => a.row < b.row ∨ a.row = b.row ∧ a.col < b.col)
    {c : ReadCell} {t : Nat × Nat × Pb.CellData} (hp : (c, t) ∈ readPairs r strings) (hval : c.value ≠ .empty) :
    digested (entriesOf items) t.2.2 = digestRef (arriving c.value) := by
  obtain ⟨hc, table, rfl⟩ := mem_readPairs hp
  have hkeeps := nextCell_keeps r.is1904 hval table
  have hordered := kept_ordered strings hasc
  rw [hheader] at hordered
  -- the row it is in, and where
  have hk : (⟨c.row, c.col, (nextCell r.is1904 table c).1.2.2⟩ : Grid.Write Pb.CellData) ∈
      kept none (yields r.is1904 strings r.cells) :=
    List.mem_map.2 ⟨_, List.mem_filter.2 ⟨(List.of_mem_zip hp).2, hkeeps⟩, rfl⟩
  have hlast := hordered.lastAt hk
  have hrow : (⟨c.row, Grid.denseRow Convert.emptyCellData (kept none (yields r.is1904 strings r.cells)) c.row⟩ :
      Pb.WorksheetRow) ∈ rowsIn (flatten items) := by
    rw [hflat, reference, Grid.rowsIn_announce, hheader]
    exact List.mem_map_of_mem (List.mem_map_of_mem ((Grid.mem_populated _ _).2 (List.mem_map_of_mem hk)))
  have hcol : c.col < Grid.width (kept none (yields r.is1904 strings r.cells)) c.row := by
    by_contra hge
    rw [Grid.lastAt_of_width_le _ _ _ (Nat.not_lt.1 hge)] at hlast
    cases hlast
  -- the event that carries it, and the source of the cell in it
  obtain ⟨before, e, after, hsplit, hin⟩ := exists_of_rowsIn_flatten hrow
  have hat : (Grid.denseRow Convert.emptyCellData (kept none (yields r.is1904 strings r.cells)) c.row)[c.col]? =
      some (nextCell r.is1904 table c).1.2.2 := by
    rw [List.getElem?_eq_getElem (by rwa [Grid.length_denseRow]), Grid.getElem_denseRow, hlast]
    rfl
  have hentries : entriesOf items = entriesOf before ++ entriesOf (.event e :: after) := by
    rw [hsplit, entriesOf_append]
  rw [hentries]
  rcases hsourced.row hsplit hin c.col _ hat with hempty | hs
  · have hblank : (nextCell r.is1904 table c).1.2.2.isBlank = true := by
      rw [hempty]
      rfl
    simp [keeps, hblank] at hkeeps
  · obtain ⟨c', hc', hfeed⟩ := feedCell_sourced hs
    rw [List.nil_append] at hfeed
    obtain ⟨hmem, table', hpos⟩ := mem_readPairs hc'
    obtain rfl : c = c' := eq_of_position hasc hc hmem (congrArg (·.1) hpos) (congrArg (·.2.1) hpos)
    rw [digested, feedCell_append hfeed, Option.getD_some]

end stream

end Bench

end GrpcCalamine
