import GrpcCalamine.Service.Batcher
import GrpcCalamine.Lib.Grid
/-!
# What the batcher sends

Every send taken: `flush` announces the sorted queue from the row it expects
next (`flush_spec`), and `push` either queues its row or announces the queue
with it (`push_eq`, `push_sends`). Whatever the answers, what the rows are sent
as is `RunItem` (`sendRuns_runItems`). `Carried` is what an event of a given
carrier looks like.
-/

namespace GrpcCalamine

open Grid (announce expectedAfter Consecutive)

/-- The rows and gaps an event stands for, batches taken apart. -/
def rowEvents : Pb.RangeEvent → List (Grid.Announced Pb.WorksheetRow)
  | .row r => [.row r]
  | .rows rs => rs.map .row
  | .rowGap first count => [.gap first count]
  | _ => []

/-- The rows and gaps sent, batches taken apart. -/
def flatten (items : List (Item Pb.RangeEvent)) : List (Grid.Announced Pb.WorksheetRow) :=
  (eventsOf items).flatMap rowEvents

@[simp] theorem flatten_nil : flatten [] = [] := rfl
@[simp] theorem flatten_append (a b : List (Item Pb.RangeEvent)) : flatten (a ++ b) = flatten a ++ flatten b := by
  simp [flatten]
@[simp] theorem flatten_event (e : Pb.RangeEvent) (items : List (Item Pb.RangeEvent)) :
    flatten (.event e :: items) = rowEvents e ++ flatten items := rfl

/-- Row indices below `u32::MAX`, so that the next one exists. -/
def RowsBelow (rows : List Pb.WorksheetRow) : Prop := ∀ row ∈ rows, row.rowIndex < 2 ^ 32 - 1

theorem RowsBelow.perm {rows rows' : List Pb.WorksheetRow} (h : RowsBelow rows) (hp : rows'.Perm rows) :
    RowsBelow rows' := by
  intro row hr
  exact h row (hp.subset hr)

theorem succ_mod {n : Nat} (h : n < 2 ^ 32 - 1) : (n + 1) % 2 ^ 32 = n + 1 := Nat.mod_eq_of_lt (by omega)

/-! ## String chunks -/

theorem StringTable.chunkLen_bounds (l : List String) (bytes n : Nat) :
    n ≤ chunkLen l bytes n ∧ chunkLen l bytes n ≤ n + l.length := by
  induction l generalizing bytes n with
  | nil => simp [chunkLen]
  | cons s rest ih =>
    unfold chunkLen
    split
    · simp
    · have := ih (bytes + s.utf8ByteSize) (n + 1)
      simp only [List.length_cons]
      omega

/-- A chunk of a non-empty table takes at least one entry. -/
theorem StringTable.chunkLen_pos (s : String) (rest : List String) : 0 < chunkLen (s :: rest) 0 0 := by
  have := (chunkLen_bounds rest (0 + s.utf8ByteSize) 1).1
  simp only [chunkLen, Nat.lt_irrefl, false_and, gt_iff_lt, if_false, Nat.zero_add] at this ⊢
  omega

/-- The table with nothing left to send. -/
def StringTable.drained (t : StringTable) : StringTable := { t with pending := [] }

theorem StringTable.drained_of_nil {t : StringTable} (h : t.pending = []) : t.drained = t := by
  obtain ⟨_, _, _⟩ := t
  subst h
  rfl

/-- Two tables that have given out the same ids. -/
def SameIds (a b : Option StringTable) : Prop :=
  (a.map fun t => (t.index, t.nextId)) = b.map fun t => (t.index, t.nextId)

theorem SameIds.drained (t : Option StringTable) : SameIds (t.map StringTable.drained) t := by
  cases t <;> rfl

theorem StringTable.sendChunks_spec (n : Nat) (t : StringTable) (h : t.pending.length ≤ n) :
    (t.sendChunks n).result = (true, t.drained) ∧ flatten (t.sendChunks n).events = [] := by
  induction n generalizing t with
  | zero =>
    have hp : t.pending = [] := List.length_eq_zero_iff.1 (by omega)
    simp [sendChunks, drained_of_nil hp]
  | succ n ih =>
    cases hp : t.pending with
    | nil => simp [sendChunks, takeChunk, hp, drained_of_nil hp]
    | cons s rest =>
      have hpos := chunkLen_pos s rest
      have hd := ih { t with pending := t.pending.drop (chunkLen t.pending 0 0) } (by
        simp only [hp, List.length_drop, List.length_cons] at h ⊢
        omega)
      simp only [sendChunks, takeChunk, hp, List.isEmpty_cons, Bool.false_eq_true, if_false, sendEvent,
        Emit.ask_bind, Emit.result_send, Emit.events_send, if_true, flatten_event] at hd ⊢
      exact ⟨hd.1, by simpa [rowEvents] using hd.2⟩

namespace RowBatcher

theorem sendNewStrings_spec (b : RowBatcher) :
    b.sendNewStrings.result = (true, { b with strings := b.strings.map StringTable.drained }) ∧
      flatten b.sendNewStrings.events = [] := by
  unfold sendNewStrings
  cases hs : b.strings with
  | none =>
    obtain ⟨_, _, _, _, _, _, _, _, _, _, _, _⟩ := b
    subst hs
    exact ⟨rfl, rfl⟩
  | some t =>
    obtain ⟨hr, he⟩ := StringTable.sendChunks_spec t.pending.length t le_rfl
    simp [hr, he]

/-! ## Runs -/

/-- The batcher after sending `rows`. -/
def past (b : RowBatcher) (rows : List Pb.WorksheetRow) : RowBatcher :=
  match rows.getLast? with
  | some last => { b with nextExpected := some (last.rowIndex + 1), highestSent := some last.rowIndex }
  | none => b

theorem past_nextExpected (b : RowBatcher) (rows : List Pb.WorksheetRow) :
    (b.past rows).nextExpected = expectedAfter (·.rowIndex) b.nextExpected rows := by
  simp only [past, expectedAfter]
  cases rows.getLast? <;> rfl

theorem sendRows_spec (run : List Pb.WorksheetRow) :
    (sendRows run).result = true ∧ (sendRows run).events = run.map fun row => .event (.row row) := by
  induction run with
  | nil => exact ⟨rfl, rfl⟩
  | cons row run ih => simpa [sendRows, sendEvent] using ih

theorem sendCarrier_spec (b : RowBatcher) (run : List Pb.WorksheetRow) :
    (b.sendCarrier run).result = true ∧ flatten (b.sendCarrier run).events = run.map .row := by
  unfold sendCarrier
  split
  · obtain ⟨hr, he⟩ := sendRows_spec run
    refine ⟨hr, ?_⟩
    rw [he]
    clear hr he
    induction run with
    | nil => rfl
    | cons row run ih => simpa [rowEvents] using ih
  · simp [sendEvent, Emit.ask, rowEvents]

theorem sendGap_spec (b : RowBatcher) (row : Pb.WorksheetRow) (rows : List Pb.WorksheetRow) :
    (b.sendGap row.rowIndex).result = true ∧
      announce (·.rowIndex) b.nextExpected (row :: rows) =
        flatten (b.sendGap row.rowIndex).events ++
          .row row :: announce (·.rowIndex) (some (row.rowIndex + 1)) rows := by
  simp only [sendGap, announce]
  cases b.nextExpected with
  | none => simp
  | some e =>
    by_cases h : row.rowIndex > e <;> simp [h, sendEvent, Emit.ask, rowEvents]

/-- What a non-empty run sends: the gap before it, and its carrier. -/
theorem sendRun_cons (b : RowBatcher) (first : Pb.WorksheetRow) (rest : List Pb.WorksheetRow) :
    ∃ last, (first :: rest).getLast? = some last ∧
      (b.sendRun (first :: rest)).result =
        (true, { b with nextExpected := some ((last.rowIndex + 1) % 2 ^ 32), highestSent := some last.rowIndex }) ∧
      (b.sendRun (first :: rest)).events =
        (b.sendGap first.rowIndex).events ++ (b.sendCarrier (first :: rest)).events := by
  obtain ⟨last, hl⟩ : ∃ last, (first :: rest).getLast? = some last := ⟨_, List.getLast?_eq_some_getLast (by simp)⟩
  obtain ⟨hg, -⟩ := b.sendGap_spec first rest
  -- the carrier is chosen by the mode alone, which the run leaves as it was
  obtain ⟨hr, -⟩ := sendCarrier_spec
    { b with nextExpected := some ((last.rowIndex + 1) % 2 ^ 32), highestSent := some last.rowIndex } (first :: rest)
  refine ⟨last, hl, ?_, ?_⟩
  · simp only [sendRun, List.head?_cons, hl, Emit.result_bind, hg, if_true, hr, Emit.pure_eq, Emit.result_done]
  · simp only [sendRun, List.head?_cons, hl, Emit.events_bind, hg, if_true, Emit.pure_eq, Emit.events_done,
      List.append_nil]
    rfl

/-- The batcher after sending `rows`, the next row counted in a `u32`. -/
def reached (b : RowBatcher) (rows : List Pb.WorksheetRow) : RowBatcher :=
  match rows.getLast? with
  | some last => { b with nextExpected := some ((last.rowIndex + 1) % 2 ^ 32), highestSent := some last.rowIndex }
  | none => b

theorem reached_of_getLast {b : RowBatcher} {rows : List Pb.WorksheetRow} {last : Pb.WorksheetRow}
    (hl : rows.getLast? = some last) :
    b.reached rows =
      { b with nextExpected := some ((last.rowIndex + 1) % 2 ^ 32), highestSent := some last.rowIndex } := by
  rw [reached, hl]

theorem reached_append (b : RowBatcher) (rows rows' : List Pb.WorksheetRow) :
    b.reached (rows ++ rows') = (b.reached rows).reached rows' := by
  simp only [reached, List.getLast?_append]
  cases rows'.getLast? <;> cases rows.getLast? <;> rfl

/-- Short of `u32::MAX` nothing wraps. -/
theorem past_eq_reached (b : RowBatcher) {rows : List Pb.WorksheetRow} (hb : RowsBelow rows) :
    b.past rows = b.reached rows := by
  unfold past reached
  cases hl : rows.getLast? with
  | none => rfl
  | some last => simp only [succ_mod (hb last (List.mem_of_getLast? hl))]

/-- The row expected after `rows`, as the batcher counts it: it wraps only
where nothing follows. -/
theorem announce_reached {rows todo : List Pb.WorksheetRow} (hb : todo ≠ [] → RowsBelow rows) {last : Pb.WorksheetRow}
    (hl : rows.getLast? = some last) (start : Option Nat) :
    announce (·.rowIndex) start (rows ++ todo) =
      announce (·.rowIndex) start rows ++ announce (·.rowIndex) (some ((last.rowIndex + 1) % 2 ^ 32)) todo := by
  rw [Grid.announce_append]
  congr 1
  cases todo with
  | nil => rfl
  | cons row todo =>
    have hlast := succ_mod (hb (List.cons_ne_nil _ _) last (List.mem_of_getLast? hl))
    rw [expectedAfter, hl, hlast]

theorem sendRun_reached (b : RowBatcher) (run : List Pb.WorksheetRow) (hc : Consecutive (·.rowIndex) run) :
    (b.sendRun run).result = (true, b.reached run) ∧
      flatten (b.sendRun run).events = announce (·.rowIndex) b.nextExpected run := by
  cases run with
  | nil => exact ⟨rfl, rfl⟩
  | cons first rest =>
    obtain ⟨last, hl, hr, hev⟩ := b.sendRun_cons first rest
    obtain ⟨-, ha⟩ := b.sendGap_spec first rest
    have hrest : announce (·.rowIndex) (some (first.rowIndex + 1)) rest = rest.map .row :=
      Grid.announce_consecutive _ (List.isChain_cons.1 hc).2 (List.isChain_cons.1 hc).1
    obtain ⟨-, he⟩ := b.sendCarrier_spec (first :: rest)
    constructor
    · rw [hr, reached_of_getLast hl]
    · rw [hev, flatten_append, he, ha, hrest]
      rfl

/-- A row that does not break the run extends it. -/
theorem consecutive_concat {run : List Pb.WorksheetRow} {row : Pb.WorksheetRow} (hc : Consecutive (·.rowIndex) run)
    (hrun : RowsBelow run) (hbr : ¬ run.getLast?.any fun last => row.rowIndex ≠ (last.rowIndex + 1) % 2 ^ 32) :
    Consecutive (·.rowIndex) (run ++ [row]) := by
  refine List.isChain_append.2 ⟨hc, .singleton _, ?_⟩
  intro last hl r hr
  simp only [List.head?_cons, Option.mem_def, Option.some.injEq] at hr
  simp only [Option.mem_def] at hl
  simp only [hl, Option.any_some, decide_eq_true_eq, ne_eq, not_not] at hbr
  subst hr
  exact hbr.trans (succ_mod (hrun last (List.mem_of_getLast? hl)))

/-- Splitting into runs announces the rows as they are; only the last of them
can be `u32::MAX`. -/
theorem sendRuns_reached (b : RowBatcher) (queued run : List Pb.WorksheetRow) (hc : Consecutive (·.rowIndex) run)
    (hb : RowsBelow (run ++ queued).dropLast) :
    (b.sendRuns queued run).result = (true, b.reached (run ++ queued)) ∧
      flatten (b.sendRuns queued run).events = announce (·.rowIndex) b.nextExpected (run ++ queued) := by
  induction queued generalizing b run with
  | nil => simpa [sendRuns] using b.sendRun_reached run hc
  | cons row queued ih =>
    rw [List.dropLast_append_of_ne_nil (List.cons_ne_nil _ _)] at hb
    have hrun : RowsBelow run := fun r hr => hb r (List.mem_append_left _ hr)
    have hrest : RowsBelow (row :: queued).dropLast := fun r hr => hb r (List.mem_append_right _ hr)
    simp only [sendRuns]
    by_cases hbr : run.getLast?.any fun last => row.rowIndex ≠ (last.rowIndex + 1) % 2 ^ 32
    · -- the run is complete, and the row begins the next one
      obtain ⟨last, hl, -⟩ := (Option.any_eq_true _ _).1 hbr
      obtain ⟨hr, he⟩ := b.sendRun_reached run hc
      obtain ⟨hr', he'⟩ := ih (b.reached run) [row] (.singleton _) hrest
      rw [List.singleton_append] at hr' he'
      rw [if_pos hbr, reached_append, announce_reached (fun _ => hrun) hl]
      simp only [reached_of_getLast hl] at hr hr' he' ⊢
      simp only [Emit.result_bind, Emit.events_bind, hr, if_true, hr', flatten_append, he, he', and_self]
    · rw [if_neg hbr]
      have := ih b (run ++ [row]) (consecutive_concat hc hrun hbr)
        (by rwa [← List.append_cons, List.dropLast_append_of_ne_nil (List.cons_ne_nil _ _)])
      simpa using this

/-! ## What runs are sent as -/

/-- What sorted rows are sent as: the gaps between them, and the rows one by
one in single mode, in consecutive runs otherwise. -/
inductive RunItem (single : Bool) (sorted : List Pb.WorksheetRow) : Item Pb.RangeEvent → Prop where
  | gap (first : Nat) {count : Nat} : 0 < count → RunItem single sorted (.event (.rowGap first count))
  | row {row : Pb.WorksheetRow} : single = true → row ∈ sorted → RunItem single sorted (.event (.row row))
  | rows {run : List Pb.WorksheetRow} : single = false → run ≠ [] → run.Sublist sorted →
      (RowsBelow sorted → Consecutive (·.rowIndex) run) → RunItem single sorted (.event (.rows run))

/-- Sending rows takes a batcher further, and leaves the rest of it as it
was. -/
structure MovesOn (b b' : RowBatcher) : Prop where
  rows : b'.rows = b.rows
  pendingBytes : b'.pendingBytes = b.pendingBytes
  strings : b'.strings = b.strings
  single : b'.single = b.single
  cap : b'.cap = b.cap

theorem MovesOn.trans {b b' b'' : RowBatcher} (h : MovesOn b b') (h' : MovesOn b' b'') : MovesOn b b'' :=
  ⟨h'.rows.trans h.rows, h'.pendingBytes.trans h.pendingBytes, h'.strings.trans h.strings, h'.single.trans h.single,
    h'.cap.trans h.cap⟩

section runItems
variable {single : Bool} {sorted : List Pb.WorksheetRow}

theorem sendRows_runItems (hs : single = true) {run : List Pb.WorksheetRow} (hrun : ∀ row ∈ run, row ∈ sorted) :
    (sendRows run).Ensures (RunItem single sorted) fun _ => True := by
  induction run with
  | nil => trivial
  | cons row run ih =>
    refine (Emit.ensures_ask (.row hs (hrun row List.mem_cons_self))).bind ?_
    intro ok _
    cases ok with
    | true => exact ih fun r hr => hrun r (List.mem_cons_of_mem _ hr)
    | false => trivial

theorem sendGap_runItems (b : RowBatcher) (first : Nat) :
    (b.sendGap first).Ensures (RunItem single sorted) fun _ => True := by
  unfold sendGap
  cases b.nextExpected with
  | none => trivial
  | some e =>
    simp only []
    split
    · exact Emit.ensures_ask (.gap e (Nat.sub_pos_of_lt ‹_›))
    · trivial

theorem sendRun_runItems (b : RowBatcher) {run : List Pb.WorksheetRow} (hrun : run.Sublist sorted)
    (hc : RowsBelow sorted → Consecutive (·.rowIndex) run) :
    (b.sendRun run).Ensures (RunItem b.single sorted) fun p => MovesOn b p.2 := by
  unfold sendRun
  cases hfirst : run.head? with
  | none => exact ⟨rfl, rfl, rfl, rfl, rfl⟩
  | some first =>
    have hne : run ≠ [] := by
      rintro rfl
      cases hfirst
    obtain ⟨last, hl⟩ : ∃ last, run.getLast? = some last := ⟨_, List.getLast?_eq_some_getLast hne⟩
    rw [hl]
    apply (b.sendGap_runItems first.rowIndex).bind
    intro ok _
    cases ok with
    | false => exact ⟨rfl, rfl, rfl, rfl, rfl⟩
    | true =>
      have hcarrier : (b.sendCarrier run).Ensures (RunItem b.single sorted) fun _ => True := by
        unfold sendCarrier
        split
        · exact sendRows_runItems ‹_› hrun.subset
        · exact Emit.ensures_ask (.rows (Bool.eq_false_iff.2 ‹_›) hne hrun hc)
      exact hcarrier.bind fun _ _ => ⟨rfl, rfl, rfl, rfl, rfl⟩

theorem sendRuns_runItems_of (b : RowBatcher) {queued run : List Pb.WorksheetRow} (hrun : (run ++ queued).Sublist sorted)
    (hc : RowsBelow sorted → Consecutive (·.rowIndex) run) :
    (b.sendRuns queued run).Ensures (RunItem b.single sorted) fun p => MovesOn b p.2 := by
  induction queued generalizing b run with
  | nil =>
    rw [List.append_nil] at hrun
    exact b.sendRun_runItems hrun hc
  | cons row queued ih =>
    have hfirst : run.Sublist sorted := (List.sublist_append_left run _).trans hrun
    have hrest : ([row] ++ queued).Sublist sorted := (List.sublist_append_right run _).trans hrun
    simp only [sendRuns]
    split
    · apply (b.sendRun_runItems hfirst hc).bind
      rintro ⟨ok, b'⟩ hmoves
      cases ok with
      | false => exact hmoves
      | true =>
        have hnext := ih b' hrest fun _ => List.isChain_singleton row
        rw [hmoves.single] at hnext
        exact hnext.mono (fun _ h => h) fun _ h => hmoves.trans h
    · rename_i hbr
      apply ih b
      · rwa [List.append_assoc]
      · intro hb
        exact consecutive_concat (hc hb) (fun r hr => hb r (hfirst.subset hr)) hbr

end runItems

/-- Whatever the answers, splitting a queue sends runs of it. -/
theorem sendRuns_runItems (b : RowBatcher) (queued : List Pb.WorksheetRow) :
    (b.sendRuns queued []).Ensures (RunItem b.single queued) fun p => MovesOn b p.2 :=
  b.sendRuns_runItems_of (List.Sublist.refl queued) fun _ => .nil

/-- A run is sent whole. -/
theorem sendRun_rows (b : RowBatcher) (run : List Pb.WorksheetRow) :
    (∃ b', (b.sendRun run).result = (true, b')) ∧ Grid.rowsIn (flatten (b.sendRun run).events) = run := by
  cases run with
  | nil => exact ⟨⟨b, rfl⟩, rfl⟩
  | cons first rest =>
    obtain ⟨last, -, hr, hev⟩ := b.sendRun_cons first rest
    obtain ⟨-, hcarrier⟩ := b.sendCarrier_spec (first :: rest)
    have hgap : Grid.rowsIn (flatten (b.sendGap first.rowIndex).events) = [] := by
      unfold sendGap
      cases b.nextExpected with
      | none => rfl
      | some e =>
        simp only []
        split <;> rfl
    refine ⟨⟨_, hr⟩, ?_⟩
    rw [hev, flatten_append, Grid.rowsIn_append, hgap, hcarrier, List.nil_append, Grid.rowsIn_map_row]

/-- Whatever the indices are, splitting a queue sends all of it. -/
theorem sendRuns_rows (b : RowBatcher) (queued run : List Pb.WorksheetRow) :
    (b.sendRuns queued run).result.1 = true ∧
      Grid.rowsIn (flatten (b.sendRuns queued run).events) = run ++ queued := by
  induction queued generalizing b run with
  | nil =>
    obtain ⟨⟨b', hr⟩, hrows⟩ := b.sendRun_rows run
    exact ⟨congrArg Prod.fst hr, by rw [List.append_nil]; exact hrows⟩
  | cons row queued ih =>
    simp only [sendRuns]
    split
    · obtain ⟨⟨b', hr⟩, hrows⟩ := b.sendRun_rows run
      obtain ⟨hr', hrows'⟩ := ih b' [row]
      rw [Emit.result_bind, Emit.events_bind, hr]
      exact ⟨hr', by rw [flatten_append, Grid.rowsIn_append, hrows]; exact congrArg (run ++ ·) hrows'⟩
    · obtain ⟨hr', hrows'⟩ := ih b (run ++ [row])
      exact ⟨hr', hrows'.trans (List.append_assoc run [row] queued)⟩

/-! ## Flushing -/

/-- The batcher with an empty queue, its pending strings sent. -/
def emptied (b : RowBatcher) : RowBatcher :=
  { b with rows := [], openedAt := none, pendingBytes := 0, strings := b.strings.map StringTable.drained }

theorem flush_nil (rt : Runtime) (b : RowBatcher) (h : b.rows = []) : b.flush rt = .done (true, b) := by
  simp [flush, h]

/-- What a flush of a non-empty queue sends: the strings that are new, and the runs. -/
theorem flush_cons (rt : Runtime) (b : RowBatcher) (hne : b.rows ≠ []) :
    (b.flush rt).result = (b.emptied.sendRuns (rt.sort b.rows) []).result ∧
      (b.flush rt).events = b.sendNewStrings.events ++ (b.emptied.sendRuns (rt.sort b.rows) []).events := by
  obtain ⟨hr, -⟩ := sendNewStrings_spec { b with openedAt := none, pendingBytes := 0 }
  have hsame : ({ b with openedAt := none, pendingBytes := 0 } : RowBatcher).sendNewStrings.events =
      b.sendNewStrings.events := by
    simp only [sendNewStrings]
    cases b.strings with
    | none => rfl
    | some t => simp
  have hemp : b.rows.isEmpty = false := by simpa using hne
  simp only [flush, hemp, Bool.false_eq_true, if_false, Emit.result_bind, Emit.events_bind, hr, hsame, if_true]
  exact ⟨rfl, rfl⟩

/-- A flush sends every row queued. -/
theorem flush_rows (rt : Runtime) (b : RowBatcher) (hne : b.rows ≠ []) :
    Grid.rowsIn (flatten (b.flush rt).events) = rt.sort b.rows := by
  rw [(b.flush_cons rt hne).2, flatten_append, Grid.rowsIn_append, b.sendNewStrings_spec.2,
    (b.emptied.sendRuns_rows _ _).2]
  rfl

theorem flush_spec (rt : Runtime) (b : RowBatcher) (hne : b.rows ≠ []) (hb : RowsBelow b.rows) :
    (b.flush rt).result = (true, b.emptied.past (rt.sort b.rows)) ∧
      flatten (b.flush rt).events = announce (·.rowIndex) b.nextExpected (rt.sort b.rows) := by
  obtain ⟨hr, he⟩ := b.flush_cons rt hne
  obtain ⟨-, hstrings⟩ := b.sendNewStrings_spec
  have hsorted := hb.perm (rt.sort_perm b.rows)
  obtain ⟨hr', he'⟩ := b.emptied.sendRuns_reached (rt.sort b.rows) [] .nil
    fun row hr => hsorted row (List.mem_of_mem_dropLast hr)
  rw [List.nil_append] at hr' he'
  refine ⟨hr.trans (hr'.trans ?_), ?_⟩
  · rw [past_eq_reached _ hsorted]
  · rw [he, flatten_append, hstrings, List.nil_append, he']
    rfl

/-! ## Carriers -/

/-- What an event after the header may look like: single rows in single mode
only, batches non-empty, consecutive and at most `cap` rows long, gaps never
empty, and no errors. -/
def Carried (single : Bool) (cap : Nat) : Pb.RangeEvent → Prop
  | .row _ => single = true
  | .rows rs => single = false ∧ rs ≠ [] ∧ Consecutive (·.rowIndex) rs ∧ rs.length ≤ cap
  | .rowGap _ count => 0 < count
  | .stringTable _ => True
  | .started _ | .error _ => False

/-- Every item is an event its batcher may send. -/
def AllCarried (b : RowBatcher) (items : List (Item Pb.RangeEvent)) : Prop :=
  ∀ i ∈ items, ∃ e, i = .event e ∧ Carried b.single b.cap e

theorem AllCarried.nil (b : RowBatcher) : AllCarried b [] := nofun

theorem AllCarried.single {b : RowBatcher} {e : Pb.RangeEvent} (h : Carried b.single b.cap e) :
    AllCarried b [.event e] := by
  intro i hi
  exact ⟨e, List.mem_singleton.1 hi, h⟩

theorem AllCarried.append {b : RowBatcher} {is js : List (Item Pb.RangeEvent)} (hi : AllCarried b is)
    (hj : AllCarried b js) : AllCarried b (is ++ js) := by
  intro i h
  rcases List.mem_append.1 h with h | h
  · exact hi i h
  · exact hj i h

theorem AllCarried.congr {b b' : RowBatcher} {is : List (Item Pb.RangeEvent)} (h : AllCarried b is)
    (hs : b'.single = b.single) (hc : b'.cap = b.cap) : AllCarried b' is := by
  unfold AllCarried at h ⊢
  rwa [hs, hc]

theorem sendChunks_carried (b : RowBatcher) (n : Nat) (t : StringTable) : AllCarried b (t.sendChunks n).events := by
  induction n generalizing t with
  | zero => exact .nil b
  | succ n ih =>
    unfold StringTable.sendChunks
    cases t.takeChunk with
    | none => exact .nil b
    | some c =>
      have hone : AllCarried b [.event (.stringTable c.1)] := .single trivial
      exact hone.append (ih c.2)

theorem sendNewStrings_carried (b : RowBatcher) : AllCarried b b.sendNewStrings.events := by
  unfold sendNewStrings
  cases b.strings with
  | none => exact .nil b
  | some t => simpa using sendChunks_carried b _ t

theorem past_single (b : RowBatcher) (rows : List Pb.WorksheetRow) : (b.past rows).single = b.single := by
  unfold past
  cases rows.getLast? <;> rfl

theorem past_cap (b : RowBatcher) (rows : List Pb.WorksheetRow) : (b.past rows).cap = b.cap := by
  unfold past
  cases rows.getLast? <;> rfl

theorem RunItem.carried {b : RowBatcher} {sorted : List Pb.WorksheetRow} (hb : RowsBelow sorted)
    (hlen : sorted.length ≤ b.cap) {i : Item Pb.RangeEvent} (h : RunItem b.single sorted i) :
    ∃ e, i = .event e ∧ Carried b.single b.cap e := by
  cases h with
  | gap first hcount => exact ⟨_, rfl, hcount⟩
  | row hs _ => exact ⟨_, rfl, hs⟩
  | rows hs hne hrun hc => exact ⟨_, rfl, hs, hne, hc hb, hrun.length_le.trans hlen⟩

theorem flush_carried (rt : Runtime) (b : RowBatcher) (hb : RowsBelow b.rows) (hlen : b.rows.length ≤ b.cap) :
    AllCarried b (b.flush rt).events := by
  by_cases hne : b.rows = []
  · rw [flush_nil rt b hne]
    exact .nil b
  · have hp := rt.sort_perm b.rows
    have hruns := b.emptied.sendRuns_runItems (rt.sort b.rows)
    rw [(b.flush_cons rt hne).2]
    apply b.sendNewStrings_carried.append
    intro i hi
    exact (hruns.events i hi).carried (hb.perm hp) (hp.length_eq ▸ hlen)

/-! ## Pushes -/

/-- The queue after a push, before any flush. -/
def queue (rows : List Pb.WorksheetRow) (row : Pb.WorksheetRow) : List Pb.WorksheetRow :=
  if rows.getLast?.all fun last => row.rowIndex > last.rowIndex then rows ++ [row] else mergeQueued rows row

theorem enqueue_eq (rt : Runtime) (b : RowBatcher) (row : Pb.WorksheetRow) :
    ∃ o p n, b.enqueue rt row = { b with rows := queue b.rows row, openedAt := o, pendingBytes := p, reads := n } := by
  unfold enqueue queue
  by_cases he : b.rows.isEmpty = true
  · have hnil : b.rows = [] := by simpa using he
    simp only [hnil, List.isEmpty_nil, if_true, List.getLast?_nil, Option.all_none]
    exact ⟨_, _, _, rfl⟩
  · simp only [he, Bool.false_eq_true, if_false]
    split <;> exact ⟨_, _, _, rfl⟩

theorem length_mergeQueued (rows : List Pb.WorksheetRow) (row : Pb.WorksheetRow) :
    0 < (mergeQueued rows row).length ∧ (mergeQueued rows row).length ≤ rows.length + 1 := by
  induction rows with
  | nil => simp [mergeQueued]
  | cons existing rows ih =>
    simp only [mergeQueued]
    split
    · simp
    · simp only [List.length_cons]
      omega

theorem length_queue (rows : List Pb.WorksheetRow) (row : Pb.WorksheetRow) :
    0 < (queue rows row).length ∧ (queue rows row).length ≤ rows.length + 1 := by
  unfold queue
  split
  · simp
  · exact length_mergeQueued rows row

/-- A batch that stays open is within both caps. -/
theorem flushDue_eq (rt : Runtime) (b : RowBatcher) :
    ∃ due n, b.flushDue rt = (due, { b with reads := n }) ∧
      (due = false → b.rows.length < b.cap ∧ b.pendingBytes < MAX_BATCH_BYTES) := by
  unfold flushDue
  split
  · exact ⟨true, _, rfl, nofun⟩
  · have hlt : b.rows.length < b.cap ∧ b.pendingBytes < MAX_BATCH_BYTES := by omega
    split
    · obtain ⟨_, _, _, _, openedAt, _⟩ := b
      cases openedAt with
      | none => exact ⟨false, _, rfl, fun _ => hlt⟩
      | some t => exact ⟨_, _, rfl, fun _ => hlt⟩
    · exact ⟨false, _, rfl, fun _ => hlt⟩

/-- The batcher with `row` queued, its byte count and clock wherever they are. -/
def queued (b : RowBatcher) (row : Pb.WorksheetRow) (openedAt : Option Nat) (pendingBytes reads : Nat) : RowBatcher :=
  { b with rows := queue b.rows row, openedAt, pendingBytes, reads }

/-- A push queues its row, and either that is all or it flushes the queue. -/
theorem push_eq (rt : Runtime) (b : RowBatcher) (row : Pb.WorksheetRow) :
    ∃ o p n, (b.push rt row = .done (true, b.queued row o p n) ∧ (queue b.rows row).length < b.cap) ∨
      b.push rt row = (b.queued row o p n).flush rt := by
  obtain ⟨o, p, n, he⟩ := b.enqueue_eq rt row
  obtain ⟨due, m, hd, hsmall⟩ := (b.enqueue rt row).flushDue_eq rt
  rw [he] at hd hsmall
  refine ⟨o, p, m, ?_⟩
  cases due with
  | false => exact .inl ⟨by simp [push, he, hd, queued], (hsmall rfl).1⟩
  | true => exact .inr (by simp [push, he, hd, queued])

/-- What was sent so far, and the queue ahead of it: the next row is expected
after the last one sent, and every queued row is past it. -/
structure Delivery (start : Option Nat) (sent : List Pb.WorksheetRow) (b : RowBatcher) : Prop where
  next : b.nextExpected = expectedAfter (·.rowIndex) start sent
  highest : b.highestSent = sent.getLast?.map (·.rowIndex)
  ascending : sent.Pairwise fun x y => x.rowIndex ≤ y.rowIndex
  ahead : ∀ s ∈ sent, ∀ q ∈ b.rows, s.rowIndex < q.rowIndex
  room : b.rows.length < b.cap

/-- The last row sent is the highest one. -/
theorem Delivery.le_highest {start : Option Nat} {sent : List Pb.WorksheetRow} {b : RowBatcher}
    (h : Delivery start sent b) {i : Nat} (hi : b.highestSent = some i) : ∀ s ∈ sent, s.rowIndex ≤ i := by
  intro s hs
  rw [h.highest, Option.map_eq_some_iff] at hi
  obtain ⟨last, hl, rfl⟩ := hi
  obtain ⟨init, rfl⟩ := List.getLast?_eq_some_iff.1 hl
  rcases List.mem_append.1 hs with hs | hs
  · exact (List.pairwise_append.1 h.ascending).2.2 s hs last (List.mem_singleton_self _)
  · rw [List.mem_singleton.1 hs]

theorem Delivery.accepts_iff {start : Option Nat} {sent : List Pb.WorksheetRow} {b : RowBatcher}
    (h : Delivery start sent b) (i : Nat) : b.accepts i = true ↔ ∀ s ∈ sent, s.rowIndex < i := by
  unfold accepts
  cases hi : b.highestSent with
  | none =>
    have : sent = [] := by
      rw [h.highest, Option.map_eq_none_iff] at hi
      exact List.getLast?_eq_none_iff.1 hi
    simp [this]
  | some top =>
    simp only [Option.all_some, decide_eq_true_eq, gt_iff_lt]
    constructor
    · intro hlt s hs
      exact lt_of_le_of_lt (h.le_highest hi s hs) hlt
    · intro hall
      rw [h.highest, Option.map_eq_some_iff] at hi
      obtain ⟨last, hl, rfl⟩ := hi
      exact hall last (List.mem_of_getLast? hl)

/-- What a stretch of the stream does: it sends `new` after `sent`, all of it
carried as it must be, and the batcher goes from `b` to `b'`. -/
structure Sends (start : Option Nat) (sent new : List Pb.WorksheetRow) (b b' : RowBatcher)
    (items : List (Item Pb.RangeEvent)) : Prop where
  flat : flatten items = announce (·.rowIndex) (expectedAfter (·.rowIndex) start sent) new
  carried : AllCarried b items
  cap : b'.cap = b.cap
  single : b'.single = b.single
  delivery : Delivery start (sent ++ new) b'

/-- A stretch that sends nothing. -/
theorem Sends.quiet {start : Option Nat} {sent : List Pb.WorksheetRow} {b b' : RowBatcher}
    (h : Delivery start sent b') (hc : b'.cap = b.cap) (hs : b'.single = b.single) :
    Sends start sent [] b b' [] :=
  ⟨rfl, .nil b, hc, hs, by rwa [List.append_nil]⟩

theorem Sends.trans {start : Option Nat} {sent new new' : List Pb.WorksheetRow} {b b' b'' : RowBatcher}
    {is js : List (Item Pb.RangeEvent)} (h : Sends start sent new b b' is)
    (h' : Sends start (sent ++ new) new' b' b'' js) : Sends start sent (new ++ new') b b'' (is ++ js) where
  flat := by rw [flatten_append, h.flat, h'.flat, Grid.announce_append, Grid.expectedAfter_append]
  carried := h.carried.append (h'.carried.congr h.single.symm h.cap.symm)
  cap := h'.cap.trans h.cap
  single := h'.single.trans h.single
  delivery := by rw [← List.append_assoc]; exact h'.delivery

/-- Flushing a queue that is ahead of what was sent. -/
theorem flush_sends (rt : Runtime) {start : Option Nat} {sent : List Pb.WorksheetRow} {b : RowBatcher}
    (hnext : b.nextExpected = expectedAfter (·.rowIndex) start sent)
    (hasc : sent.Pairwise fun x y => x.rowIndex ≤ y.rowIndex)
    (hahead : ∀ s ∈ sent, ∀ q ∈ b.rows, s.rowIndex < q.rowIndex) (hne : 0 < b.rows.length)
    (hlen : b.rows.length ≤ b.cap) (hb : RowsBelow b.rows) :
    ∃ b', (b.flush rt).result = (true, b') ∧ b'.rows = [] ∧ SameIds b'.strings b.strings ∧
      Sends start sent (rt.sort b.rows) b b' (b.flush rt).events := by
  have hp := rt.sort_perm b.rows
  obtain ⟨hr, hev⟩ := flush_spec rt b (List.length_pos_iff.1 hne) hb
  obtain ⟨last, hl⟩ : ∃ last, (rt.sort b.rows).getLast? = some last :=
    ⟨_, List.getLast?_eq_some_getLast (List.length_pos_iff.1 (hp.length_eq ▸ hne))⟩
  refine ⟨_, hr, ?_, ?_, ⟨by rw [hev, hnext], flush_carried rt b hb hlen, past_cap _ _, past_single _ _,
    ⟨?_, ?_, ?_, ?_, ?_⟩⟩⟩
  · simp [past, hl, emptied]
  · simp only [past, hl]
    exact .drained _
  · rw [past_nextExpected, Grid.expectedAfter_append, ← hnext]
    rfl
  · simp [past, hl]
  · refine List.pairwise_append.2 ⟨hasc, List.pairwise_map.1 (rt.sort_sorted _), ?_⟩
    intro s hs q hq
    exact le_of_lt (hahead s hs q (hp.subset hq))
  · simp [past, hl, emptied]
  · simp only [past, hl, emptied, List.length_nil]
    omega

/-- A push accepted by the batcher sends some of the queue with its row, and
keeps the rest. -/
theorem push_sends (rt : Runtime) {start : Option Nat} {sent : List Pb.WorksheetRow} {b : RowBatcher}
    (h : Delivery start sent b) (row : Pb.WorksheetRow) (hb : RowsBelow (queue b.rows row))
    (hahead : ∀ s ∈ sent, ∀ q ∈ queue b.rows row, s.rowIndex < q.rowIndex) :
    ∃ b' new, (b.push rt row).result = (true, b') ∧ (new ++ b'.rows).Perm (queue b.rows row) ∧
      SameIds b'.strings b.strings ∧ Sends start sent new b b' (b.push rt row).events := by
  have hlen := length_queue b.rows row
  have hroom := h.room
  obtain ⟨o, p, n, ⟨hpush, hsmall⟩ | hpush⟩ := b.push_eq rt row
  · rw [hpush]
    exact ⟨b.queued row o p n, [], rfl, .refl _, rfl, .quiet ⟨h.next, h.highest, h.ascending, hahead, hsmall⟩ rfl rfl⟩
  · obtain ⟨b', hr, hrows, hids, hs⟩ := flush_sends rt (b := b.queued row o p n) h.next h.ascending hahead hlen.1
      (by simp only [queued]; omega) hb
    rw [hpush]
    refine ⟨b', rt.sort (queue b.rows row), hr, ?_, hids, hs.flat, hs.carried, hs.cap, hs.single, hs.delivery⟩
    rw [hrows, List.append_nil]
    exact rt.sort_perm _

/-- Flushing what is left. -/
theorem flush_rest (rt : Runtime) {start : Option Nat} {sent : List Pb.WorksheetRow} {b : RowBatcher}
    (h : Delivery start sent b) (hb : RowsBelow b.rows) :
    ∃ b' new, (b.flush rt).result = (true, b') ∧ new.Perm b.rows ∧
      Sends start sent new b b' (b.flush rt).events := by
  cases hrows : b.rows with
  | nil =>
    rw [flush_nil rt b hrows]
    exact ⟨b, [], rfl, .refl _, .quiet h rfl rfl⟩
  | cons row rows =>
    have hroom := h.room
    obtain ⟨b', hr, -, -, hs⟩ := flush_sends rt h.next h.ascending h.ahead (by simp [hrows]) (by omega) hb
    exact ⟨b', _, hr, hrows ▸ rt.sort_perm b.rows, hs⟩

end RowBatcher

end GrpcCalamine
