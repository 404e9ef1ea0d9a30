import GrpcCalamine.Lib.Receiver
import GrpcCalamine.Service.Served
import GrpcCalamine.Service.Dictionary
/-!
# Clients of a stream

A client takes the events of a stream one by one and refuses whatever breaks
its contract; nothing may follow a status (`Receipt`). What a body sends to the
end is also taken as its consumer receives it, whatever the interleaving
(`served_takes`).

`RangeClient` is what `calamine_service.proto` promises of a range stream: one
header before all else; rows in order, each where it is expected or after the
gap that leads there; batches consecutive and no longer than asked for; ids
only of entries already received; no event after a terminal error. `Terms` are
what the request settles.
-/

namespace GrpcCalamine

open Emit (Stops)
open Grid (Announced announce)
open Receiver (Takes)

/-! ## Events and a status -/

/-- A client, and whether it has had its status. -/
structure Receipt (C : Type) where
  client : C
  ended : Bool

/-- An item received: the client has to take an event, and nothing comes after
a status. -/
def Receipt.take {C T : Type} (take : C → T → Option C) (r : Receipt C) : Item T → Option (Receipt C)
  | .event e => if r.ended then none else (take r.client e).map fun c => ⟨c, false⟩
  | .status _ => if r.ended then none else some ⟨r.client, true⟩

section receipt

variable {C T : Type} {take : C → T → Option C}

/-- After events only, the status may still come. -/
theorem Receipt.run_events {items : List (Item T)} (hev : ∀ i ∈ items, i.isEvent = true) {r r' : Receipt C}
    (hr : r.ended = false) (h : Receiver.run (Receipt.take take) r items = some r') : r'.ended = false := by
  induction items generalizing r with
  | nil => exact Option.some.inj h ▸ hr
  | cons i items ih =>
    obtain ⟨hi, hrest⟩ := List.forall_mem_cons.1 hev
    obtain ⟨r₁, h₁, hrun⟩ := Option.bind_eq_some_iff.1 h
    cases i with
    | status s => cases hi
    | event e =>
      refine ih hrest ?_ hrun
      simp only [Receipt.take, hr, Bool.false_eq_true, if_false, Option.map_eq_some_iff] at h₁
      obtain ⟨c, -, rfl⟩ := h₁
      rfl

/-- A client that takes all a body sends takes what its consumer receives of
it, at any moment of any interleaving. -/
theorem served_takes {body : Stream T Unit} (hstops : Stops body) {c : C} {P : Receipt C → Prop}
    (hbody : Takes (Receipt.take take) ⟨c, false⟩ body.events P) {stale : Option Status} {s : Served T}
    (hreach : Reached body stale s) :
    Takes (Receipt.take take) ⟨c, false⟩ s.received fun r => s.consumer = .ended → P r := by
  have hinv := reached_inv hstops hreach
  have hhonest := hinv.honest
  cases hc : s.consumer with
  | ended =>
    obtain ⟨hrec, htried, -⟩ := hhonest.whole hc
    rw [hrec, htried]
    exact hbody.mono fun r hr _ => hr
  | answered =>
    obtain ⟨evs, st, hrec, hev, hpre, -⟩ := hhonest.cut hc
    obtain ⟨r, hrun, -⟩ := hbody.initial (hpre.trans hinv.tried)
    have hended := Receipt.run_events hev rfl hrun
    rw [hrec]
    refine Takes.append (P := (·.ended = false)) ⟨r, hrun, hended⟩ fun r' hr' => ?_
    have htake : r'.take take (.status st) = some ⟨r'.client, true⟩ := by simp [Receipt.take, hr']
    exact .cons htake (.nil nofun)
  | reading | left =>
    have hpre := (hhonest.unfinished (by simp [hc])).2
    exact (hbody.initial (hpre.trans hinv.tried)).mono fun _ _ => nofun

/-- What a body sends to the end, unless it sends a status, its consumer has
received where the stream ends with none. -/
theorem served_ends {body : Stream T Unit} (hstops : Stops body) {P : List (Item T) → Prop}
    (hbody : (∃ status, body.events = [.status status]) ∨ P body.events) {stale : Option Status} {s : Served T}
    (hreach : Reached body stale s) (hended : s.consumer = .ended) : P s.received := by
  obtain ⟨hreceived, htried, hevents⟩ := (reached_inv hstops hreach).honest.whole hended
  rw [hreceived, htried] at hevents ⊢
  rcases hbody with ⟨status, hev⟩ | hbody
  · rw [hev] at hevents
    exact absurd (hevents _ List.mem_cons_self) nofun
  · exact hbody

/-- A stream refused at once. -/
theorem takes_refused {c : C} (s : Status) {P : Receipt C → Prop} (h : P ⟨c, true⟩) :
    Takes (Receipt.take take) ⟨c, false⟩ [.status s] P :=
  .cons rfl (.nil h)

end receipt

/-! ## Rows and gaps -/

/-- Where a client stands among the rows: the row expected next, the row
received last, and whether a gap still waits for the row it leads to. -/
structure Position where
  expected : Option Nat
  last : Option Nat
  gapOpen : Bool

/-- A row comes where it is expected, or, unless `strict`, once more; a gap
starts where a row is expected, and no gap follows another. -/
def Position.take (strict : Bool) (p : Position) : Announced Pb.WorksheetRow → Option Position
  | .row row =>
    if p.expected.all (· = row.rowIndex) ∨ (strict = false ∧ p.last = some row.rowIndex) then
      some ⟨some (row.rowIndex + 1), some row.rowIndex, false⟩
    else none
  | .gap first count =>
    if 0 < count ∧ p.expected = some first ∧ p.gapOpen = false then some ⟨some (first + count), none, true⟩ else none

/-- Rows may follow from `p`: they ascend, from where the next is expected. -/
structure Position.Fits (strict : Bool) (p : Position) (rows : List Pb.WorksheetRow) : Prop where
  closed : p.gapOpen = false
  ascending : rows.Pairwise fun x y => x.rowIndex ≤ y.rowIndex
  once : strict = true → rows.Pairwise fun x y => x.rowIndex < y.rowIndex
  first : ∀ e ∈ p.expected, ∀ row ∈ rows.head?, e ≤ row.rowIndex ∨ (strict = false ∧ p.last = some row.rowIndex)

/-- The row itself, where it is expected or once more. -/
theorem Position.take_row {strict : Bool} {p : Position} {row : Pb.WorksheetRow}
    (h : ∀ e ∈ p.expected, e = row.rowIndex ∨ (strict = false ∧ p.last = some row.rowIndex)) :
    p.take strict (.row row) = some ⟨some (row.rowIndex + 1), some row.rowIndex, false⟩ := by
  apply if_pos
  cases he : p.expected with
  | none => exact .inl rfl
  | some e =>
    rcases h e he with rfl | hagain
    · exact .inl (by simp)
    · exact .inr hagain

/-- Rows announced from where the next is expected are taken. -/
theorem Position.takes_announce {strict : Bool} {p : Position} {rows : List Pb.WorksheetRow} (h : p.Fits strict rows) :
    Takes (Position.take strict) p (announce (·.rowIndex) p.expected rows) (·.gapOpen = false) := by
  induction rows generalizing p with
  | nil => exact .nil h.closed
  | cons row rows ih =>
    obtain ⟨hle, hasc⟩ := List.pairwise_cons.1 h.ascending
    have hnext : Position.Fits strict ⟨some (row.rowIndex + 1), some row.rowIndex, false⟩ rows := by
      refine ⟨rfl, hasc, fun hs => (List.pairwise_cons.1 (h.once hs)).2, ?_⟩
      intro e he next hn
      obtain rfl : row.rowIndex + 1 = e := by simpa using he
      have hmem : next ∈ rows := List.mem_of_head? hn
      rcases Nat.lt_or_ge row.rowIndex next.rowIndex with hlt | hge
      · exact .inl hlt
      · right
        have heq : row.rowIndex = next.rowIndex := Nat.le_antisymm (hle next hmem) hge
        refine ⟨?_, congrArg some heq⟩
        rw [Bool.eq_false_iff]
        intro hs
        exact Nat.ne_of_lt ((List.pairwise_cons.1 (h.once hs)).1 next hmem) heq
    have hrow := ih hnext
    by_cases hgap : ∃ e ∈ p.expected, e < row.rowIndex
    · obtain ⟨e, he, hlt⟩ := hgap
      have hp : p.take strict (.gap e (row.rowIndex - e)) = some ⟨some row.rowIndex, none, true⟩ := by
        simp only [Position.take, Nat.sub_pos_of_lt hlt, Option.mem_def.1 he, h.closed, and_self, if_true,
          Nat.add_sub_cancel' (Nat.le_of_lt hlt)]
      simp only [announce, Option.mem_def.1 he, gt_iff_lt, hlt, if_true, List.singleton_append]
      refine .cons hp (.cons (Position.take_row ?_) hrow)
      intro e' he'
      exact .inl (Option.some.inj he').symm
    · have hnone : announce (·.rowIndex) p.expected (row :: rows) =
          .row row :: announce (·.rowIndex) (some (row.rowIndex + 1)) rows := by
        cases he : p.expected with
        | none => rfl
        | some e =>
          have hle : ¬ row.rowIndex > e := fun hlt => hgap ⟨e, he, hlt⟩
          simp only [announce, hle, if_false, List.nil_append]
      rw [hnone]
      refine .cons (Position.take_row ?_) hrow
      intro e he
      rcases h.first e he row rfl with hle | hagain
      · left
        exact Nat.le_antisymm hle (Nat.le_of_not_lt fun hlt => hgap ⟨e, he, hlt⟩)
      · exact .inr hagain

/-! ## The client -/

/-- What a request settles: single rows or batches, how many rows a batch may
hold, whether there is a string table, whether a row may come twice, and the
row a stream with this header opens at, if it opens at one. -/
structure Terms where
  single : Bool
  cap : Nat
  dictionary : Bool
  strict : Bool
  opening : Pb.RangeStarted → Option Nat

/-- The cell is no id, or one of the first `entries`. -/
def Pb.CellData.known (entries : Nat) (v : Pb.CellData) : Bool :=
  match v.value with
  | some (.sharedStringId id) => id < entries
  | _ => true

def Pb.WorksheetRow.Known (entries : Nat) (row : Pb.WorksheetRow) : Prop := ∀ v ∈ row.values, v.known entries = true

instance (entries : Nat) (row : Pb.WorksheetRow) : Decidable (row.Known entries) :=
  inferInstanceAs (Decidable (∀ v ∈ row.values, v.known entries = true))

instance (rows : List Pb.WorksheetRow) : Decidable (Grid.Consecutive (·.rowIndex) rows) :=
  inferInstanceAs (Decidable (List.IsChain _ rows))

/-- What an event after the header may be, with this many entries received. -/
def Terms.Allows (t : Terms) (entries : Nat) : Pb.RangeEvent → Prop
  | .row row => t.single = true ∧ row.Known entries
  | .rows rows => (t.single = false ∧ rows ≠ [] ∧ Grid.Consecutive (·.rowIndex) rows ∧ rows.length ≤ t.cap) ∧
      ∀ row ∈ rows, row.Known entries
  | .rowGap _ _ => True
  | .stringTable chunk => t.dictionary = true ∧ chunk.entries ≠ [] ∧ chunk.firstId = entries
  | .started _ | .error _ => False

instance (t : Terms) (entries : Nat) : (e : Pb.RangeEvent) → Decidable (t.Allows entries e)
  | .row _ => inferInstanceAs (Decidable (_ ∧ _))
  | .rows _ => inferInstanceAs (Decidable ((_ ∧ _ ∧ _ ∧ _) ∧ _))
  | .rowGap _ _ => inferInstanceAs (Decidable True)
  | .stringTable _ => inferInstanceAs (Decidable (_ ∧ _ ∧ _))
  | .started _ | .error _ => inferInstanceAs (Decidable False)

structure RangeClient where
  started : Bool
  /-- A terminal error has come. -/
  failed : Bool
  position : Position
  entries : Nat

/-- A client that has received nothing. -/
def RangeClient.fresh : RangeClient :=
  { started := false, failed := false, position := ⟨none, none, false⟩, entries := 0 }

/-- An event received; `none` if it breaks the contract. -/
def RangeClient.take (t : Terms) (c : RangeClient) (e : Pb.RangeEvent) : Option RangeClient :=
  if c.failed then none
  else match e with
    | .error e =>
      if e.error.isSome ∧ e.terminal = true ∧ c.position.gapOpen = false then some { c with failed := true } else none
    | .started header =>
      if c.started then none else some { c with started := true, position := ⟨t.opening header, none, false⟩ }
    | e =>
      if c.started = true ∧ t.Allows c.entries e then
        (Receiver.run (Position.take t.strict) c.position (rowEvents e)).map fun p =>
          { c with position := p, entries := c.entries + (entriesIn (.event e)).length }
      else none

/-- The stream may end here: it has had its header or an end, and no gap waits
for a row. -/
def RangeClient.MayEnd (r : Receipt RangeClient) : Prop :=
  (r.client.started = true ∨ r.client.failed = true ∨ r.ended = true) ∧ r.client.position.gapOpen = false

/-- In the midst of a stream. -/
structure RangeClient.Open (entries : Nat) (r : Receipt RangeClient) : Prop where
  started : r.client.started = true
  going : r.client.failed = false ∧ r.ended = false
  entries : r.client.entries = entries
  closed : r.client.position.gapOpen = false

section client

variable {t : Terms} {c : RangeClient}

theorem RangeClient.take_error (h : c.failed = false) (hgap : c.position.gapOpen = false) (err : Pb.CalamineError) :
    c.take t (.error { error := some err, terminal := true }) = some { c with failed := true } := by
  simp [take, h, hgap]

theorem RangeClient.take_allowed (hs : c.started = true) (h : c.failed = false) {e : Pb.RangeEvent}
    (ha : t.Allows c.entries e) :
    c.take t e = (Receiver.run (Position.take t.strict) c.position (rowEvents e)).map fun p =>
      { c with position := p, entries := c.entries + (entriesIn (.event e)).length } := by
  cases e with
  | started _ => exact ha.elim
  | error _ => exact ha.elim
  | _ => simp [take, hs, h, ha]

/-- Allowed events that announce rows where they are expected are taken. -/
theorem RangeClient.takes_allowed (hs : c.started = true) (hg : c.failed = false) {items : List (Item Pb.RangeEvent)}
    (hallows : ∀ before i after, items = before ++ i :: after →
      ∃ e, i = .event e ∧ t.Allows (c.entries + (entriesOf before).length) e)
    (hplace : Takes (Position.take t.strict) c.position (flatten items) (·.gapOpen = false)) :
    Takes (Receipt.take (RangeClient.take t)) ⟨c, false⟩ items
      (RangeClient.Open (c.entries + (entriesOf items).length)) := by
  induction items generalizing c with
  | nil =>
    obtain ⟨p, hp, hclosed⟩ := hplace
    obtain rfl : c.position = p := Option.some.inj hp
    exact .nil ⟨hs, ⟨hg, rfl⟩, rfl, hclosed⟩
  | cons i items ih =>
    obtain ⟨e, rfl, he⟩ := hallows [] i items rfl
    obtain ⟨p', hp', hclosed⟩ := hplace
    rw [flatten_event, Receiver.run_append] at hp'
    obtain ⟨p, hp, hrest⟩ := Option.bind_eq_some_iff.1 hp'
    have htake : Receipt.take (RangeClient.take t) ⟨c, false⟩ (.event e) =
        some ⟨{ c with position := p, entries := c.entries + (entriesIn (.event e)).length }, false⟩ := by
      simp only [Receipt.take, take_allowed hs hg he, hp, Bool.false_eq_true, if_false, Option.map_some]
    refine .cons htake ?_
    have hstep := ih (c := { c with position := p, entries := c.entries + (entriesIn (.event e)).length }) hs hg
      (fun before j after hsplit => by
        obtain ⟨e', hj, ha⟩ := hallows (.event e :: before) j after (by rw [hsplit]; rfl)
        refine ⟨e', hj, ?_⟩
        rwa [entriesOf_cons, List.length_append, ← Nat.add_assoc] at ha)
      ⟨p', hrest, hclosed⟩
    rwa [entriesOf_cons, List.length_append, ← Nat.add_assoc]

end client

end GrpcCalamine
