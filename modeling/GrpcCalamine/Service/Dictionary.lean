import GrpcCalamine.Service.Stops
import GrpcCalamine.Service.Contents
/-!
# Dictionary mode

With `use_string_table` a shared string leaves as an id, and its text in a
chunk sent before the first row event that needs it. `Defined` says so of what
is sent, item by item. It rests on one list that only grows: the entries sent
and those still pending (`TableInv`), against which every cell that is queued
or under construction resolves (`RowOk`).
-/

namespace GrpcCalamine

open Emit (accepted)

/-! ## What is received -/

/-- The string entries an item carries. -/
def entriesIn : Item Pb.RangeEvent → List String
  | .event (.stringTable chunk) => chunk.entries
  | _ => []

/-- The entries received, in order of arrival. -/
def entriesOf (items : List (Item Pb.RangeEvent)) : List String := items.flatMap entriesIn

@[simp] theorem entriesOf_nil : entriesOf [] = [] := rfl
@[simp] theorem entriesOf_cons (i : Item Pb.RangeEvent) (items : List (Item Pb.RangeEvent)) :
    entriesOf (i :: items) = entriesIn i ++ entriesOf items := rfl
@[simp] theorem entriesOf_append (is js : List (Item Pb.RangeEvent)) :
    entriesOf (is ++ js) = entriesOf is ++ entriesOf js := by
  simp [entriesOf]

/-- An entry keeps its place when more are received. -/
theorem entry_append {entries : List String} {id : Nat} {text : String} (h : entries[id]? = some text)
    (more : List String) : (entries ++ more)[id]? = some text := by
  obtain ⟨hlt, -⟩ := List.getElem?_eq_some_iff.1 h
  rw [List.getElem?_append_left hlt, h]

/-- A cell with its id looked up in what was received. -/
def resolve (entries : List String) (v : Pb.CellData) : Pb.CellData :=
  match v.value with
  | some (.sharedStringId id) => { v with value := (entries[id]?).map .sharedStringValue }
  | _ => v

/-- A cell without an id stays as it is. -/
theorem resolve_eq_self {v : Pb.CellData} (h : ∀ id, v.value ≠ some (.sharedStringId id)) (entries : List String) :
    resolve entries v = v := by
  unfold resolve
  split
  · next id hid => exact absurd hid (h id)
  · rfl

/-- A chunk of the table, after `entries`. -/
structure ChunkOk (entries : List String) (chunk : Pb.StringTableChunk) : Prop where
  nonempty : chunk.entries ≠ []
  firstId : chunk.firstId = entries.length
  bounded : (chunk.entries.map (·.utf8ByteSize)).sum ≤ MAX_STRING_CHUNK_BYTES ∨ chunk.entries.length = 1

section defined
variable (ok : List String → Pb.WorksheetRow → Prop)

/-- What an item must be when `entries` were received before it. -/
def ItemOk (entries : List String) : Item Pb.RangeEvent → Prop
  | .event (.stringTable chunk) => ChunkOk entries chunk
  | .event (.row row) => ok entries row
  | .event (.rows rows) => ∀ row ∈ rows, ok entries row
  | _ => True

/-- Every item is what it must be, given the entries before it. -/
def Defined (entries : List String) (items : List (Item Pb.RangeEvent)) : Prop :=
  ∀ before i after, items = before ++ i :: after → ItemOk ok (entries ++ entriesOf before) i

variable {ok}

theorem Defined.nil (entries : List String) : Defined ok entries [] := by
  intro before i after h
  cases before <;> cases h

theorem Defined.cons {entries : List String} {i : Item Pb.RangeEvent} {items : List (Item Pb.RangeEvent)}
    (hi : ItemOk ok entries i) (h : Defined ok (entries ++ entriesIn i) items) : Defined ok entries (i :: items) := by
  intro before j after he
  cases before with
  | nil =>
    obtain ⟨rfl, -⟩ := List.cons.inj he
    simpa using hi
  | cons k before =>
    obtain ⟨rfl, htail⟩ := List.cons.inj he
    rw [entriesOf_cons, ← List.append_assoc]
    exact h before j after htail

theorem Defined.append {entries : List String} {is js : List (Item Pb.RangeEvent)} (hi : Defined ok entries is)
    (hj : Defined ok (entries ++ entriesOf is) js) : Defined ok entries (is ++ js) := by
  induction is generalizing entries with
  | nil => simpa using hj
  | cons i is ih =>
    have hhead : ItemOk ok entries i := by simpa using hi [] i is rfl
    apply Defined.cons hhead
    apply ih
    · intro before j after he
      have := hi (i :: before) j after (by rw [he]; rfl)
      rwa [entriesOf_cons, ← List.append_assoc] at this
    · rwa [entriesOf_cons, ← List.append_assoc] at hj

/-- A row sent is what a row must be, given the entries before it. -/
theorem Defined.row {entries : List String} {items before after : List (Item Pb.RangeEvent)} {e : Pb.RangeEvent}
    (h : Defined ok entries items) (hsplit : items = before ++ .event e :: after) {row : Pb.WorksheetRow}
    (hrow : row ∈ Grid.rowsIn (rowEvents e)) : ok (entries ++ entriesOf before) row := by
  have hi : ItemOk ok (entries ++ entriesOf before) (.event e) := h before _ after hsplit
  cases e with
  | row x =>
    obtain rfl : row = x := List.mem_singleton.1 hrow
    exact hi
  | rows run =>
    rw [rowEvents, Grid.rowsIn_map_row] at hrow
    exact hi row hrow
  | _ => cases hrow

/-- A stream cut short is as well defined as the whole. -/
theorem Defined.of_initial {entries : List String} {is js : List (Item Pb.RangeEvent)} (h : Defined ok entries js)
    (hp : is <+: js) : Defined ok entries is := by
  obtain ⟨rest, rfl⟩ := hp
  intro before i after he
  exact h before i (after ++ rest) (by rw [he]; simp)

/-- An item that carries only these rows, and no entries. -/
def CarriesOnly (rows : List Pb.WorksheetRow) : Item Pb.RangeEvent → Prop
  | .event (.row row) => row ∈ rows
  | .event (.rows run) => ∀ row ∈ run, row ∈ rows
  | .event (.stringTable _) => False
  | _ => True

variable (ok) in
/-- Items that carry only rows, each of them good. -/
theorem Defined.of_rows {entries : List String} (rows : List Pb.WorksheetRow) {items : List (Item Pb.RangeEvent)}
    (hrows : ∀ row ∈ rows, ok entries row) (h : ∀ i ∈ items, CarriesOnly rows i) :
    Defined ok entries items ∧ entriesOf items = [] := by
  induction items with
  | nil => exact ⟨.nil _, rfl⟩
  | cons i items ih =>
    obtain ⟨hd, he⟩ := ih fun j hj => h j (List.mem_cons_of_mem _ hj)
    have hi := h i List.mem_cons_self
    have hentries : entriesIn i = [] := by
      cases i with
      | status s => rfl
      | event e => cases e with
        | stringTable chunk => exact hi.elim
        | _ => rfl
    have hok : ItemOk ok entries i := by
      cases i with
      | status s => trivial
      | event e => cases e with
        | stringTable chunk => exact hi.elim
        | row row => exact hrows row hi
        | rows run => exact fun row hr => hrows row (hi row hr)
        | _ => trivial
    exact ⟨.cons hok (by rwa [hentries, List.append_nil]), by rw [entriesOf_cons, hentries, he]; rfl⟩

end defined

/-! ## The table -/

/-- The shared strings the cells borrow. -/
def borrows (cells : List ReadCell) : List Calamine.SharedStr :=
  cells.filterMap fun c =>
    match c.value with
    | .sharedString s => some s
    | _ => none

theorem mem_borrows {cells : List ReadCell} {c : ReadCell} {s : Calamine.SharedStr} (hc : c ∈ cells)
    (hs : c.value = .sharedString s) : s ∈ borrows cells := by
  refine List.mem_filterMap.2 ⟨c, hc, ?_⟩
  rw [hs]

/-- The ids given out are the places of their texts in `all`, the entries
already sent and those pending. -/
structure TableInv (strs : List Calamine.SharedStr) (received : List String) (t : StringTable) : Prop where
  next : t.nextId = (received ++ t.pending).length
  entry : ∀ key id, (key, id) ∈ t.index → ∃ s ∈ strs, s.key = key ∧ (received ++ t.pending)[id]? = some s.text
  keys : (t.index.map Prod.fst).Nodup
  size : t.index.length = t.nextId
  few : t.nextId < 2 ^ 32

theorem TableInv.new (strs : List Calamine.SharedStr) : TableInv strs [] .new :=
  ⟨rfl, nofun, .nil, rfl, Nat.two_pow_pos 32⟩

/-- The bytes counted so far stay within a chunk. -/
theorem StringTable.chunkLen_bytes (l : List String) (bytes n : Nat) (hn : 0 < n) :
    bytes + ((l.take (chunkLen l bytes n - n)).map (·.utf8ByteSize)).sum ≤ max bytes MAX_STRING_CHUNK_BYTES ∧
      (MAX_STRING_CHUNK_BYTES < bytes → chunkLen l bytes n = n) := by
  induction l generalizing bytes n with
  | nil => simp [chunkLen]
  | cons s rest ih =>
    unfold chunkLen
    by_cases hbig : bytes + s.utf8ByteSize > MAX_STRING_CHUNK_BYTES
    · simp [hn, hbig]
    · -- the entry fits, and counts towards the next one
      have hlen := (chunkLen_bounds rest (bytes + s.utf8ByteSize) (n + 1)).1
      obtain ⟨ih, -⟩ := ih (bytes + s.utf8ByteSize) (n + 1) (Nat.succ_pos n)
      obtain ⟨k, hk⟩ := Nat.exists_eq_add_of_le hlen
      have h₁ : chunkLen rest (bytes + s.utf8ByteSize) (n + 1) - n = k + 1 := by omega
      have h₂ : chunkLen rest (bytes + s.utf8ByteSize) (n + 1) - (n + 1) = k := by omega
      rw [h₂] at ih
      rw [if_neg (fun h => hbig h.2), h₁, List.take_succ_cons, List.map_cons, List.sum_cons]
      constructor
      · omega
      · intro hover
        omega

/-- A chunk holds as many bytes as one may, or a single entry. -/
theorem StringTable.chunk_bounded (s : String) (rest : List String) :
    (((s :: rest).take (chunkLen (s :: rest) 0 0)).map (·.utf8ByteSize)).sum ≤ MAX_STRING_CHUNK_BYTES ∨
      ((s :: rest).take (chunkLen (s :: rest) 0 0)).length = 1 := by
  have hlen : chunkLen (s :: rest) 0 0 = chunkLen rest s.utf8ByteSize 1 := by simp [chunkLen]
  obtain ⟨hbytes, hstop⟩ := chunkLen_bytes rest s.utf8ByteSize 1 Nat.one_pos
  obtain ⟨k, hk⟩ := Nat.exists_eq_add_of_le (chunkLen_bounds rest s.utf8ByteSize 1).1
  rw [hlen]
  by_cases hbig : MAX_STRING_CHUNK_BYTES < s.utf8ByteSize
  · right
    simp [hstop hbig]
  · left
    rw [hk, Nat.add_comm 1 k, List.take_succ_cons, List.map_cons, List.sum_cons]
    rw [hk, Nat.add_sub_cancel_left] at hbytes
    omega

section table
variable {ok : List String → Pb.WorksheetRow → Prop} {strs : List Calamine.SharedStr}

/-- The next chunk starts at the number of entries received. -/
theorem StringTable.takeChunk_received {t : StringTable} {received : List String} (hne : t.pending ≠ [])
    (hnext : t.nextId = (received ++ t.pending).length) (hfew : t.nextId < 2 ^ 32) :
    t.takeChunk = some (⟨received.length, t.pending.take (chunkLen t.pending 0 0)⟩,
      { t with pending := t.pending.drop (chunkLen t.pending 0 0) }) := by
  rw [List.length_append] at hnext
  have hfirst : (t.nextId + 2 ^ 32 - t.pending.length % 2 ^ 32) % 2 ^ 32 = received.length := by
    rw [Nat.mod_eq_of_lt (by omega : t.pending.length < 2 ^ 32)]
    omega
  have hempty : t.pending.isEmpty = false := by simpa using hne
  simp only [takeChunk, hempty, hfirst]
  rfl

variable (ok) in
/-- Sending what is pending defines it, chunk by chunk. -/
theorem StringTable.sendChunks_defined (n : Nat) (t : StringTable) (received : List String)
    (hnext : t.nextId = (received ++ t.pending).length) (hfew : t.nextId < 2 ^ 32) (h : t.pending.length ≤ n) :
    Defined ok received (t.sendChunks n).events ∧ entriesOf (t.sendChunks n).events = t.pending := by
  induction n generalizing t received with
  | zero =>
    have hp : t.pending = [] := List.length_eq_zero_iff.1 (by omega)
    exact ⟨.nil _, hp.symm⟩
  | succ n ih =>
    cases hp : t.pending with
    | nil =>
      have he : (t.sendChunks (n + 1)).events = [] := by simp [sendChunks, takeChunk, hp]
      rw [he]
      exact ⟨.nil _, rfl⟩
    | cons s rest =>
      have hpos := chunkLen_pos s rest
      -- what the chunk takes is received before the rest is sent
      obtain ⟨hd, he⟩ := ih { t with pending := t.pending.drop (chunkLen t.pending 0 0) }
        (received ++ t.pending.take (chunkLen t.pending 0 0))
        (by simp only [List.append_assoc, List.take_append_drop]; exact hnext) hfew (by
          simp only [hp, List.length_drop, List.length_cons] at h ⊢
          omega)
      have hev : (t.sendChunks (n + 1)).events =
          .event (.stringTable ⟨received.length, t.pending.take (chunkLen t.pending 0 0)⟩) ::
            (({ t with pending := t.pending.drop (chunkLen t.pending 0 0) } : StringTable).sendChunks n).events := by
        rw [sendChunks, takeChunk_received (by simp [hp]) hnext hfew]
        rfl
      rw [hev]
      refine ⟨.cons ⟨?_, rfl, ?_⟩ hd, ?_⟩
      · intro hnil
        have := congrArg List.length hnil
        simp only [hp, List.length_take, List.length_cons, List.length_nil] at this
        omega
      · rw [hp]
        exact chunk_bounded s rest
      · rw [entriesOf_cons, he, ← hp]
        exact List.take_append_drop _ _

end table

end GrpcCalamine
