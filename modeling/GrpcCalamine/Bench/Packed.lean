import GrpcCalamine.Bench.Arriving
import GrpcCalamine.Lib.Layout
/-!
# The packed encodings

`bench/src/bin/packed.rs`: one batch of cells as the contract sends it, as flat
arrays in one buffer, and as flat arrays with the shared strings in a
dictionary. Each is decoded into calls on the digest: those of the batch itself
from the arrays (`decodePacked_encodePacked`), those for what arrives of it
from the contract (`decodeContract_encodeContract`). A decoder that panics is
`none`.
-/

namespace GrpcCalamine.Bench.Packed

open Layout (Segment slice leBytes fromLe length_leBytes fromLe_leBytes)

/-! ## Cells -/

/-- One cell, owned, in the form every encoding starts from. -/
inductive Cell where
  | empty
  | int (v : Int)
  | float (bits : UInt64)
  | str (s : String)
  /-- A shared string, with the dictionary id it interned to during the walk. -/
  | shared (text : String) (id : Nat)
  | bool (b : Bool)
  | dateTime (bits : UInt64)
  | dtIso (s : String)
  | durIso (s : String)
  | error
  deriving DecidableEq

/-- The shared-string table built by pointer identity during the walk. -/
structure Dict where
  index : List ((Nat × Nat) × Nat)
  entries : List String
  bytes : Nat
  deriving DecidableEq

namespace Dict

def default : Dict := ⟨[], [], 0⟩

def intern (t : Dict) (s : Calamine.SharedStr) : Nat × Dict :=
  match t.index.lookup s.key with
  | some i => (i, t)
  | none =>
    let i := t.entries.length % 2 ^ 32
    (i, { index := (s.key, i) :: t.index, entries := t.entries ++ [s.text], bytes := t.bytes + s.text.utf8ByteSize })

/-- An entry, if there is one of this id. -/
def get (t : Dict) (i : Nat) : Option String := t.entries[i]?

/-- Bytes the table itself costs on the wire. -/
def wireBytes (t : Dict) : Nat := 4 + t.entries.length * 4 + t.bytes

end Dict

namespace Cell

/-- The cell, and the dictionary with what it interned. -/
def fromRef (dict : Option Dict) : Calamine.DataRef → Cell × Option Dict
  | .int v => (int v, dict)
  | .float v => (float v, dict)
  | .string v => (str v, dict)
  | .sharedString v =>
    match dict with
    | some t => (shared v.text (t.intern v).1, some (t.intern v).2)
    | none => (shared v.text 0, none)
  | .bool v => (bool v, dict)
  | .dateTime v => (dateTime v.value, dict)
  | .dateTimeIso v => (dtIso v, dict)
  | .durationIso v => (durIso v, dict)
  | .error _ => (error, dict)
  | .empty => (empty, dict)

def tag : Cell → UInt8
  | empty => 0
  | int _ => 1
  | float _ => 2
  | str _ => 3
  | shared _ _ => 4
  | bool _ => 5
  | dateTime _ => 6
  | dtIso _ => 7
  | durIso _ => 8
  | error => 9

def digestInto : Cell → DigestCall
  | empty => .cell 0 []
  | int v => .cell 1 (intBytes v)
  | float v => .cell 2 (leBytes 8 v.toNat)
  | str v => .cell 3 (asBytes v)
  | shared text _ => .cell 4 (asBytes text)
  | bool v => .cell 5 [boolByte v]
  | dateTime v => .cell 6 (leBytes 8 v.toNat)
  | dtIso v => .cell 7 (asBytes v)
  | durIso v => .cell 8 (asBytes v)
  | error => .cell 9 []

def toPb (c : Cell) : Pb.CellData :=
  Convert.cellData <| match c with
    | empty => .empty
    | int v => .intValue v
    | float v => .floatValue v
    | str v => .stringValue v
    | shared text _ => .sharedStringValue text
    | bool v => .boolValue v
    | dateTime v => .dateTime { value := v, datetimeType := .dateTime, is1904 := false }
    | dtIso v => .dateTimeIso v
    | durIso v => .durationIso v
    | error => .error .unspecified

end Cell

/-- A batch of dense rows, the unit every encoding works on. -/
structure Batch where
  firstRow : Nat
  width : Nat
  /-- Row-major, `width` cells per row. -/
  cells : List Cell
  deriving DecidableEq

namespace Batch

def rows (b : Batch) : Nat := b.cells.length / b.width

/-- The cells of row `r`. -/
def row (b : Batch) (r : Nat) : List Cell := (b.cells.drop (r * b.width)).take b.width

/-- The digest of the in-memory grid, independent of any encoding. -/
def sourceCalls (b : Batch) : List DigestCall :=
  (List.range b.rows).flatMap fun r => .row (b.firstRow + r) :: (b.row r).map Cell.digestInto

end Batch

/-! ## The contract as it stands -/

def encodeContract (b : Batch) : List UInt8 :=
  Pb.RangeEvent.encode
    (.rows ((List.range b.rows).map fun r => { rowIndex := b.firstRow + r, values := (b.row r).map Cell.toPb }))

/-- Its match on a value is that of `push_pb`. -/
def decodeContract (buf : List UInt8) : Option (List DigestCall) := do
  match ← Pb.RangeEvent.decode buf with
  | some (.rows batch) =>
    let rows ← batch.mapM fun row => do return .row row.rowIndex :: (← row.values.mapM fun c => pushPb c.value)
    return rows.flatten
  | _ => none

/-! ## Flat arrays -/

/-- The arrays of `encode_packed`. -/
structure Columns where
  tags : List UInt8
  fixed : List Nat
  lens : List Nat
  text : List UInt8

def Columns.pushText (cols : Columns) (s : String) : Columns :=
  { cols with lens := cols.lens ++ [s.utf8ByteSize], text := cols.text ++ asBytes s }

def Columns.push (useDict : Bool) (cols : Columns) (c : Cell) : Columns :=
  let cols := { cols with tags := cols.tags ++ [c.tag] }
  match c with
  | .empty | .error => cols
  | .int v => { cols with fixed := cols.fixed ++ [(v % 2 ^ 64).toNat] }
  | .float v | .dateTime v => { cols with fixed := cols.fixed ++ [v.toNat] }
  | .bool v => { cols with fixed := cols.fixed ++ [(boolByte v).toNat] }
  | .shared s id => if useDict then { cols with fixed := cols.fixed ++ [id] } else cols.pushText s
  | .str s | .dtIso s | .durIso s => cols.pushText s

def columns (useDict : Bool) (cells : List Cell) : Columns := cells.foldl (Columns.push useDict) ⟨[], [], [], []⟩

def putU32 (v : Nat) : List UInt8 := leBytes 4 v

def encodePacked (b : Batch) (useDict : Bool) : List UInt8 :=
  let cols := columns useDict b.cells
  putU32 b.firstRow ++ (putU32 b.width ++ (putU32 b.rows ++
    (putU32 cols.tags.length ++ (cols.tags ++
    (putU32 cols.fixed.length ++ (cols.fixed.flatMap (leBytes 8) ++
    (putU32 cols.lens.length ++ (cols.lens.flatMap putU32 ++
    (putU32 cols.text.length ++ cols.text)))))))))

def u32 : Layout.Code UInt8 Nat := ⟨4, putU32, fromLe, (· < 2 ^ 32), length_leBytes 4, fun h => fromLe_leBytes h⟩

def u64 : Layout.Code UInt8 Nat := ⟨8, leBytes 8, fromLe, (· < 2 ^ 64), length_leBytes 8, fun h => fromLe_leBytes h⟩

/-- What the head of a buffer says, and where its arrays are. -/
structure Sections where
  firstRow : Nat
  width : Nat
  rowCount : Nat
  tags : List UInt8
  fixedAt : Nat
  lensAt : Nat
  text : List UInt8

def readSections (buf : List UInt8) : Option Sections := do
  let (firstRow, pos) ← u32.get buf 0
  let (width, pos) ← u32.get buf pos
  let (rowCount, pos) ← u32.get buf pos
  let (nTags, pos) ← u32.get buf pos
  let tags ← slice buf pos nTags
  let (nFixed, fixedAt) ← u32.get buf (pos + nTags)
  let (nText, lensAt) ← u32.get buf (fixedAt + nFixed * 8)
  let (nBytes, pos) ← u32.get buf (lensAt + nText * 4)
  let text ← slice buf pos nBytes
  return { firstRow, width, rowCount, tags, fixedAt, lensAt, text }

/-- How far `decode_packed` is in each array. -/
structure Decoder where
  fi : Nat
  ti : Nat
  toff : Nat
  calls : List DigestCall

namespace Decoder

variable (buf : List UInt8) (s : Sections) (dict : Option Dict)

/-- The next of the numerics, handed to the digest as `payload` makes of it. -/
def nextFixed (d : Decoder) (tag : UInt8) (payload : Nat → Option (List UInt8)) : Option Decoder := do
  let (v, _) ← u64.get buf (s.fixedAt + d.fi * 8)
  return { d with fi := d.fi + 1, calls := d.calls ++ [.cell tag (← payload v)] }

/-- The next of the texts. -/
def nextText (d : Decoder) (tag : UInt8) : Option Decoder := do
  let (len, _) ← u32.get buf (s.lensAt + d.ti * 4)
  let payload ← slice s.text d.toff len
  return { d with ti := d.ti + 1, toff := d.toff + len, calls := d.calls ++ [.cell tag payload] }

def cell (d : Decoder) (tag : UInt8) : Option Decoder :=
  if tag = 0 ∨ tag = 9 then some { d with calls := d.calls ++ [.cell tag []] }
  else if tag = 1 ∨ tag = 2 ∨ tag = 6 then d.nextFixed buf s tag fun v => some (leBytes 8 v)
  else if tag = 5 then d.nextFixed buf s tag fun v => some [UInt8.ofNat v]
  else if tag = 4 ∧ dict.isSome then
    d.nextFixed buf s tag fun v => (dict.bind fun t => t.get (v % 2 ^ 32)).map asBytes
  else d.nextText buf s tag

def row (d : Decoder) (r : Nat) : Option Decoder :=
  (List.range s.width).foldlM (fun d c => s.tags[r * s.width + c]?.bind (d.cell buf s dict))
    { d with calls := d.calls ++ [.row (s.firstRow + r)] }

end Decoder

def decodePacked (buf : List UInt8) (dict : Option Dict) : Option (List DigestCall) := do
  let s ← readSections buf
  let d ← (List.range s.rowCount).foldlM (Decoder.row buf s dict) ⟨0, 0, 0, []⟩
  return d.calls

/-! ## What a batch puts in each array -/

/-- What a cell puts among the numerics. -/
def Cell.fixed (useDict : Bool) : Cell → List Nat
  | .int v => [(v % 2 ^ 64).toNat]
  | .float v | .dateTime v => [v.toNat]
  | .bool v => [(boolByte v).toNat]
  | .shared _ id => if useDict then [id] else []
  | _ => []

/-- What a cell puts among the texts. -/
def Cell.texts (useDict : Bool) : Cell → List String
  | .shared s _ => if useDict then [] else [s]
  | .str s | .dtIso s | .durIso s => [s]
  | _ => []

theorem columns_eq (useDict : Bool) (cells : List Cell) :
    columns useDict cells =
      { tags := cells.map Cell.tag, fixed := cells.flatMap (Cell.fixed useDict),
        lens := (cells.flatMap (Cell.texts useDict)).map (·.utf8ByteSize),
        text := (cells.flatMap (Cell.texts useDict)).flatMap asBytes } := by
  unfold columns
  induction cells using List.reverseRecOn with
  | nil => rfl
  | append_singleton cells c ih =>
    rw [List.foldl_append, ih]
    cases c with
    | shared s id => cases useDict <;> simp [Columns.push, Columns.pushText, Cell.fixed, Cell.texts]
    | _ => simp [Columns.push, Columns.pushText, Cell.fixed, Cell.texts]

/-- A batch whose sizes the numbers of the layout hold. -/
structure Batch.Fits (useDict : Bool) (b : Batch) : Prop where
  firstRow : b.firstRow < 2 ^ 32
  width : b.width < 2 ^ 32
  cells : b.cells.length < 2 ^ 32
  text : (columns useDict b.cells).text.length < 2 ^ 32

/-- A dictionary with the text of every shared string among the cells. -/
def Dict.Knows (t : Dict) (cells : List Cell) : Prop :=
  ∀ text id, Cell.shared text id ∈ cells → id < 2 ^ 32 ∧ t.get id = some text

/-! ## The head of the buffer -/

/-- The sections are those of the batch. -/
structure Sections.Of (useDict : Bool) (b : Batch) (buf : List UInt8) (s : Sections) : Prop where
  firstRow : s.firstRow = b.firstRow
  width : s.width = b.width
  rowCount : s.rowCount = b.rows
  tags : s.tags = b.cells.map Cell.tag
  fixed : Segment buf s.fixedAt (u64.array (b.cells.flatMap (Cell.fixed useDict)))
  lens : Segment buf s.lensAt (u32.array ((b.cells.flatMap (Cell.texts useDict)).map (·.utf8ByteSize)))
  text : s.text = (b.cells.flatMap (Cell.texts useDict)).flatMap asBytes

/-- A segment, a number before it read. -/
theorem u32_append {buf bs : List UInt8} {pos v : Nat} (h : Segment buf pos (putU32 v ++ bs)) (hv : v < 2 ^ 32) :
    u32.get buf pos = some (v, pos + 4) ∧ Segment buf (pos + 4) bs := u32.get_append h hv

theorem length_u32s (vs : List Nat) : (vs.flatMap putU32).length = vs.length * 4 := u32.length_array vs

theorem length_u64s (vs : List Nat) : (vs.flatMap (leBytes 8)).length = vs.length * 8 := u64.length_array vs

theorem length_flatMap_le {T : Type} {f : Cell → List T} (h : ∀ c, (f c).length ≤ 1) (cells : List Cell) :
    (cells.flatMap f).length ≤ cells.length := by
  induction cells with
  | nil => exact Nat.le_refl _
  | cons c cells ih =>
    have hc := h c
    rw [List.flatMap_cons, List.length_append, List.length_cons]
    omega

theorem readSections_encodePacked {useDict : Bool} {b : Batch} (h : b.Fits useDict) :
    ∃ s, readSections (encodePacked b useDict) = some s ∧ s.Of useDict b (encodePacked b useDict) := by
  have hcols := columns_eq useDict b.cells
  have hrows : b.rows < 2 ^ 32 := Nat.lt_of_le_of_lt (Nat.div_le_self _ _) h.cells
  have hfixed : (b.cells.flatMap (Cell.fixed useDict)).length < 2 ^ 32 := by
    refine Nat.lt_of_le_of_lt (length_flatMap_le (fun c => ?_) b.cells) h.cells
    cases c <;> simp only [Cell.fixed] <;> (try split) <;> simp
  have htexts : (b.cells.flatMap (Cell.texts useDict)).length < 2 ^ 32 := by
    refine Nat.lt_of_le_of_lt (length_flatMap_le (fun c => ?_) b.cells) h.cells
    cases c <;> simp only [Cell.texts] <;> (try split) <;> simp
  have hbytes := h.text
  rw [hcols] at hbytes
  generalize hbuf : encodePacked b useDict = buf
  have hall : Segment buf 0 (encodePacked b useDict) := hbuf ▸ Segment.whole _
  simp only [encodePacked, hcols] at hall
  obtain ⟨hget₀, hall⟩ := u32_append hall h.firstRow
  obtain ⟨hget₁, hall⟩ := u32_append hall h.width
  obtain ⟨hget₂, hall⟩ := u32_append hall hrows
  obtain ⟨hget₃, hall⟩ := u32_append hall (by rw [List.length_map]; exact h.cells)
  have htags := hall.left.slice_eq
  obtain ⟨hget₄, hall⟩ := u32_append hall.right hfixed
  have hfixedAt := hall.left
  have hpast := hall.right
  rw [length_u64s] at hpast
  obtain ⟨hget₅, hall⟩ := u32_append hpast (by rw [List.length_map]; exact htexts)
  have hlensAt := hall.left
  have hpast := hall.right
  rw [length_u32s] at hpast
  obtain ⟨hget₆, hall⟩ := u32_append hpast hbytes
  have htext := hall.slice_eq
  refine ⟨⟨b.firstRow, b.width, b.rows, b.cells.map Cell.tag, _, _, (b.cells.flatMap (Cell.texts useDict)).flatMap asBytes⟩,
    ?_, rfl, rfl, rfl, rfl, hfixedAt, hlensAt, rfl⟩
  simp only [readSections, hget₀, hget₁, hget₂, hget₃, htags, hget₄, hget₅, hget₆, htext, Option.bind_eq_bind,
    Option.bind_some]
  rfl

/-! ## Cell by cell -/

/-- Where the decoder is with the cells of `rest` to come. -/
structure Decoder.At (useDict : Bool) (b : Batch) (rest : List Cell) (d : Decoder) : Prop where
  fixed : (b.cells.flatMap (Cell.fixed useDict)).drop d.fi = rest.flatMap (Cell.fixed useDict)
  texts : (b.cells.flatMap (Cell.texts useDict)).drop d.ti = rest.flatMap (Cell.texts useDict)
  text : Segment ((b.cells.flatMap (Cell.texts useDict)).flatMap asBytes) d.toff
    ((rest.flatMap (Cell.texts useDict)).flatMap asBytes)

theorem length_asBytes (s : String) : (asBytes s).length = s.utf8ByteSize := rfl

/-- What a drop starts with. -/
theorem drop_succ_of_cons {T : Type} {l rest : List T} {i : Nat} {x : T} (h : l.drop i = x :: rest) :
    l.drop (i + 1) = rest := by
  rw [← List.tail_drop, h]
  rfl

section decoder

variable {useDict : Bool} {b : Batch} {buf : List UInt8} {s : Sections} {d : Decoder} {c : Cell} {rest : List Cell}

/-- A cell that is in neither array. -/
theorem Decoder.At.skip (h : d.At useDict b (c :: rest)) (hfixed : c.fixed useDict = []) (htexts : c.texts useDict = [])
    (call : DigestCall) : At useDict b rest { d with calls := d.calls ++ [call] } := by
  obtain ⟨hf, ht, hs⟩ := h
  rw [List.flatMap_cons, htexts, List.nil_append] at ht hs
  rw [List.flatMap_cons, hfixed, List.nil_append] at hf
  exact ⟨hf, ht, hs⟩

theorem Decoder.At.nextFixed (h : d.At useDict b (c :: rest)) (hs : s.Of useDict b buf) {v : Nat}
    (hfixed : c.fixed useDict = [v]) (htexts : c.texts useDict = []) (hv : v < 2 ^ 64) {tag : UInt8}
    (payload : Nat → Option (List UInt8)) {bytes : List UInt8} (hpayload : payload v = some bytes) :
    ∃ d', d.nextFixed buf s tag payload = some d' ∧ d'.At useDict b rest ∧ d'.calls = d.calls ++ [.cell tag bytes] := by
  obtain ⟨hf, ht, hx⟩ := h
  rw [List.flatMap_cons, htexts, List.nil_append] at ht hx
  rw [List.flatMap_cons, hfixed, List.singleton_append] at hf
  have hget : u64.get buf (s.fixedAt + d.fi * 8) = some (v, s.fixedAt + d.fi * 8 + 8) := Layout.Code.get_array hs.fixed hf hv
  refine ⟨{ d with fi := d.fi + 1, calls := d.calls ++ [.cell tag bytes] }, ?_, ⟨drop_succ_of_cons hf, ht, hx⟩, rfl⟩
  simp only [Decoder.nextFixed, hget, hpayload, Option.bind_eq_bind, Option.bind_some]
  rfl

theorem Decoder.At.nextText (h : d.At useDict b (c :: rest)) (hb : b.Fits useDict) (hs : s.Of useDict b buf) {t : String}
    (hfixed : c.fixed useDict = []) (htexts : c.texts useDict = [t]) {tag : UInt8} :
    ∃ d', d.nextText buf s tag = some d' ∧ d'.At useDict b rest ∧ d'.calls = d.calls ++ [.cell tag (asBytes t)] := by
  obtain ⟨hf, ht, hx⟩ := h
  rw [List.flatMap_cons, htexts, List.singleton_append] at ht hx
  rw [List.flatMap_cons, hfixed, List.nil_append] at hf
  rw [List.flatMap_cons] at hx
  have hlen : t.utf8ByteSize < 2 ^ 32 := by
    have hle := hx.left.length_le
    have htotal := hb.text
    rw [columns_eq] at htotal
    rw [length_asBytes] at hle
    exact Nat.lt_of_le_of_lt (Nat.le_trans (Nat.le_add_left _ _) hle) htotal
  have hlens : ((b.cells.flatMap (Cell.texts useDict)).map (·.utf8ByteSize)).drop d.ti =
      t.utf8ByteSize :: (rest.flatMap (Cell.texts useDict)).map (·.utf8ByteSize) := by
    rw [← List.map_drop, ht]
    rfl
  have hget : u32.get buf (s.lensAt + d.ti * 4) = some (t.utf8ByteSize, s.lensAt + d.ti * 4 + 4) :=
    Layout.Code.get_array hs.lens hlens hlen
  have hslice : slice s.text d.toff t.utf8ByteSize = some (asBytes t) := by
    rw [hs.text]
    exact hx.left.slice_eq
  refine ⟨{ d with ti := d.ti + 1, toff := d.toff + t.utf8ByteSize, calls := d.calls ++ [.cell tag (asBytes t)] }, ?_,
    ⟨hf, drop_succ_of_cons ht, hx.right⟩, rfl⟩
  simp only [Decoder.nextText, hget, hslice, Option.bind_eq_bind, Option.bind_some]
  rfl

variable {dict : Option Dict}

/-- The decoder takes a cell by its tag and digests what was encoded. -/
theorem Decoder.At.cell (h : d.At dict.isSome b (c :: rest)) (hb : b.Fits dict.isSome) (hs : s.Of dict.isSome b buf)
    (hknows : ∀ t ∈ dict, t.Knows [c]) :
    ∃ d', d.cell buf s dict c.tag = some d' ∧ d'.At dict.isSome b rest ∧ d'.calls = d.calls ++ [c.digestInto] := by
  cases c with
  | empty => exact ⟨_, rfl, h.skip rfl rfl _, rfl⟩
  | error => exact ⟨_, rfl, h.skip rfl rfl _, rfl⟩
  | int v =>
    have hv : (v % 2 ^ 64).toNat < 2 ^ 64 := by omega
    exact h.nextFixed hs rfl rfl hv (fun v => some (leBytes 8 v)) rfl
  | float v => exact h.nextFixed hs rfl rfl v.toNat_lt (fun v => some (leBytes 8 v)) rfl
  | dateTime v => exact h.nextFixed hs rfl rfl v.toNat_lt (fun v => some (leBytes 8 v)) rfl
  | bool v =>
    have hv : (boolByte v).toNat < 2 ^ 64 := Nat.lt_trans (boolByte v).toNat_lt (by decide)
    exact h.nextFixed hs rfl rfl hv (fun v => some [UInt8.ofNat v]) (by rw [UInt8.ofNat_toNat])
  | str v => exact h.nextText hb hs rfl rfl
  | dtIso v => exact h.nextText hb hs rfl rfl
  | durIso v => exact h.nextText hb hs rfl rfl
  | shared text id =>
    cases dict with
    | none => exact h.nextText hb hs rfl rfl
    | some t =>
      -- the id stands among the numerics, and its text in the dictionary
      obtain ⟨hid, hget⟩ := hknows t rfl text id (List.mem_singleton.2 rfl)
      have hpayload : (t.get (id % 2 ^ 32)).map asBytes = some (asBytes text) := by
        rw [Nat.mod_eq_of_lt hid, hget]
        rfl
      exact h.nextFixed hs rfl rfl (Nat.lt_trans hid (by decide)) (fun v => (t.get (v % 2 ^ 32)).map asBytes) hpayload

theorem Decoder.At.cells {cs : List Cell} (h : d.At dict.isSome b (cs ++ rest)) (hb : b.Fits dict.isSome)
    (hs : s.Of dict.isSome b buf) (hknows : ∀ t ∈ dict, t.Knows cs) :
    ∃ d', (cs.map Cell.tag).foldlM (Decoder.cell buf s dict) d = some d' ∧ d'.At dict.isSome b rest ∧
      d'.calls = d.calls ++ cs.map Cell.digestInto := by
  induction cs generalizing d with
  | nil => exact ⟨d, rfl, h, (List.append_nil _).symm⟩
  | cons c cs ih =>
    have hone : ∀ t ∈ dict, t.Knows [c] := by
      intro t ht text id hmem
      exact hknows t ht text id (List.mem_cons.2 (.inl (List.mem_singleton.1 hmem)))
    obtain ⟨d₁, hd₁, hat₁, hcalls₁⟩ := h.cell hb hs hone
    obtain ⟨d₂, hd₂, hat₂, hcalls₂⟩ := ih hat₁ fun t ht text id hmem => hknows t ht text id (List.mem_cons_of_mem _ hmem)
    refine ⟨d₂, ?_, hat₂, ?_⟩
    · rw [List.map_cons, List.foldlM_cons, hd₁]
      exact hd₂
    · rw [hcalls₂, hcalls₁, List.append_assoc]
      rfl

/-- A row of the batch is taken when its turn comes. -/
theorem Decoder.At.row {r : Nat} (h : d.At dict.isSome b (b.cells.drop (r * b.width))) (hr : r < b.rows)
    (hb : b.Fits dict.isSome) (hs : s.Of dict.isSome b buf) (hknows : ∀ t ∈ dict, t.Knows b.cells) :
    ∃ d', d.row buf s dict r = some d' ∧ d'.At dict.isSome b (b.cells.drop ((r + 1) * b.width)) ∧
      d'.calls = d.calls ++ .row (b.firstRow + r) :: (b.row r).map Cell.digestInto := by
  have hfits : r * b.width + b.width ≤ b.cells.length := by
    rw [← Nat.succ_mul]
    exact Nat.le_trans (Nat.mul_le_mul_right _ hr) (Nat.div_mul_le_self _ _)
  have hsplit : b.cells.drop (r * b.width) = b.row r ++ b.cells.drop ((r + 1) * b.width) := by
    rw [Batch.row, Nat.succ_mul, ← List.drop_drop, List.take_append_drop]
  have hrow : ∀ t ∈ dict, t.Knows (b.row r) := fun t ht text id hmem =>
    hknows t ht text id (List.mem_of_mem_drop (List.mem_of_mem_take hmem))
  have hstart : ({ d with calls := d.calls ++ [.row (b.firstRow + r)] } : Decoder).At dict.isSome b
      (b.row r ++ b.cells.drop ((r + 1) * b.width)) := by
    rw [← hsplit]
    exact ⟨h.fixed, h.texts, h.text⟩
  obtain ⟨d', hd', hat, hcalls⟩ := hstart.cells hb hs hrow
  refine ⟨d', ?_, hat, ?_⟩
  · rw [Decoder.row, hs.width, hs.firstRow]
    rw [Layout.foldlM_range (Decoder.cell buf s dict) s.tags (r * b.width) (by rw [hs.tags, List.length_map]; exact hfits)]
    rw [hs.tags, ← List.map_drop, ← List.map_take]
    exact hd'
  · rw [hcalls, List.append_assoc]
    rfl

theorem Decoder.At.rows {n : Nat} (hn : n ≤ b.rows) (hb : b.Fits dict.isSome) (hs : s.Of dict.isSome b buf)
    (hknows : ∀ t ∈ dict, t.Knows b.cells) :
    ∃ d', (List.range n).foldlM (Decoder.row buf s dict) ⟨0, 0, 0, []⟩ = some d' ∧
      d'.At dict.isSome b (b.cells.drop (n * b.width)) ∧
      d'.calls = (List.range n).flatMap fun r => .row (b.firstRow + r) :: (b.row r).map Cell.digestInto := by
  induction n with
  | zero =>
    rw [Nat.zero_mul, List.drop_zero]
    exact ⟨_, rfl, ⟨rfl, rfl, Segment.whole _⟩, rfl⟩
  | succ n ih =>
    obtain ⟨d₁, hd₁, hat₁, hcalls₁⟩ := ih (Nat.le_of_succ_le hn)
    obtain ⟨d₂, hd₂, hat₂, hcalls₂⟩ := hat₁.row hn hb hs hknows
    refine ⟨d₂, ?_, hat₂, ?_⟩
    · rw [List.range_succ, List.foldlM_append, hd₁]
      simpa using hd₂
    · rw [hcalls₂, hcalls₁, List.range_succ, List.flatMap_append, List.flatMap_singleton]

end decoder

/-! ## Round trips -/

/-- A batch that fits is decoded to the calls of the batch: with a dictionary
that has its ids, and without. -/
theorem decodePacked_encodePacked {b : Batch} {dict : Option Dict} (hb : b.Fits dict.isSome)
    (hknows : ∀ t ∈ dict, t.Knows b.cells) :
    decodePacked (encodePacked b dict.isSome) dict = some b.sourceCalls := by
  obtain ⟨s, hread, hs⟩ := readSections_encodePacked hb
  obtain ⟨d, hd, -, hcalls⟩ := Decoder.At.rows (Nat.le_refl _) hb hs hknows
  rw [decodePacked, hread, Option.bind_eq_bind, Option.bind_some, hs.rowCount, hd, Option.bind_eq_bind, Option.bind_some,
    hcalls]
  rfl

/-- A cell by the contract, as it arrives. -/
theorem pushPb_toPb (c : Cell) : pushPb c.toPb.received.value = some (arrivingCall c.digestInto) := by
  have hread : ∀ d, pushPb (some (Convert.dataRefValue d false).received) = some (arrivingCall (digestRef d)) :=
    fun d => (pushPb_received d false).trans (congrArg some (digestRef_arriving d))
  cases c with
  | empty => exact hread .empty
  | int v => exact hread (.int v)
  | float v => exact hread (.float v)
  | str v => exact hread (.string v)
  | shared text id => exact hread (.sharedString ⟨0, text⟩)
  | bool v => exact hread (.bool v)
  | dateTime v => exact hread (.dateTime ⟨v, false⟩)
  | dtIso v => exact hread (.dateTimeIso v)
  | durIso v => exact hread (.durationIso v)
  | error => rfl

/-- The contract gives the calls for what arrives of the batch. -/
theorem decodeContract_encodeContract (b : Batch) :
    decodeContract (encodeContract b) = some (b.sourceCalls.map arrivingCall) := by
  have hrow : ∀ r ∈ List.range b.rows,
      (do return DigestCall.row (b.firstRow + r) ::
        (← ((b.row r).map fun c => c.toPb.received).mapM fun c => pushPb c.value)) =
        some (DigestCall.row (b.firstRow + r) :: (b.row r).map fun c => arrivingCall c.digestInto) := by
    intro r _
    have hcalls : (b.row r).mapM ((fun c => pushPb c.value) ∘ fun c => c.toPb.received) =
        some ((b.row r).map fun c => arrivingCall c.digestInto) :=
      mapM_eq_some fun c _ => pushPb_toPb c
    rw [List.mapM_map, hcalls]
    rfl
  have hall := mapM_eq_some hrow
  have hindex : ∀ i, arrivingCall (.row i) = .row i := fun i => if_neg nofun
  rw [decodeContract, encodeContract, Pb.RangeEvent.decode_encode]
  simp only [Pb.RangeEvent.received, Pb.WorksheetRow.received, List.map_map, List.mapM_map, Function.comp_def,
    Option.bind_eq_bind, Option.bind_some] at hall ⊢
  rw [hall]
  simp [Batch.sourceCalls, List.flatMap_def, List.map_flatten, Function.comp_def, hindex]

end GrpcCalamine.Bench.Packed
