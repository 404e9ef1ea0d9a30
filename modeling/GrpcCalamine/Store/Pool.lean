import GrpcCalamine.Store.Budget
import Mathlib.Algebra.BigOperators.Group.List.Basic
import Mathlib.Algebra.Order.Ring.Nat
/-!
# The readers of one workbook

`ReaderPool`, `WorkbookEntry::reader` and the drop of a `PooledReader`, of
`src/store.rs`. Each critical section, of the pool's lock or the budget's, is
one step, so the steps of concurrent calls interleave.

`Covered` is what every interleaving keeps: the workbook's first reader is
parked or out, and every other reader carries a charge.
-/

namespace GrpcCalamine

open scoped List

def MAX_POOLED_READERS : Nat := 1

/-- A calamine reader, by its place among those its workbook opened. -/
structure WorkbookReader where
  serial : Nat
  deriving DecidableEq

/-- Bytes a reader beyond a workbook's first holds against the budget. -/
structure Charge where
  bytes : Nat
  deriving DecidableEq

/-- A reader and what it is charged: nothing for the workbook's first. -/
abbrev ParkedReader := WorkbookReader × Option Charge

/-- Free list of readers parked for reuse by one workbook. -/
structure ReaderPool where
  free : List ParkedReader
  deriving DecidableEq

namespace ReaderPool

/-- Take a parked reader, if one is available. -/
def take (p : ReaderPool) : Option (ParkedReader × ReaderPool) :=
  p.free.getLast?.map fun reader => (reader, ⟨p.free.dropLast⟩)

/-- Park a reader for reuse; with it, the reader dropped if the pool is full. -/
def park (p : ReaderPool) (reader : ParkedReader) : ReaderPool × Option ParkedReader :=
  if p.free.length < MAX_POOLED_READERS then (⟨p.free ++ [reader]⟩, none)
  else if reader.2.isNone then
    match p.free.findIdx? fun parked => parked.2.isSome with
    | some i => (⟨p.free.set i reader⟩, p.free[i]?)
    | none => (p, some reader)
  else (p, some reader)

theorem take_spec {p p' : ReaderPool} {reader : ParkedReader} (h : p.take = some (reader, p')) :
    p.free = p'.free ++ [reader] := by
  unfold take at h
  obtain ⟨last, hlast, heq⟩ := Option.map_eq_some_iff.1 h
  cases heq
  obtain ⟨init, hinit⟩ := List.getLast?_eq_some_iff.1 hlast
  simp [hinit]

/-- Parking loses no reader: each is in the pool or the one dropped. -/
theorem park_perm (p : ReaderPool) (reader : ParkedReader) :
    (p.park reader).1.free ++ (p.park reader).2.toList ~ p.free ++ [reader] := by
  unfold park
  split
  · simp
  split
  · cases hfind : p.free.findIdx? fun parked => parked.2.isSome with
    | none => exact .refl _
    | some i =>
      obtain ⟨hi, -⟩ := List.findIdx?_eq_some_iff_getElem.1 hfind
      have hset : p.free.set i reader ~ reader :: p.free.eraseIdx i := List.set_perm_cons_eraseIdx hi reader
      have hget : p.free[i] :: p.free.eraseIdx i ~ p.free := List.getElem_cons_eraseIdx_perm hi
      simp only [List.getElem?_eq_getElem hi, Option.toList_some]
      calc p.free.set i reader ++ [p.free[i]]
          ~ (reader :: p.free.eraseIdx i) ++ [p.free[i]] := hset.append_right _
        _ ~ reader :: (p.free[i] :: p.free.eraseIdx i) := (List.perm_append_singleton _ _).cons reader
        _ ~ reader :: p.free := hget.cons reader
        _ ~ p.free ++ [reader] := (List.perm_append_singleton _ _).symm
  · exact .refl _

theorem park_length (p : ReaderPool) (reader : ParkedReader) (h : p.free.length ≤ MAX_POOLED_READERS) :
    (p.park reader).1.free.length ≤ MAX_POOLED_READERS := by
  unfold park
  split
  · rw [List.length_append]
    exact Nat.succ_le_of_lt ‹_›
  split
  · cases p.free.findIdx? fun parked => parked.2.isSome with
    | none => exact h
    | some i =>
      rw [List.length_set]
      exact h
  · exact h

/-- An uncharged reader is dropped only by a pool full of uncharged ones. -/
theorem park_dropped {p : ReaderPool} {reader dropped : ParkedReader} (h : (p.park reader).2 = some dropped)
    (hnone : dropped.2 = none) : p.free ≠ [] ∧ reader.2 = none ∧ ∀ parked ∈ p.free, parked.2 = none := by
  unfold park at h
  split at h
  · cases h
  have hne : p.free ≠ [] := by
    rintro he
    simp [he, MAX_POOLED_READERS] at *
  split at h
  · rename_i hreader
    refine ⟨hne, Option.isNone_iff_eq_none.1 hreader, ?_⟩
    cases hfind : p.free.findIdx? fun parked => parked.2.isSome with
    | none => exact fun parked hp => by simpa using List.findIdx?_eq_none_iff.1 hfind parked hp
    | some i =>
      obtain ⟨hi, hcharged, -⟩ := List.findIdx?_eq_some_iff_getElem.1 hfind
      rw [hfind] at h
      simp only [List.getElem?_eq_getElem hi, Option.some.injEq] at h
      rw [h, hnone] at hcharged
      cases hcharged
  · rename_i hreader
    cases h
    rw [hnone] at hreader
    exact absurd rfl hreader

end ReaderPool

/-- Where a call of `reader`, or the reader it gave out, is: it found no
parked reader, it is opening one with its charge taken, it is out, or it is
dropped and its charge is yet to be given back. -/
inductive Hand where
  | asking
  | opening (charge : Charge)
  | out (reader : ParkedReader)
  | dropping (reader : ParkedReader)
  deriving DecidableEq

namespace Hand

/-- The reader that is out. -/
def reader : Hand → Option ParkedReader
  | out reader => some reader
  | _ => none

def charge : Hand → Option Charge
  | asking => none
  | opening charge => some charge
  | out reader | dropping reader => reader.2

/-- From when its charge is taken until its drop is through. -/
def checkedOut : Hand → Bool
  | asking => false
  | opening _ | out _ | dropping _ => true

/-- A call of `reader` still runs, on a borrow of the workbook. -/
def calling : Hand → Bool
  | asking | opening _ => true
  | out _ | dropping _ => false

@[simp] theorem reader_asking : asking.reader = none := rfl
@[simp] theorem reader_opening (c : Charge) : (opening c).reader = none := rfl
@[simp] theorem reader_out (r : ParkedReader) : (out r).reader = some r := rfl
@[simp] theorem reader_dropping (r : ParkedReader) : (dropping r).reader = none := rfl
@[simp] theorem charge_asking : asking.charge = none := rfl
@[simp] theorem charge_opening (c : Charge) : (opening c).charge = some c := rfl
@[simp] theorem charge_out (r : ParkedReader) : (out r).charge = r.2 := rfl
@[simp] theorem charge_dropping (r : ParkedReader) : (dropping r).charge = r.2 := rfl

end Hand

/-- A workbook in memory: what the store uses of a `WorkbookEntry`, and who
holds it. `id` is the id it is registered under, `none` once it is closed;
`serial` is its place among those registered. -/
structure Workbook where
  id : Option String
  serial : Nat
  size : Footprint
  lastUsed : Nat
  /-- `Arc`s of it outside the registry. -/
  holders : Nat
  pool : ReaderPool
  hands : List Hand
  /-- Readers opened so far. -/
  opened : Nat
  deriving DecidableEq

/-- Which workbook it is, and its bytes: what nothing done with it changes. -/
structure Identity where
  serial : Nat
  size : Footprint
  deriving DecidableEq

namespace Workbook

def identity (w : Workbook) : Identity := ⟨w.serial, w.size⟩

/-- Readers parked or out. -/
def readers (w : Workbook) : List ParkedReader := w.pool.free ++ w.hands.flatMap fun h => h.reader.toList

/-- Live charges. -/
def charges (w : Workbook) : List Charge :=
  (w.pool.free.flatMap fun parked => parked.2.toList) ++ w.hands.flatMap fun h => h.charge.toList

def chargedBytes (w : Workbook) : Nat := (w.charges.map Charge.bytes).sum

/-- The workbook `open` registers: its probe is parked, and the caller holds
it. -/
def ofOpen (id : String) (serial : Nat) (size : Footprint) (now : Nat) : Workbook :=
  { id := some id, serial, size, lastUsed := now, holders := 1, pool := ((⟨[]⟩ : ReaderPool).park (⟨0⟩, none)).1, hands := [],
    opened := 1 }

/-- The steps of `WorkbookEntry::reader`, of dropping the reader it gave, and
of dropping an `Arc` of the workbook. -/
inductive ReaderStep : Workbook → Effect → Workbook → Prop where
  /-- The pool has a parked reader. -/
  | reuse {w reader pool} : 0 < w.holders → w.pool.take = some (reader, pool) →
      ReaderStep w .quiet { w with pool := pool, hands := w.hands ++ [.out reader] }
  | ask {w} : 0 < w.holders → w.pool.take = none → ReaderStep w .quiet { w with hands := w.hands ++ [.asking] }
  | charge {w pre post} : w.hands = pre ++ .asking :: post →
      ReaderStep w (.took w.size.readerBytes)
        { w with hands := pre ++ .opening ⟨w.size.readerBytes⟩ :: post }
  | refused {w pre post} : w.hands = pre ++ .asking :: post →
      ReaderStep w (.denied w.size.readerBytes) { w with hands := pre ++ post }
  | reopened {w pre charge post} : w.hands = pre ++ .opening charge :: post →
      ReaderStep w .quiet
        { w with hands := pre ++ .out (⟨w.opened⟩, some charge) :: post, opened := w.opened + 1 }
  /-- calamine cannot re-open the bytes, or panics: the charge is dropped. -/
  | unreadable {w pre charge post} : w.hands = pre ++ .opening charge :: post →
      ReaderStep w (.gave charge.bytes) { w with hands := pre ++ post }
  /-- `PooledReader::drop`. -/
  | putBack {w pre reader post} : w.hands = pre ++ .out reader :: post →
      ReaderStep w .quiet
        { w with pool := (w.pool.park reader).1,
                 hands := pre ++ (((w.pool.park reader).2.map Hand.dropping).toList ++ post) }
  /-- The drop of the `Charge` of a reader that is not kept. -/
  | discard {w pre reader charge post} : w.hands = pre ++ .dropping (reader, some charge) :: post →
      ReaderStep w (.gave charge.bytes) { w with hands := pre ++ post }
  | forget {w pre reader post} : w.hands = pre ++ .dropping (reader, none) :: post →
      ReaderStep w .quiet { w with hands := pre ++ post }
  /-- An RPC ends, or `open`'s caller drops what it got. -/
  | release {w} : 0 < w.holders → (1 < w.holders ∨ ∀ h ∈ w.hands, h.calling = false) →
      ReaderStep w .quiet { w with holders := w.holders - 1 }

/-- The first reader is parked or out, and it is the only one without a
charge. -/
structure Covered (w : Workbook) : Prop where
  first : w.readers.filter (·.2.isNone) = [(⟨0⟩, none)]
  kept : ∀ reader, .dropping reader ∈ w.hands → reader.2.isSome = true
  own : ∀ charge ∈ w.charges, charge.bytes = w.size.readerBytes
  later : ∀ reader ∈ w.readers, reader.2.isSome = true → 0 < reader.1.serial
  opened : 0 < w.opened
  room : w.pool.free.length ≤ MAX_POOLED_READERS

theorem covered_ofOpen (id : String) (serial : Nat) (size : Footprint) (now : Nat) :
    (ofOpen id serial size now).Covered where
  first := rfl
  kept := nofun
  own := nofun
  later := by simp [readers, ofOpen, ReaderPool.park, MAX_POOLED_READERS]
  opened := Nat.one_pos
  room := Nat.le_refl _

end Workbook

end GrpcCalamine
