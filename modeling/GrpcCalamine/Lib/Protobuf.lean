import GrpcCalamine.Lib.Layout
/-!
# The protobuf wire

A message is its fields one after another, each a number and a payload that
says where it ends, so what was put is read back (`getFields_putFields`). A
`Message` is what a reader makes of the fields: a value to start from, and what
each field does to it. A field that is left out where its value is the default
leaves the reader where it is (`merge_omitIf`).

Numbers are of any size: a reader that stops at ten bytes reads those below
2^64 just so.
-/

namespace Protobuf

open Layout (leBytes fromLe)

/-! ## Varints -/

/-- Seven bits a byte, the lowest first; all but the last have the top bit. -/
def putVarintWithin : (fuel n : Nat) → List UInt8
  | 0, n => [UInt8.ofNat n]
  | fuel + 1, n =>
    if n < 128 then [UInt8.ofNat n] else UInt8.ofNat (n % 128 + 128) :: putVarintWithin fuel (n / 128)

/-- A number has fewer digits than it counts. -/
def putVarint (n : Nat) : List UInt8 := putVarintWithin n n

def getVarint : List UInt8 → Option (Nat × List UInt8)
  | [] => none
  | b :: bs =>
    if b.toNat < 128 then some (b.toNat, bs)
    else (getVarint bs).map fun (n, rest) => (b.toNat % 128 + 128 * n, rest)

theorem getVarint_putVarintWithin {fuel n : Nat} (h : n ≤ fuel) (rest : List UInt8) :
    getVarint (putVarintWithin fuel n ++ rest) = some (n, rest) := by
  induction fuel generalizing n with
  | zero =>
    obtain rfl : n = 0 := Nat.le_zero.1 h
    rfl
  | succ fuel ih =>
    rw [putVarintWithin]
    split
    · rename_i hlast
      have hbyte : (UInt8.ofNat n).toNat = n := Nat.mod_eq_of_lt (by omega)
      rw [List.singleton_append, getVarint, hbyte, if_pos hlast]
    · rename_i hmore
      have hbyte : (UInt8.ofNat (n % 128 + 128)).toNat = n % 128 + 128 := Nat.mod_eq_of_lt (by omega)
      have hrest : getVarint (putVarintWithin fuel (n / 128) ++ rest) = some (n / 128, rest) := ih (by omega)
      rw [List.cons_append, getVarint, hbyte, if_neg (by omega), hrest, Option.map_some, Option.some.injEq,
        Prod.mk.injEq]
      exact ⟨by omega, rfl⟩

theorem getVarint_putVarint (n : Nat) (rest : List UInt8) : getVarint (putVarint n ++ rest) = some (n, rest) :=
  getVarint_putVarintWithin (Nat.le_refl n) rest

theorem putVarint_ne_nil (n : Nat) : putVarint n ≠ [] := by
  unfold putVarint putVarintWithin
  split
  · exact List.cons_ne_nil _ _
  · split <;> exact List.cons_ne_nil _ _

/-! ## Fields -/

/-- What stands in a field: the wire types 0, 1 and 2. -/
inductive Payload where
  | varint (n : Nat)
  | fixed64 (bits : UInt64)
  | bytes (bs : List UInt8)
  deriving DecidableEq

namespace Payload

def wireType : Payload → Nat
  | varint _ => 0
  | fixed64 _ => 1
  | bytes _ => 2

def put : Payload → List UInt8
  | varint n => putVarint n
  | fixed64 bits => leBytes 8 bits.toNat
  | bytes bs => putVarint bs.length ++ bs

/-- The first `n` bytes, and what follows them. -/
def cut (n : Nat) (bs : List UInt8) : Option (List UInt8 × List UInt8) :=
  if n ≤ bs.length then some (bs.take n, bs.drop n) else none

def get (wireType : Nat) (bs : List UInt8) : Option (Payload × List UInt8) :=
  match wireType with
  | 0 => (getVarint bs).map fun (n, rest) => (varint n, rest)
  | 1 => (cut 8 bs).map fun (bits, rest) => (fixed64 (UInt64.ofNat (fromLe bits)), rest)
  | 2 => (getVarint bs).bind fun (n, rest) => (cut n rest).map fun (bs, rest) => (bytes bs, rest)
  | _ => none

theorem cut_append (bs rest : List UInt8) : cut bs.length (bs ++ rest) = some (bs, rest) := by
  rw [cut, if_pos (by simp), List.take_left, List.drop_left]

theorem get_put (p : Payload) (rest : List UInt8) : get p.wireType (p.put ++ rest) = some (p, rest) := by
  cases p with
  | varint n => simp only [get, wireType, put, getVarint_putVarint, Option.map_some]
  | fixed64 bits =>
    have hcut := cut_append (leBytes 8 bits.toNat) rest
    rw [Layout.length_leBytes] at hcut
    have hbits : fromLe (leBytes 8 bits.toNat) = bits.toNat := Layout.fromLe_leBytes bits.toNat_lt
    simp only [get, wireType, put, hcut, Option.map_some, hbits, UInt64.ofNat_toNat]
  | bytes bs =>
    simp only [get, wireType, put, List.append_assoc, getVarint_putVarint, Option.bind_some, cut_append, Option.map_some]

theorem wireType_lt (p : Payload) : p.wireType < 8 := by
  unfold wireType
  split <;> decide

/-! What a reader takes a payload for. -/

def toVarint : Payload → Option Nat
  | varint n => some n
  | _ => none

def toFixed64 : Payload → Option UInt64
  | fixed64 bits => some bits
  | _ => none

def toBytes : Payload → Option (List UInt8)
  | bytes bs => some bs
  | _ => none

def toText (p : Payload) : Option String := p.toBytes.bind fun bs => String.fromUTF8? ⟨bs.toArray⟩

/-- Text, in UTF-8. -/
def text (s : String) : Payload := bytes s.toUTF8.data.toList

@[simp] theorem toText_text (s : String) : (text s).toText = some s := by
  have hvalid : (⟨s.toUTF8.data.toList.toArray⟩ : ByteArray).IsValidUTF8 := s.isValidUTF8
  simp only [text, toText, toBytes, Option.bind_some, String.fromUTF8?, dif_pos hvalid]
  rfl

end Payload

/-- A field: its number, and what stands in it. -/
structure Field where
  number : Nat
  payload : Payload
  deriving DecidableEq

def Field.put (f : Field) : List UInt8 := putVarint (8 * f.number + f.payload.wireType) ++ f.payload.put

def Field.get (bs : List UInt8) : Option (Field × List UInt8) :=
  (getVarint bs).bind fun (key, rest) =>
    (Payload.get (key % 8) rest).map fun (payload, rest) => (⟨key / 8, payload⟩, rest)

theorem Field.get_put (f : Field) (rest : List UInt8) : Field.get (f.put ++ rest) = some (f, rest) := by
  have hlt := f.payload.wireType_lt
  have htype : (8 * f.number + f.payload.wireType) % 8 = f.payload.wireType := by omega
  have hnumber : (8 * f.number + f.payload.wireType) / 8 = f.number := by omega
  rw [Field.get, Field.put, List.append_assoc, getVarint_putVarint, Option.bind_some]
  simp only [htype, hnumber, Payload.get_put, Option.map_some]

theorem Field.put_ne_nil (f : Field) : f.put ≠ [] :=
  fun h => putVarint_ne_nil _ (List.append_eq_nil_iff.1 h).1

def putFields (fs : List Field) : List UInt8 := fs.flatMap Field.put

/-- At most `fuel` fields. -/
def getFieldsWithin : (fuel : Nat) → List UInt8 → Option (List Field)
  | _, [] => some []
  | 0, _ :: _ => none
  | fuel + 1, b :: bs => (Field.get (b :: bs)).bind fun (f, rest) => (getFieldsWithin fuel rest).map (f :: ·)

/-- A field has a byte at least. -/
def getFields (bs : List UInt8) : Option (List Field) := getFieldsWithin bs.length bs

theorem getFieldsWithin_putFields {fuel : Nat} {fs : List Field} (h : (putFields fs).length ≤ fuel) :
    getFieldsWithin fuel (putFields fs) = some fs := by
  induction fs generalizing fuel with
  | nil => cases fuel <;> rfl
  | cons f fs ih =>
    have hput : putFields (f :: fs) = f.put ++ putFields fs := rfl
    obtain ⟨b, bs, hbytes⟩ := List.exists_cons_of_ne_nil f.put_ne_nil
    rw [hput, hbytes, List.cons_append, List.length_cons, List.length_append] at h
    cases fuel with
    | zero => omega
    | succ fuel =>
      have hget := f.get_put (putFields fs)
      rw [hbytes, List.cons_append] at hget
      have hrest : getFieldsWithin fuel (putFields fs) = some fs := ih (by omega)
      rw [hput, hbytes, List.cons_append, getFieldsWithin, hget]
      simp only [Option.bind_some, hrest, Option.map_some]

theorem getFields_putFields (fs : List Field) : getFields (putFields fs) = some fs :=
  getFieldsWithin_putFields (Nat.le_refl _)

/-! ## Messages -/

/-- How the fields of a message are read: from which value, and what each does
to it. -/
structure Message (S : Type) where
  default : S
  merge : S → Field → Option S

namespace Message

variable {S : Type} (m : Message S)

/-- Fields read on top of a value. -/
def mergeBytes (s : S) (bs : List UInt8) : Option S := (getFields bs).bind (·.foldlM m.merge s)

def decode (bs : List UInt8) : Option S := m.mergeBytes m.default bs

theorem decode_putFields (fs : List Field) : m.decode (putFields fs) = fs.foldlM m.merge m.default := by
  rw [decode, mergeBytes, getFields_putFields, Option.bind_some]

/-- A payload read as a message on top of a value. -/
def mergePayload (s : S) (p : Payload) : Option S := p.toBytes.bind (m.mergeBytes s)

theorem mergePayload_bytes (s : S) (fs : List Field) : m.mergePayload s (.bytes (putFields fs)) = fs.foldlM m.merge s := by
  rw [mergePayload, Payload.toBytes, Option.bind_some, mergeBytes, getFields_putFields, Option.bind_some]

end Message

section merge

variable {S T : Type} {merge : S → Field → Option S}

/-- A field that is left out where `c`. -/
def omitIf (c : Prop) [Decidable c] (f : Field) : List Field := if c then [] else [f]

theorem merge_omitIf {c : Prop} [Decidable c] {f : Field} {s s' : S} (hskip : c → s = s') (hmerge : merge s f = some s') :
    (omitIf c f).foldlM merge s = some s' := by
  unfold omitIf
  split
  · rename_i hc
    rw [hskip hc]
    rfl
  · rw [List.foldlM_cons, hmerge]
    rfl

/-- An optional field. -/
theorem merge_option {o : Option T} {field : T → Field} {s s' : S} (hskip : o = none → s = s')
    (hmerge : ∀ x, o = some x → merge s (field x) = some s') : (o.toList.map field).foldlM merge s = some s' := by
  cases o with
  | none =>
    rw [hskip rfl]
    rfl
  | some x =>
    rw [Option.toList_some, List.map_singleton, List.foldlM_cons, hmerge x rfl]
    rfl

/-- A repeated field: `add` is the value once these are read. -/
theorem merge_repeated {R : Type} {read : T → R} {field : T → Field} {add : List R → S}
    (hmerge : ∀ done x, merge (add done) (field x) = some (add (done ++ [read x]))) (xs : List T) :
    (xs.map field).foldlM merge (add []) = some (add (xs.map read)) := by
  have hfrom : ∀ done, (xs.map field).foldlM merge (add done) = some (add (done ++ xs.map read)) := by
    induction xs with
    | nil =>
      intro done
      rw [List.map_nil, List.map_nil, List.append_nil]
      rfl
    | cons x xs ih =>
      intro done
      rw [List.map_cons, List.foldlM_cons, hmerge, Option.bind_eq_bind, Option.bind_some, ih, List.map_cons,
        List.append_assoc, List.singleton_append]
  simpa using hfrom []

/-- Fields one after another. -/
theorem merge_append {fs fs' : List Field} {s s' s'' : S} (h : fs.foldlM merge s = some s')
    (h' : fs'.foldlM merge s' = some s'') : (fs ++ fs').foldlM merge s = some s'' := by
  rw [List.foldlM_append, h]
  exact h'

end merge

end Protobuf
