import Mathlib.Algebra.Order.Ring.Nat
import Mathlib.Data.List.Basic
/-!
# Buffers laid out in segments

A buffer written as one segment after another is read back by position:
`Segment` says which segment stands where, `slice` reads it. A `Code` writes a
value in a fixed number of bytes, a number with its lowest byte first
(`fromLe_leBytes`); an array of such values is read at an index
(`Code.get_array`).
-/

namespace Layout

variable {B V S T : Type}

/-- `n` bytes from `pos` on, if the buffer has them. -/
def slice (buf : List B) (pos n : Nat) : Option (List B) :=
  if pos + n ≤ buf.length then some ((buf.drop pos).take n) else none

/-- The buffer has these bytes at `pos`. -/
def Segment (buf : List B) (pos : Nat) (bs : List B) : Prop :=
  ∃ before after, buf = before ++ bs ++ after ∧ before.length = pos

section segment

variable {buf bs bs' : List B} {pos : Nat}

theorem Segment.whole (buf : List B) : Segment buf 0 buf := ⟨[], [], by simp, rfl⟩

theorem Segment.left (h : Segment buf pos (bs ++ bs')) : Segment buf pos bs := by
  obtain ⟨before, after, rfl, rfl⟩ := h
  exact ⟨before, bs' ++ after, by simp, rfl⟩

theorem Segment.right (h : Segment buf pos (bs ++ bs')) : Segment buf (pos + bs.length) bs' := by
  obtain ⟨before, after, rfl, rfl⟩ := h
  exact ⟨before ++ bs, after, by simp, by simp⟩

theorem Segment.length_le (h : Segment buf pos bs) : pos + bs.length ≤ buf.length := by
  obtain ⟨before, after, rfl, rfl⟩ := h
  rw [List.length_append, List.length_append]
  exact Nat.le_add_right _ _

theorem Segment.slice_eq (h : Segment buf pos bs) : slice buf pos bs.length = some bs := by
  have hle := h.length_le
  obtain ⟨before, after, rfl, rfl⟩ := h
  rw [slice, if_pos hle, List.append_assoc, List.drop_left, List.take_left]

end segment

/-- Values written in a fixed number of bytes. -/
structure Code (B V : Type) where
  size : Nat
  enc : V → List B
  dec : List B → V
  Fits : V → Prop
  length_enc : ∀ v, (enc v).length = size
  dec_enc : ∀ {v}, Fits v → dec (enc v) = v

namespace Code

variable (c : Code B V)

/-- The value at `pos`, and where the next one starts. -/
def get (buf : List B) (pos : Nat) : Option (V × Nat) :=
  (slice buf pos c.size).map fun bs => (c.dec bs, pos + c.size)

def array (vs : List V) : List B := vs.flatMap c.enc

variable {c} {buf bs : List B} {pos : Nat}

theorem get_eq {v : V} (h : Segment buf pos (c.enc v)) (hv : c.Fits v) : c.get buf pos = some (v, pos + c.size) := by
  have hslice := h.slice_eq
  rw [c.length_enc] at hslice
  rw [get, hslice, Option.map_some, c.dec_enc hv]

/-- A value, and what is written after it. -/
theorem get_append {v : V} (h : Segment buf pos (c.enc v ++ bs)) (hv : c.Fits v) :
    c.get buf pos = some (v, pos + c.size) ∧ Segment buf (pos + c.size) bs := by
  have hright := h.right
  rw [c.length_enc] at hright
  exact ⟨get_eq h.left hv, hright⟩

theorem length_array (vs : List V) : (c.array vs).length = vs.length * c.size := by
  induction vs with
  | nil => simp [array]
  | cons v vs ih =>
    have hcons : c.array (v :: vs) = c.enc v ++ c.array vs := rfl
    rw [hcons, List.length_append, c.length_enc, ih, List.length_cons, Nat.succ_mul, Nat.add_comm]

/-- The value at an index. -/
theorem get_array {vs rest : List V} {i : Nat} {v : V} (h : Segment buf pos (c.array vs)) (hi : vs.drop i = v :: rest)
    (hv : c.Fits v) : c.get buf (pos + i * c.size) = some (v, pos + i * c.size + c.size) := by
  have hlt : i < vs.length := by
    by_contra hge
    rw [List.drop_eq_nil_of_le (Nat.le_of_not_lt hge)] at hi
    cases hi
  have hsplit : c.array vs = c.array (vs.take i) ++ (c.enc v ++ c.array rest) := by
    conv => lhs; rw [← List.take_append_drop i vs, hi]
    simp [array]
  rw [hsplit] at h
  have hat := h.right.left
  rw [length_array, List.length_take_of_le (Nat.le_of_lt hlt)] at hat
  exact get_eq hat hv

end Code

/-! ## Little-endian numbers -/

/-- A number in `count` bytes, the lowest first. -/
def leBytes : (count n : Nat) → List UInt8
  | 0, _ => []
  | count + 1, n => UInt8.ofNat n :: leBytes count (n / 256)

def fromLe : List UInt8 → Nat
  | [] => 0
  | b :: bs => b.toNat + 256 * fromLe bs

theorem length_leBytes (count n : Nat) : (leBytes count n).length = count := by
  induction count generalizing n with
  | zero => rfl
  | succ count ih => rw [leBytes, List.length_cons, ih]

theorem fromLe_leBytes {count n : Nat} (h : n < 256 ^ count) : fromLe (leBytes count n) = n := by
  induction count generalizing n with
  | zero => rw [Nat.pow_zero, Nat.lt_one_iff] at h; subst h; rfl
  | succ count ih =>
    have hdiv : n / 256 < 256 ^ count := Nat.div_lt_of_lt_mul (by rwa [Nat.pow_succ'] at h)
    rw [leBytes, fromLe, ih hdiv, UInt8.toNat_ofNat']
    exact Nat.mod_add_div n 256

/-- A loop over indices into a list is the loop over what they point at. -/
theorem foldlM_range (f : S → T → Option S) (xs : List T) (k : Nat) {n : Nat} (h : k + n ≤ xs.length) (s : S) :
    (List.range n).foldlM (fun s i => xs[k + i]?.bind (f s)) s = ((xs.drop k).take n).foldlM f s := by
  induction n with
  | zero => rfl
  | succ n ih =>
    have hlt : k + n < xs.length := h
    have htake : (xs.drop k).take (n + 1) = (xs.drop k).take n ++ [xs[k + n]] := by
      rw [List.take_add_one, List.getElem?_drop, List.getElem?_eq_getElem hlt]
      rfl
    rw [List.range_succ, List.foldlM_append, ih (Nat.le_of_lt hlt), htake, List.foldlM_append]
    congr 1
    funext s'
    simp [List.getElem?_eq_getElem hlt]

end Layout
