import Mathlib.Algebra.Order.Ring.Nat
/-!
# Lengths on the protobuf wire

A varint has seven bits of its number in each byte (`varintLen_le_iff`). A
field is a key, itself a varint, and what its wire type says: a varint, eight
bytes, or a length and that many bytes.
-/

namespace Wire

/-- The bytes of a varint. -/
def varintLen (n : Nat) : Nat := n.log2 / 7 + 1

theorem varintLen_le_iff {n k : Nat} (hk : 0 < k) : varintLen n ≤ k ↔ n < 2 ^ (7 * k) := by
  have hlog : varintLen n ≤ k ↔ n.log2 < 7 * k := by
    unfold varintLen
    omega
  rw [hlog]
  by_cases hn : n = 0
  · subst hn
    have hzero : Nat.log2 0 = 0 := rfl
    rw [hzero]
    exact ⟨fun _ => Nat.two_pow_pos _, fun _ => by omega⟩
  · exact Nat.log2_lt hn

theorem varintLen_pos (n : Nat) : 1 ≤ varintLen n := Nat.le_add_left 1 _

theorem varintLen_mono {n m : Nat} (h : n ≤ m) : varintLen n ≤ varintLen m := by
  rw [varintLen_le_iff (varintLen_pos m)]
  exact Nat.lt_of_le_of_lt h ((varintLen_le_iff (varintLen_pos m)).1 (Nat.le_refl _))

/-- A varint of one byte. -/
theorem varintLen_eq_one {n : Nat} (h : n < 128) : varintLen n = 1 :=
  Nat.le_antisymm ((varintLen_le_iff Nat.one_pos).2 h) (varintLen_pos n)

/-! ## Fields -/

/-- The key of a field: its number and three bits of wire type. -/
def keyLen (field : Nat) : Nat := varintLen (8 * field + 7)

def varintField (field n : Nat) : Nat := keyLen field + varintLen n

def fixed64Field (field : Nat) : Nat := keyLen field + 8

/-- A field of `n` bytes: a string, bytes or a message. -/
def lenField (field n : Nat) : Nat := keyLen field + (varintLen n + n)

/-- With a key of one byte. -/
theorem lenField_eq {field : Nat} (hkey : keyLen field = 1) (n : Nat) : lenField field n = varintLen n + n + 1 := by
  rw [lenField, hkey, Nat.add_comm]

theorem lenField_mono {field n m : Nat} (h : n ≤ m) : lenField field n ≤ lenField field m :=
  Nat.add_le_add_left (Nat.add_le_add (varintLen_mono h) h) _

end Wire
