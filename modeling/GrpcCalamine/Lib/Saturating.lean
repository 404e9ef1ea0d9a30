import Mathlib.Algebra.Order.Ring.Nat
/-!
# `u64` arithmetic

Sums and products that stop at the largest `u64`, and products that wrap there.
Against a bound below that largest value the first compare as the exact ones
do; the second are exact where they fit (`wrapMul_eq_iff`).
-/

def U64_MAX : Nat := 2 ^ 64 - 1

def satAdd (a b : Nat) : Nat := min (a + b) U64_MAX
def satMul (a b : Nat) : Nat := min (a * b) U64_MAX

/-- A product no one checks. -/
def wrapMul (a b : Nat) : Nat := a * b % 2 ^ 64

theorem wrapMul_eq_iff {a b : Nat} : wrapMul a b = a * b ↔ a * b < 2 ^ 64 := Nat.mod_eq_iff_lt (by decide)

theorem min_max_le_iff {a m : Nat} (hm : m < U64_MAX) : min a U64_MAX ≤ m ↔ a ≤ m := by omega

theorem satAdd_le_iff {a b m : Nat} (hm : m < U64_MAX) : satAdd a b ≤ m ↔ a + b ≤ m := min_max_le_iff hm

theorem satMul_le_iff {a b m : Nat} (hm : m < U64_MAX) : satMul a b ≤ m ↔ a * b ≤ m := min_max_le_iff hm

theorem satAdd_assoc (a b c : Nat) : satAdd (satAdd a b) c = satAdd a (b + c) := by
  unfold satAdd
  omega

theorem le_satAdd {a : Nat} (h : a ≤ U64_MAX) (b : Nat) : a ≤ satAdd a b :=
  Nat.le_min.2 ⟨Nat.le_add_right a b, h⟩

theorem satAdd_le (a b : Nat) : satAdd a b ≤ U64_MAX := Nat.min_le_right _ _

theorem satAdd_zero {a : Nat} (h : a ≤ U64_MAX) : satAdd a 0 = a := Nat.min_eq_left h

theorem satAdd_eq {a b : Nat} (h : a + b ≤ U64_MAX) : satAdd a b = a + b := Nat.min_eq_left h
