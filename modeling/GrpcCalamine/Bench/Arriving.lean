import GrpcCalamine.Bench.Received
/-!
# What the wire changes

A value arrives as it was read but for a date serial of -0.0, which arrives as
0.0. The calls for what arrives are then those for what was read exactly where
there is no such date (`map_arrivingCall_iff`), and each of them turns over the
lowest byte's top bit in the hash, so an odd number of them shows in the digest
(`even_of_ofCalls_eq`).
-/

namespace GrpcCalamine.Bench

open Layout (leBytes fromLe)

/-- A date whose serial is -0.0. -/
def MinusZero (d : Calamine.DataRef) : Prop := ∃ dt, d = .dateTime dt ∧ dt.value = Pb.minusZero

theorem arriving_eq_self {d : Calamine.DataRef} (h : ¬ MinusZero d) : arriving d = d := by
  cases d with
  | dateTime dt =>
    have hvalue : dt.value ≠ Pb.minusZero := fun he => h ⟨dt, rfl, he⟩
    rw [arriving, Pb.doubleReceived_eq_iff.2 hvalue]
  | _ => rfl

/-- The call for it. -/
def minusZeroCall : DigestCall := .cell 6 (leBytes 8 Pb.minusZero.toNat)

theorem digestRef_eq_minusZeroCall_iff {d : Calamine.DataRef} : digestRef d = minusZeroCall ↔ MinusZero d := by
  constructor
  · intro h
    cases d with
    | dateTime dt =>
      have hbytes : leBytes 8 dt.value.toNat = leBytes 8 Pb.minusZero.toNat := (DigestCall.cell.inj h).2
      have hnat := congrArg fromLe hbytes
      rw [Layout.fromLe_leBytes dt.value.toNat_lt, Layout.fromLe_leBytes Pb.minusZero.toNat_lt] at hnat
      exact ⟨dt, rfl, UInt64.toNat_inj.1 hnat⟩
    | _ => exact absurd (DigestCall.cell.inj h).1 (by decide)
  · rintro ⟨dt, rfl, hvalue⟩
    rw [minusZeroCall, ← hvalue]
    rfl

/-- A call for what was read, as it is for what arrives. -/
def arrivingCall (c : DigestCall) : DigestCall := if c = minusZeroCall then .cell 6 (leBytes 8 0) else c

theorem digestRef_arriving (d : Calamine.DataRef) : digestRef (arriving d) = arrivingCall (digestRef d) := by
  by_cases h : MinusZero d
  · rw [arrivingCall, if_pos (digestRef_eq_minusZeroCall_iff.2 h)]
    obtain ⟨dt, rfl, hvalue⟩ := h
    rw [arriving, hvalue]
    rfl
  · rw [arrivingCall, if_neg (mt digestRef_eq_minusZeroCall_iff.1 h), arriving_eq_self h]

theorem map_arrivingCall_iff {calls : List DigestCall} : calls.map arrivingCall = calls ↔ minusZeroCall ∉ calls := by
  have hself : ∀ c, arrivingCall c = c ↔ c ≠ minusZeroCall := by
    intro c
    unfold arrivingCall
    split
    · rename_i hc
      exact ⟨fun h => absurd (hc ▸ h) (by decide), fun h => absurd hc h⟩
    · rename_i hc
      exact ⟨fun _ => hc, fun _ => rfl⟩
  have hall : calls.map arrivingCall = calls ↔ ∀ c ∈ calls, arrivingCall c = id c := by
    rw [← List.map_inj_left, List.map_id]
  simp only [hall, id, hself]
  exact ⟨fun h hmem => h _ hmem rfl, fun h c hc he => h (he ▸ hc)⟩

/-! ## The lowest byte of the hash -/

def lowStep (x b : UInt8) : UInt8 := (x ^^^ b) * 0xb3

theorem low_write (d : Digest) (bytes : List UInt8) :
    (d.write bytes).hash.toUInt8 = bytes.foldl lowStep d.hash.toUInt8 := by
  unfold Digest.write
  generalize d.hash = hash
  induction bytes generalizing hash with
  | nil => rfl
  | cons b bytes ih =>
    have hstep : ((hash ^^^ b.toUInt64) * 0x100000001b3).toUInt8 = lowStep hash.toUInt8 b := by
      rw [UInt64.toUInt8_mul, UInt64.toUInt8_xor, UInt8.toUInt8_toUInt64]
      rfl
    simp only [List.foldl_cons, ih, hstep]

/-- What `n` dates of -0.0 turn over in it. -/
def turned (n : Nat) : UInt8 := if n % 2 = 0 then 0 else 0x80

/-- An odd factor keeps the top bit apart from the others. -/
theorem turn_mul (y : UInt8) : (y ^^^ 0x80) * 0xb3 = (y * 0xb3) ^^^ 0x80 := by
  have hall : ∀ y : Fin 256, (UInt8.ofNat y ^^^ 0x80) * 0xb3 = (UInt8.ofNat y * 0xb3) ^^^ 0x80 := by decide +kernel
  simpa using hall ⟨y.toNat, y.toNat_lt⟩

theorem turned_step (n : Nat) (x b : UInt8) : lowStep (x ^^^ turned n) b = lowStep x b ^^^ turned n := by
  unfold lowStep turned
  split
  · rw [UInt8.xor_zero, UInt8.xor_zero]
  · rw [UInt8.xor_assoc, UInt8.xor_comm 0x80, ← UInt8.xor_assoc, turn_mul]

theorem turned_foldl (n : Nat) (x : UInt8) (bytes : List UInt8) :
    bytes.foldl lowStep (x ^^^ turned n) = bytes.foldl lowStep x ^^^ turned n := by
  induction bytes generalizing x with
  | nil => rfl
  | cons b bytes ih => rw [List.foldl_cons, List.foldl_cons, turned_step, ih]

theorem turned_succ (n : Nat) : turned (n + 1) = turned n ^^^ 0x80 := by
  unfold turned
  rcases Nat.mod_two_eq_zero_or_one n with hn | hn
  · rw [if_neg (by omega), if_pos hn]
    rfl
  · rw [if_pos (by omega), if_neg (by omega)]
    rfl

/-- The one byte in which the two calls differ. -/
theorem low_minusZero {d d' : Digest} {n : Nat} (h : d'.hash.toUInt8 = d.hash.toUInt8 ^^^ turned n) :
    (d'.call (arrivingCall minusZeroCall)).hash.toUInt8 = (d.call minusZeroCall).hash.toUInt8 ^^^ turned (n + 1) := by
  have hbytes : ∀ x, (leBytes 8 0).foldl lowStep x = (leBytes 8 Pb.minusZero.toNat).foldl lowStep x ^^^ 0x80 := by
    intro x
    have hplus : leBytes 8 0 = List.replicate 7 0 ++ [0] := by decide
    have hminus : leBytes 8 Pb.minusZero.toNat = List.replicate 7 0 ++ [0x80] := by decide
    rw [hplus, hminus, List.foldl_append, List.foldl_append]
    generalize (List.replicate 7 0).foldl lowStep x = y
    simp only [List.foldl_cons, List.foldl_nil, lowStep, UInt8.xor_zero, turn_mul, UInt8.xor_assoc, UInt8.xor_self]
  have hplus : arrivingCall minusZeroCall = .cell 6 (leBytes 8 0) := if_pos rfl
  rw [hplus, minusZeroCall]
  simp only [Digest.call, Digest.cell, low_write, hbytes]
  rw [turned_succ, ← UInt8.xor_assoc, ← turned_foldl, ← turned_foldl, ← h]

/-- The calls for what arrives leave the byte turned over once for each date of
-0.0. -/
theorem low_calls (calls : List DigestCall) {d d' : Digest} {n : Nat}
    (h : d'.hash.toUInt8 = d.hash.toUInt8 ^^^ turned n) :
    ((calls.map arrivingCall).foldl Digest.call d').hash.toUInt8 =
      (calls.foldl Digest.call d).hash.toUInt8 ^^^ turned (n + calls.count minusZeroCall) := by
  induction calls generalizing d d' n with
  | nil => exact h
  | cons c calls ih =>
    rw [List.map_cons, List.foldl_cons, List.foldl_cons, List.count_cons]
    by_cases hc : c = minusZeroCall
    · have hturn : (d'.call (arrivingCall c)).hash.toUInt8 = (d.call c).hash.toUInt8 ^^^ turned (n + 1) := by
        rw [hc]
        exact low_minusZero h
      rw [ih hturn]
      simp only [hc, beq_self_eq_true, if_true]
      congr 2
      omega
    · have hsame : (d'.call (arrivingCall c)).hash.toUInt8 = (d.call c).hash.toUInt8 ^^^ turned n := by
        rw [arrivingCall, if_neg hc]
        cases c with
        | row rowIndex =>
          simp only [Digest.call, Digest.row, low_write]
          rw [← turned_foldl, ← h]
        | cell tag payload =>
          simp only [Digest.call, Digest.cell, low_write]
          rw [← turned_foldl, ← turned_foldl, ← h]
      rw [ih hsame]
      simp [hc]

/-- Digests that agree leave an even number of them. -/
theorem even_of_ofCalls_eq {calls : List DigestCall}
    (h : Digest.ofCalls (calls.map arrivingCall) = Digest.ofCalls calls) : 2 ∣ calls.count minusZeroCall := by
  have hstart : Digest.new.hash.toUInt8 = Digest.new.hash.toUInt8 ^^^ turned 0 := by decide
  have hlow := low_calls calls hstart
  have hcalls : ((calls.map arrivingCall).foldl Digest.call Digest.new) = calls.foldl Digest.call Digest.new := h
  rw [hcalls, Nat.zero_add] at hlow
  have hzero : turned (calls.count minusZeroCall) = 0 := by
    have hxor := congrArg (((calls.foldl Digest.call Digest.new).hash.toUInt8) ^^^ ·) hlow
    simpa [← UInt8.xor_assoc] using hxor.symm
  unfold turned at hzero
  split at hzero
  · rename_i hmod
    exact Nat.dvd_of_mod_eq_zero hmod
  · cases hzero

end GrpcCalamine.Bench
