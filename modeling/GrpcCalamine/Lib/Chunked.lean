import Mathlib.Data.List.Basic
/-!
# A list in pieces

`chunks n xs` is `xs` in pieces of `n`, the last of which may be shorter: the
first pieces together are a prefix of `xs` (`flatten_take_chunks`), and no piece
is empty.
-/

namespace Chunked

variable {α : Type}

/-- Nothing for `n = 0`, where there are no such pieces. -/
def chunks (n : Nat) (xs : List α) : List (List α) :=
  if n = 0 ∨ xs = [] then [] else xs.take n :: chunks n (xs.drop n)
termination_by xs.length
decreasing_by
  rename_i h
  obtain ⟨hn, hxs⟩ := not_or.1 h
  have hpos := List.length_pos_iff.2 hxs
  rw [List.length_drop]
  omega

@[simp] theorem chunks_nil (n : Nat) : chunks n ([] : List α) = [] := by
  rw [chunks, if_pos (.inr rfl)]

theorem chunks_cons {n : Nat} (hn : n ≠ 0) {xs : List α} (hxs : xs ≠ []) :
    chunks n xs = xs.take n :: chunks n (xs.drop n) := by
  rw [chunks, if_neg (not_or.2 ⟨hn, hxs⟩)]

theorem chunks_eq_nil_iff {n : Nat} (hn : n ≠ 0) {xs : List α} : chunks n xs = [] ↔ xs = [] := by
  by_cases hxs : xs = []
  · simp [hxs]
  · simp [chunks_cons hn hxs, hxs]

theorem flatten_take_chunks {n : Nat} (hn : n ≠ 0) (i : Nat) (xs : List α) :
    ((chunks n xs).take i).flatten = xs.take (n * i) := by
  induction i generalizing xs with
  | zero => rfl
  | succ i ih =>
    by_cases hxs : xs = []
    · simp [hxs]
    · rw [chunks_cons hn hxs, List.take_succ_cons, List.flatten_cons, ih, Nat.mul_succ, Nat.add_comm, List.take_add]

theorem flatten_chunks {n : Nat} (hn : n ≠ 0) (xs : List α) : (chunks n xs).flatten = xs := by
  induction xs using chunks.induct n with
  | case1 xs hstop => rw [chunks, if_pos hstop, List.flatten_nil, hstop.resolve_left hn]
  | case2 xs hgo ih => rw [chunks, if_neg hgo, List.flatten_cons, ih, List.take_append_drop]

theorem chunk_ne_nil {n : Nat} {xs chunk : List α} (h : chunk ∈ chunks n xs) : chunk ≠ [] := by
  induction xs using chunks.induct n with
  | case1 xs hstop =>
    rw [chunks, if_pos hstop] at h
    cases h
  | case2 xs hgo ih =>
    rw [chunks, if_neg hgo] at h
    rcases List.mem_cons.1 h with rfl | h
    · exact fun hnil => hgo (List.take_eq_nil_iff.1 hnil)
    · exact ih h

end Chunked
