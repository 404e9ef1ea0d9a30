import Mathlib.Algebra.Order.Ring.Nat
import Mathlib.Data.List.Infix
/-!
# First occurrences

`position needle l` is the first index at which `needle` occurs in `l`.

- `position_eq_some_iff`, `position_eq_none_iff`: what it answers.
- `position_append`: what comes after cannot move an occurrence, where none
  reaches over the seam (`prefix_within`).
- `not_prefix_between`: a word that no proper suffix of it begins does not
  overlap itself.
- `upTo`: a text up to the first of one thing.
-/

namespace Search

variable {α : Type} [DecidableEq α]

/-- The first index at which `needle` occurs. -/
def position (needle : List α) : List α → Option Nat
  | [] => none
  | a :: l => if needle <+: a :: l then some 0 else (position needle l).map (· + 1)

/-- `l` up to its first `b`, and that. -/
def upTo (b : α) (l : List α) : List α := l.takeWhile (· ≠ b) ++ [b]

variable {needle l : List α}

theorem position_eq_some_iff (hne : needle ≠ []) {i : Nat} :
    position needle l = some i ↔ needle <+: l.drop i ∧ ∀ j < i, ¬ needle <+: l.drop j := by
  induction l generalizing i with
  | nil => simp [position, List.prefix_nil, hne]
  | cons a l ih =>
    unfold position
    split
    · rename_i hpre
      constructor
      · intro h
        cases h
        exact ⟨hpre, nofun⟩
      · rintro ⟨-, hfirst⟩
        cases i with
        | zero => rfl
        | succ i => exact absurd hpre (hfirst 0 i.succ_pos)
    · rename_i hpre
      rw [Option.map_eq_some_iff]
      constructor
      · rintro ⟨i, h, rfl⟩
        obtain ⟨hi, hfirst⟩ := ih.1 h
        refine ⟨hi, ?_⟩
        intro j hj
        cases j with
        | zero => exact hpre
        | succ j => exact hfirst j (Nat.lt_of_succ_lt_succ hj)
      · rintro ⟨hi, hfirst⟩
        cases i with
        | zero => exact absurd hi hpre
        | succ i =>
          refine ⟨i, ih.2 ⟨hi, ?_⟩, rfl⟩
          intro j hj
          exact hfirst (j + 1) (Nat.succ_lt_succ hj)

theorem position_eq_none_iff (hne : needle ≠ []) : position needle l = none ↔ ∀ i, ¬ needle <+: l.drop i := by
  constructor
  · intro h i hi
    -- the least index at which it occurs would be the answer
    induction i using Nat.strongRecOn with
    | ind i ih =>
      have hsome := (position_eq_some_iff hne).2 ⟨hi, ih⟩
      rw [h] at hsome
      cases hsome
  · intro h
    cases hp : position needle l with
    | none => rfl
    | some i => exact absurd ((position_eq_some_iff hne).1 hp).1 (h i)

omit [DecidableEq α] in
theorem infix_iff_drop : needle <:+: l ↔ ∃ i, needle <+: l.drop i := by
  constructor
  · rintro ⟨before, after, rfl⟩
    exact ⟨before.length, after, by simp⟩
  · rintro ⟨i, after, h⟩
    exact ⟨l.take i, after, by rw [List.append_assoc, h, List.take_append_drop]⟩

theorem position_eq_none_iff_absent (hne : needle ≠ []) : position needle l = none ↔ ¬ needle <:+: l := by
  rw [position_eq_none_iff hne, infix_iff_drop, not_exists]

/-! ## Seams -/

omit [DecidableEq α] in
/-- An occurrence that begins before a seam ends before it, when what comes
after the seam begins with nothing of the word's tail. -/
theorem prefix_within {a : α} {word r : List α} (hr : ∀ b ∈ r.head?, b ∉ word) {i : Nat} (hi : i < l.length)
    (h : a :: word <+: (l ++ r).drop i) : a :: word <+: l.drop i := by
  rw [List.drop_append_of_le_length (Nat.le_of_lt hi)] at h
  rcases Nat.le_total (a :: word).length (l.drop i).length with hle | hle
  · exact List.prefix_of_prefix_length_le h (List.prefix_append _ _) hle
  obtain ⟨extra, hextra⟩ := List.prefix_of_prefix_length_le (List.prefix_append _ r) h hle
  cases extra with
  | nil => exact ⟨[], by rw [List.append_nil, ← hextra, List.append_nil]⟩
  | cons b extra =>
    rw [← hextra, List.prefix_append_right_inj] at h
    obtain ⟨rest, rfl⟩ := h
    obtain ⟨c, tail, hdrop⟩ := List.exists_cons_of_ne_nil (List.ne_nil_of_length_pos (by
      rw [List.length_drop]
      omega : 0 < (l.drop i).length))
    rw [hdrop, List.cons_append, List.cons.injEq] at hextra
    refine absurd ?_ (hr b rfl)
    rw [← hextra.2]
    exact List.mem_append_right _ List.mem_cons_self

omit [DecidableEq α] in
/-- No occurrence reaches over such a seam. -/
theorem infix_append_iff {a : α} {word r : List α} (hr : ∀ b ∈ r.head?, b ∉ word) :
    a :: word <:+: l ++ r ↔ a :: word <:+: l ∨ a :: word <:+: r := by
  constructor
  · intro h
    obtain ⟨i, hi⟩ := infix_iff_drop.1 h
    rcases Nat.lt_or_ge i l.length with hlt | hge
    · exact .inl (infix_iff_drop.2 ⟨i, prefix_within hr hlt hi⟩)
    · refine .inr (infix_iff_drop.2 ⟨i - l.length, ?_⟩)
      rwa [List.drop_append, List.drop_eq_nil_of_le hge, List.nil_append] at hi
  · rintro (h | h)
    · exact h.trans (List.prefix_append _ _).isInfix
    · exact h.trans (List.suffix_append _ _).isInfix

/-- The first occurrence in a text stays the first whatever is appended. -/
theorem position_append (hne : needle ≠ []) {i : Nat} (h : position needle l = some i) (r : List α) :
    position needle (l ++ r) = some i := by
  obtain ⟨hi, hfirst⟩ := (position_eq_some_iff hne).1 h
  have hlen := hi.length_le
  have hpos := List.length_pos_iff.2 hne
  rw [List.length_drop] at hlen
  refine (position_eq_some_iff hne).2 ⟨?_, ?_⟩
  · rw [List.drop_append_of_le_length (by omega)]
    exact List.prefix_append_of_prefix hi
  · intro j hj hpre
    apply hfirst j hj
    -- it lies before the one that is there, so within the first text
    rw [List.drop_append_of_le_length (by omega)] at hpre
    apply List.prefix_of_prefix_length_le hpre (List.prefix_append _ _)
    rw [List.length_drop]
    omega

/-- Where a text has no occurrence, and none begins in it, the first one is in
what is appended. -/
theorem position_skip {a : α} {word r : List α} (hr : ∀ b ∈ r.head?, b ∉ word)
    (h : position (a :: word) l = none) (hword : a :: word <+: r) :
    position (a :: word) (l ++ r) = some l.length := by
  rw [position_eq_none_iff (List.cons_ne_nil _ _)] at h
  rw [position_eq_some_iff (List.cons_ne_nil _ _)]
  refine ⟨by rwa [List.drop_left], ?_⟩
  intro j hj hpre
  exact h j (prefix_within hr hj hpre)

omit [DecidableEq α] in
/-- A word that is not begun by any proper suffix of it does not overlap
itself. -/
theorem not_prefix_between {word : List α} (hword : ∀ k, 0 < k → k < word.length → ¬ word.drop k <+: word) {i j : Nat}
    (hi : word <+: l.drop i) (hij : i < j) (hj : j < i + word.length) : ¬ word <+: l.drop j := by
  intro h
  obtain ⟨rest, hrest⟩ := hi
  have hdrop : l.drop j = word.drop (j - i) ++ rest := by
    rw [show j = i + (j - i) by omega, ← List.drop_drop, ← hrest, List.drop_append_of_le_length (by omega)]
    simp
  rw [hdrop] at h
  apply hword (j - i) (by omega) (by omega)
  exact List.prefix_of_prefix_length_le (List.prefix_append _ _) h (by simp)

/-! ## The first of one thing -/

theorem position_singleton (b : α) : position [b] l = if b ∈ l then some (l.takeWhile (· ≠ b)).length else none := by
  induction l with
  | nil => rfl
  | cons a l ih =>
    unfold position
    by_cases hab : b = a
    · subst hab
      simp
    · have hab' : a ≠ b := fun h => hab h.symm
      simp only [List.cons_prefix_cons, hab, List.nil_prefix, and_true, if_false, ih, List.mem_cons, false_or]
      split <;> simp [hab']

theorem take_position {b : α} {i : Nat} (h : position [b] l = some i) : l.take (i + 1) = upTo b l := by
  induction l generalizing i with
  | nil => cases h
  | cons a l ih =>
    by_cases hab : a = b
    · subst hab
      simp [position] at h
      subst h
      simp [upTo]
    · have hab' : b ≠ a := fun h => hab h.symm
      simp only [position, List.cons_prefix_cons, hab', false_and, if_false, Option.map_eq_some_iff] at h
      obtain ⟨i, hi, rfl⟩ := h
      rw [List.take_succ_cons, ih hi]
      simp [upTo, hab]

theorem upTo_append_of_not_mem {b : α} (h : b ∉ l) (r : List α) : upTo b (l ++ r) = l ++ upTo b r := by
  unfold upTo
  rw [List.takeWhile_append_of_pos, List.append_assoc]
  intro a ha
  have : a ≠ b := fun hab => h (hab ▸ ha)
  simpa using this

theorem upTo_append_of_mem {b : α} (h : b ∈ l) (r : List α) : upTo b (l ++ r) = upTo b l := by
  obtain ⟨before, after, rfl, hbefore⟩ := List.eq_append_cons_of_mem h
  rw [List.append_assoc, upTo_append_of_not_mem hbefore, upTo_append_of_not_mem hbefore]
  simp [upTo]

end Search
