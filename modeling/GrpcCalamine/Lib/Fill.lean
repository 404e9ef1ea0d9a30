import GrpcCalamine.Lib.Grid
import Mathlib.Algebra.Order.Ring.Nat
/-!
# Rows filled in

`filled` lists rows in order with the rows between two of them: what `announce`
says by a gap, row by row, each as wide as `gap` has it. Two ways to fill the
same rows in, the one nowhere wider than the other, agree exactly when they
come to as many cells (`level_of_tally`, `filled_eq_of_level`), which is a
matter of each row and the one before it (`level_iff`).
-/

namespace Grid

variable {T : Type}

/-- The rows between `prev` and `i`, `gap` of them wide. -/
def between (empty : T) (gap : Nat → Nat → Nat) : (prev : Option Nat) → (i : Nat) → List (Nat × List T)
  | none, _ => []
  | some p, i => (List.range (i - (p + 1))).map fun k => (p + 1 + k, List.replicate (gap p i) empty)

/-- Rows in order, each after the rows between it and the one before. -/
def filled (empty : T) (gap : Nat → Nat → Nat) (row : Nat → List T) : (prev : Option Nat) → List Nat → List (Nat × List T)
  | _, [] => []
  | prev, i :: rest => between empty gap prev i ++ (i, row i) :: filled empty gap row (some i) rest

section filled

variable {empty : T} {gap : Nat → Nat → Nat} {row : Nat → List T}

theorem filled_concat (prev : Option Nat) (is : List Nat) (i : Nat) :
    filled empty gap row prev (is ++ [i]) =
      filled empty gap row prev is ++ (between empty gap (is.getLast?.or prev) i ++ [(i, row i)]) := by
  induction is generalizing prev with
  | nil => rfl
  | cons j is ih =>
    have hlast : is.getLast?.or (some j) = (j :: is).getLast?.or prev := by
      rw [List.getLast?_cons]
      cases is.getLast? <;> rfl
    rw [List.cons_append, filled, ih, hlast, filled, List.append_assoc, List.cons_append]

theorem filled_congr {gap' : Nat → Nat → Nat} {row' : Nat → List T} {is : List Nat}
    (h : ∀ i ∈ is, (∀ p, gap p i = gap' p i) ∧ row i = row' i) (prev : Option Nat) :
    filled empty gap row prev is = filled empty gap' row' prev is := by
  induction is generalizing prev with
  | nil => rfl
  | cons i is ih =>
    obtain ⟨⟨hgap, hrow⟩, hrest⟩ := List.forall_mem_cons.1 h
    rw [filled, filled, ih hrest, hrow]
    cases prev with
    | none => rfl
    | some p => rw [between, between, hgap p]

/-- Each of the rows is there. -/
theorem row_mem_filled {is : List Nat} {i : Nat} (h : i ∈ is) (prev : Option Nat) :
    (i, row i) ∈ filled empty gap row prev is := by
  induction is generalizing prev with
  | nil => cases h
  | cons j is ih =>
    apply List.mem_append_right
    rcases List.mem_cons.1 h with rfl | h
    · exact List.mem_cons_self
    · exact List.mem_cons_of_mem _ (ih h (some j))

/-- A cell is of one of the rows, or blank. -/
theorem mem_filled {is : List Nat} {prev : Option Nat} {x : Nat × List T} (h : x ∈ filled empty gap row prev is) {v : T}
    (hv : v ∈ x.2) : v = empty ∨ ∃ i ∈ is, v ∈ row i := by
  induction is generalizing prev with
  | nil => cases h
  | cons i is ih =>
    rcases List.mem_append.1 h with h | h
    · cases prev with
      | none => cases h
      | some p =>
        obtain ⟨k, -, rfl⟩ := List.mem_map.1 h
        exact .inl (List.eq_of_mem_replicate hv)
    · rcases List.mem_cons.1 h with rfl | h
      · exact .inr ⟨i, List.mem_cons_self, hv⟩
      · exact (ih h).imp_right fun ⟨j, hj, hrow⟩ => ⟨j, List.mem_cons_of_mem i hj, hrow⟩

end filled

/-- How many cells there are. -/
def tally (rows : List (Nat × List T)) : Nat := (rows.map (·.2.length)).sum

/-- Two ways to fill rows in come to the same widths: of each row, and of the
rows between two of them. -/
def Level (gap gap' : Nat → Nat → Nat) (row row' : Nat → List T) : (prev : Option Nat) → List Nat → Prop
  | _, [] => True
  | prev, i :: rest =>
    (∀ p ∈ prev, p + 1 < i → gap p i = gap' p i) ∧ (row i).length = (row' i).length ∧
      Level gap gap' row row' (some i) rest

section level

variable {empty : T} {gap gap' : Nat → Nat → Nat} {row row' : Nat → List T} {is : List Nat} {prev : Option Nat}

theorem tally_filled_cons (i : Nat) :
    tally (filled empty gap row prev (i :: is)) =
      (prev.map fun p => (i - (p + 1)) * gap p i).getD 0 + (row i).length + tally (filled empty gap row (some i) is) := by
  have hbetween : tally (between empty gap prev i) = (prev.map fun p => (i - (p + 1)) * gap p i).getD 0 := by
    cases prev with
    | none => rfl
    | some p => simp [tally, between, Function.comp_def]
  rw [← hbetween]
  simp only [tally, filled, List.map_append, List.map_cons, List.sum_append, List.sum_cons]
  omega

/-- Where the one way is nowhere wider and as wide in all, the two are level. -/
theorem level_of_tally (hgap : ∀ p i, p < i → gap p i ≤ gap' p i) (hrow : ∀ i, (row i).length ≤ (row' i).length)
    (hasc : is.Pairwise (· < ·)) (hprev : ∀ p ∈ prev, ∀ i ∈ is, p < i) :
    tally (filled empty gap row prev is) ≤ tally (filled empty gap' row' prev is) ∧
      (tally (filled empty gap row prev is) = tally (filled empty gap' row' prev is) → Level gap gap' row row' prev is) := by
  induction is generalizing prev with
  | nil => exact ⟨Nat.le_refl _, fun _ => trivial⟩
  | cons i is ih =>
    obtain ⟨hi, hasc'⟩ := List.pairwise_cons.1 hasc
    have hlate : ∀ p ∈ some i, ∀ j ∈ is, p < j := fun p hp j hj => Option.some.inj hp ▸ hi j hj
    obtain ⟨hle, hlevel⟩ := ih hasc' hlate
    have hbetween : (prev.map fun p => (i - (p + 1)) * gap p i).getD 0 ≤
        (prev.map fun p => (i - (p + 1)) * gap' p i).getD 0 := by
      cases prev with
      | none => exact Nat.le_refl _
      | some p => exact Nat.mul_le_mul_left _ (hgap p i (hprev p rfl i List.mem_cons_self))
    have hlen := hrow i
    rw [tally_filled_cons, tally_filled_cons]
    refine ⟨by omega, fun heq => ⟨?_, by omega, hlevel (by omega)⟩⟩
    rintro p rfl hfar
    have hcount : (i - (p + 1)) * gap p i = (i - (p + 1)) * gap' p i := by
      simp only [Option.map_some, Option.getD_some] at hbetween heq
      omega
    exact Nat.eq_of_mul_eq_mul_left (Nat.sub_pos_of_lt hfar) hcount

/-- Level ways, with rows that their lengths fix, are one. -/
theorem filled_eq_of_level (hrow : ∀ i, (row i).length = (row' i).length → row i = row' i)
    (h : Level gap gap' row row' prev is) : filled empty gap row prev is = filled empty gap' row' prev is := by
  induction is generalizing prev with
  | nil => rfl
  | cons i is ih =>
    obtain ⟨hgap, hlen, hrest⟩ := h
    rw [filled, filled, ih hrest, hrow i hlen]
    cases prev with
    | none => rfl
    | some p =>
      rcases Nat.lt_or_ge (p + 1) i with hfar | hnear
      · rw [between, between, hgap p rfl hfar]
      · rw [between, between, Nat.sub_eq_zero_of_le hnear]
        rfl

/-- Level is a matter of neighbours. -/
theorem level_iff (hasc : is.Pairwise (· < ·)) (hprev : ∀ p ∈ prev, ∀ i ∈ is, p < i) :
    Level gap gap' row row' prev is ↔
      (∀ i ∈ is, (row i).length = (row' i).length) ∧
        ∀ i ∈ is, ∀ p, p ∈ prev ∨ p ∈ is → p + 1 < i → (∀ q ∈ is, p < q → ¬ q < i) → gap p i = gap' p i := by
  induction is generalizing prev with
  | nil => exact ⟨fun _ => ⟨List.forall_mem_nil _, List.forall_mem_nil _⟩, fun _ => trivial⟩
  | cons i is ih =>
    obtain ⟨hi, hasc'⟩ := List.pairwise_cons.1 hasc
    have hlate : ∀ p ∈ some i, ∀ j ∈ is, p < j := fun p hp j hj => Option.some.inj hp ▸ hi j hj
    rw [Level, ih hasc' hlate]
    constructor
    · rintro ⟨hfirst, hlen, hlens, hgaps⟩
      refine ⟨List.forall_mem_cons.2 ⟨hlen, hlens⟩, fun j hj p hp hfar hnone => ?_⟩
      rcases List.mem_cons.1 hj with rfl | hj
      · rcases hp with hp | hp
        · exact hfirst p hp hfar
        · rcases List.mem_cons.1 hp with rfl | hp
          · omega
          · have := hi p hp
            omega
      · -- the row before `j` is not one before `i`
        have hp' : p ∈ some i ∨ p ∈ is := by
          rcases hp with hp | hp
          · exact absurd (hi j hj) (hnone i List.mem_cons_self (hprev p hp i List.mem_cons_self))
          · rcases List.mem_cons.1 hp with rfl | hp
            · exact .inl rfl
            · exact .inr hp
        exact hgaps j hj p hp' hfar fun q hq => hnone q (List.mem_cons_of_mem _ hq)
    · rintro ⟨hlens, hgaps⟩
      obtain ⟨hlen, hlens⟩ := List.forall_mem_cons.1 hlens
      refine ⟨fun p hp hfar => ?_, hlen, hlens, fun j hj p hp hfar hnone => ?_⟩
      · apply hgaps i List.mem_cons_self p (.inl hp) hfar
        intro q hq _ hlt
        rcases List.mem_cons.1 hq with rfl | hq
        · exact Nat.lt_irrefl _ hlt
        · exact Nat.lt_asymm hlt (hi q hq)
      · have hp' : p ∈ i :: is := by
          rcases hp with hp | hp
          · exact Option.some.inj hp ▸ List.mem_cons_self
          · exact List.mem_cons_of_mem _ hp
        apply hgaps j (List.mem_cons_of_mem _ hj) p (.inr hp') hfar
        intro q hq hlt
        rcases List.mem_cons.1 hq with rfl | hq
        · rcases List.mem_cons.1 hp' with rfl | hp'
          · exact absurd hlt (Nat.lt_irrefl _)
          · exact absurd hlt (Nat.lt_asymm (hi p hp'))
        · exact hnone q hq hlt

end level

/-! ## Populated rows -/

theorem populated_filter_concat {α : Type} (ws : List (Write α)) (w : Write α) :
    (populated (ws ++ [w])).filter (· < w.row) = (populated ws).filter (· < w.row) := by
  apply List.Pairwise.eq_of_mem_iff ((Grid.populated_ascending _).filter _) ((Grid.populated_ascending _).filter _)
  intro r
  simp only [List.mem_filter, Grid.mem_populated, List.map_append, List.mem_append, List.map_cons, List.map_nil,
    List.mem_singleton, decide_eq_true_eq]
  constructor
  · rintro ⟨hr | rfl, hlt⟩
    · exact ⟨hr, hlt⟩
    · exact absurd hlt (Nat.lt_irrefl _)
  · exact fun h => ⟨.inl h.1, h.2⟩

/-- One row further down. -/
theorem filter_succ {l : List Nat} (hasc : l.Pairwise (· < ·)) (n : Nat) :
    l.filter (· < n + 1) = l.filter (· < n) ++ if n ∈ l then [n] else [] := by
  have hboth : (l.filter (· < n) ++ if n ∈ l then [n] else []).Pairwise (· < ·) := by
    refine List.pairwise_append.2 ⟨hasc.filter _, ?_, fun x hx y hy => ?_⟩
    · split <;> simp
    · split at hy
      · rw [List.mem_singleton.1 hy]
        exact of_decide_eq_true (List.mem_filter.1 hx).2
      · cases hy
  apply List.Pairwise.eq_of_mem_iff (hasc.filter _) hboth
  intro x
  by_cases hn : n ∈ l
  · simp only [List.mem_filter, decide_eq_true_eq, if_pos hn, List.mem_append, List.mem_singleton]
    constructor
    · rintro ⟨hx, hlt⟩
      rcases Nat.lt_succ_iff_lt_or_eq.1 hlt with hlt | rfl
      · exact .inl ⟨hx, hlt⟩
      · exact .inr rfl
    · rintro (⟨hx, hlt⟩ | rfl)
      · exact ⟨hx, Nat.lt_succ_of_lt hlt⟩
      · exact ⟨hn, Nat.lt_succ_self _⟩
  · simp only [List.mem_filter, decide_eq_true_eq, if_neg hn, List.append_nil]
    apply and_congr_right
    intro hx
    have hne : x ≠ n := fun he => hn (he ▸ hx)
    omega

end Grid
