import Mathlib.Data.List.Sort
import Mathlib.Data.List.Dedup
import Mathlib.Data.List.Chain
/-!
# Grids written cell by cell

A grid is given by its writes in order, each a value at a row and a column; of
two writes at one position the later wins. `rows` is the dense reading: one row
per populated row index, ascending, each as long as its last written cell and
blank (`d`) where nothing was written. `put` is one write to a row, and
`denseRow_concat` says that writing step by step gives the dense reading.

`corners` bounds the writes and `byPosition` orders them, later writes at one
position still later. `announce` lists rows with the space between two of them
as a gap: `start` is the row index expected first, if any is.
-/

namespace Grid

variable {α ρ : Type}

/-- A value written at a row and a column. -/
structure Write (α : Type) where
  row : Nat
  col : Nat
  val : α

/-- The value written last at a position. -/
def lastAt (ws : List (Write α)) (r c : Nat) : Option α :=
  (ws.reverse.find? fun w => w.row = r ∧ w.col = c).map Write.val

/-- One past the last column written in a row. -/
def width (ws : List (Write α)) (r : Nat) : Nat :=
  ws.foldl (fun n w => if w.row = r then max n (w.col + 1) else n) 0

/-- A row, dense from column 0. -/
def denseRow (d : α) (ws : List (Write α)) (r : Nat) : List α :=
  (List.range (width ws r)).map fun c => (lastAt ws r c).getD d

/-- The row indices written to, ascending. -/
def populated (ws : List (Write α)) : List Nat := ((ws.map Write.row).dedup).insertionSort (· ≤ ·)

/-- The dense reading of the writes. -/
def rows (d : α) (ws : List (Write α)) : List (Nat × List α) :=
  (populated ws).map fun r => (r, denseRow d ws r)

/-- Write `v` at column `c` of a row, growing it with `d` to reach there. -/
def put (d : α) (vals : List α) (c : Nat) (v : α) : List α :=
  (vals ++ List.replicate (c + 1 - vals.length) d).set c v

/-! ## One write more -/

theorem lastAt_concat (ws : List (Write α)) (w : Write α) (r c : Nat) :
    lastAt (ws ++ [w]) r c = if w.row = r ∧ w.col = c then some w.val else lastAt ws r c := by
  simp only [lastAt, List.reverse_append, List.reverse_singleton, List.singleton_append, List.find?_cons]
  by_cases h : w.row = r ∧ w.col = c <;> simp [h]

theorem width_concat (ws : List (Write α)) (w : Write α) (r : Nat) :
    width (ws ++ [w]) r = if w.row = r then max (width ws r) (w.col + 1) else width ws r := by
  simp [width]

theorem length_denseRow (d : α) (ws : List (Write α)) (r : Nat) : (denseRow d ws r).length = width ws r := by
  simp [denseRow]

theorem getElem_denseRow (d : α) (ws : List (Write α)) (r c : Nat) (h : c < (denseRow d ws r).length) :
    (denseRow d ws r)[c] = (lastAt ws r c).getD d := by
  simp [denseRow]

/-- Nothing lies past the width of a row. -/
theorem lastAt_of_width_le (ws : List (Write α)) (r c : Nat) (h : width ws r ≤ c) : lastAt ws r c = none := by
  induction ws using List.reverseRecOn with
  | nil => rfl
  | append_singleton ws w ih =>
    rw [width_concat] at h
    rw [lastAt_concat]
    by_cases hr : w.row = r
    · rw [if_pos hr] at h
      have hc : w.col ≠ c := by omega
      rw [if_neg (fun hw => hc hw.2)]
      apply ih
      omega
    · rw [if_neg hr] at h
      rw [if_neg (fun hw => hr hw.1)]
      exact ih h

theorem length_put (d : α) (vals : List α) (c : Nat) (v : α) :
    (put d vals c v).length = max vals.length (c + 1) := by
  simp only [put, List.length_set, List.length_append, List.length_replicate]
  omega

theorem getElem_put (d : α) (vals : List α) (c : Nat) (v : α) (i : Nat) (h : i < (put d vals c v).length) :
    (put d vals c v)[i] = if i = c then v else vals[i]?.getD d := by
  simp only [put, List.getElem_set, eq_comm (a := c)]
  split
  · rfl
  · by_cases hi : i < vals.length
    · simp [hi]
    · simp [List.getElem_append, hi]

theorem getElem?_put (d : α) (vals : List α) (c : Nat) (v : α) (i : Nat) :
    (put d vals c v)[i]? = if i = c then some v else if i < c then some (vals[i]?.getD d) else vals[i]? := by
  by_cases hi : i < (put d vals c v).length
  · rw [List.getElem?_eq_getElem hi, getElem_put]
    rw [length_put] at hi
    split
    · rfl
    · split
      · rfl
      · rw [List.getElem?_eq_getElem (by omega), Option.getD_some]
  · rw [List.getElem?_eq_none (by omega)]
    rw [length_put] at hi
    rw [if_neg (by omega), if_neg (by omega), List.getElem?_eq_none (by omega)]

/-- A write to row `r` is a `put` on its dense reading. -/
theorem denseRow_concat (d : α) (ws : List (Write α)) (w : Write α) :
    denseRow d (ws ++ [w]) w.row = put d (denseRow d ws w.row) w.col w.val := by
  apply List.ext_getElem
  · simp only [length_denseRow, width_concat, length_put, if_true]
  · intro c h₁ h₂
    rw [getElem_denseRow, lastAt_concat, getElem_put]
    by_cases hc : w.col = c
    · simp [hc]
    · rw [if_neg (fun h => hc h.2), if_neg (fun h => hc h.symm)]
      by_cases hw : c < width ws w.row
      · rw [List.getElem?_eq_getElem (by rw [length_denseRow]; exact hw), getElem_denseRow]
        rfl
      · rw [List.getElem?_eq_none (by rw [length_denseRow]; omega), lastAt_of_width_le ws _ _ (by omega)]

/-- A write to another row leaves this one. -/
theorem denseRow_concat_ne (d : α) (ws : List (Write α)) (w : Write α) {r : Nat} (h : w.row ≠ r) :
    denseRow d (ws ++ [w]) r = denseRow d ws r := by
  unfold denseRow
  rw [width_concat, if_neg h]
  apply List.map_congr_left
  intro c _
  rw [lastAt_concat, if_neg (fun hw => h hw.1)]

/-- A row is no wider than its writes reach. -/
theorem width_le_iff (ws : List (Write α)) (r n : Nat) : width ws r ≤ n ↔ ∀ w ∈ ws, w.row = r → w.col < n := by
  induction ws using List.reverseRecOn with
  | nil => simp [width]
  | append_singleton ws w ih =>
    rw [width_concat]
    simp only [List.mem_append, List.mem_singleton, or_imp, forall_and, forall_eq, ← ih]
    by_cases hr : w.row = r
    · rw [if_pos hr, Nat.max_le]
      exact and_congr_right fun _ => ⟨fun h _ => h, fun h => h hr⟩
    · rw [if_neg hr]
      exact ⟨fun h => ⟨h, fun h' => absurd h' hr⟩, fun h => h.1⟩

theorem denseRow_of_not_mem (d : α) (ws : List (Write α)) {r : Nat} (h : r ∉ ws.map Write.row) :
    denseRow d ws r = [] := by
  induction ws using List.reverseRecOn with
  | nil => rfl
  | append_singleton ws w ih =>
    simp only [List.map_append, List.mem_append, not_or, List.map_cons, List.map_nil, List.mem_singleton] at h
    rw [denseRow_concat_ne d ws w (Ne.symm h.2), ih h.1]

/-! ## Values changed -/

def Write.map {β : Type} (f : α → β) (w : Write α) : Write β := ⟨w.row, w.col, f w.val⟩

section map

variable {β : Type} (f : α → β) (ws : List (Write α))

theorem width_map (r : Nat) : width (ws.map (.map f)) r = width ws r := List.foldl_map

theorem lastAt_map (r c : Nat) : lastAt (ws.map (.map f)) r c = (lastAt ws r c).map f := by
  rw [lastAt, lastAt, ← List.map_reverse, List.find?_map, Option.map_map, Option.map_map]
  rfl

theorem denseRow_map (d : α) (r : Nat) : denseRow (f d) (ws.map (.map f)) r = (denseRow d ws r).map f := by
  rw [denseRow, denseRow, width_map, List.map_map]
  apply List.map_congr_left
  intro c _
  rw [lastAt_map, Option.getD_map]
  rfl

theorem populated_map : populated (ws.map (.map f)) = populated ws := by
  rw [populated, populated, List.map_map]
  rfl

end map

/-! ## The rows that are populated -/

theorem mem_populated (ws : List (Write α)) (r : Nat) : r ∈ populated ws ↔ r ∈ ws.map Write.row := by
  simp [populated]

theorem populated_ascending (ws : List (Write α)) : (populated ws).Pairwise (· < ·) := by
  have hle : (populated ws).Pairwise (· ≤ ·) := List.pairwise_insertionSort _ _
  have hnd : (populated ws).Nodup :=
    (List.perm_insertionSort (· ≤ ·) _).nodup_iff.2 (List.nodup_dedup _)
  exact (hle.and hnd).imp fun h => lt_of_le_of_ne h.1 h.2

/-- Ascending rows over the populated indices, each holding its dense reading,
are the dense reading. -/
theorem eq_rows (d : α) (ws : List (Write α)) (rs : List (Nat × List α)) (hasc : (rs.map Prod.fst).Pairwise (· < ·))
    (hidx : ∀ r, r ∈ rs.map Prod.fst ↔ r ∈ ws.map Write.row) (hval : ∀ x ∈ rs, x.2 = denseRow d ws x.1) :
    rs = rows d ws := by
  have hp : rs.map Prod.fst = populated ws :=
    List.Pairwise.eq_of_mem_iff hasc (populated_ascending ws) fun r => by rw [hidx, mem_populated]
  rw [rows, ← hp, List.map_map]
  conv_lhs => rw [← List.map_id rs]
  apply List.map_congr_left
  intro x hx
  simp [← hval x hx]

/-! ## The bounding rectangle -/

/-- The corners of the smallest rectangle that holds every write: first row and
column, last row and column. -/
def corners (ws : List (Write α)) : Option ((Nat × Nat) × (Nat × Nat)) :=
  ws.foldl (fun o w => some (match o with
    | none => ((w.row, w.col), (w.row, w.col))
    | some (lo, hi) => ((min lo.1 w.row, min lo.2 w.col), (max hi.1 w.row, max hi.2 w.col)))) none

theorem corners_concat (ws : List (Write α)) (w : Write α) :
    corners (ws ++ [w]) = some (match corners ws with
      | none => ((w.row, w.col), (w.row, w.col))
      | some (lo, hi) => ((min lo.1 w.row, min lo.2 w.col), (max hi.1 w.row, max hi.2 w.col))) := by
  simp [corners]

/-- A rectangle that holds every write and touches one on each side. -/
structure Bounds (ws : List (Write α)) (lo hi : Nat × Nat) : Prop where
  within : ∀ w ∈ ws, lo.1 ≤ w.row ∧ w.row ≤ hi.1 ∧ lo.2 ≤ w.col ∧ w.col ≤ hi.2
  top : ∃ w ∈ ws, w.row = lo.1
  bottom : ∃ w ∈ ws, w.row = hi.1
  left : ∃ w ∈ ws, w.col = lo.2
  right : ∃ w ∈ ws, w.col = hi.2

theorem corners_bounds {ws : List (Write α)} {lo hi : Nat × Nat} (h : corners ws = some (lo, hi)) :
    Bounds ws lo hi := by
  induction ws using List.reverseRecOn generalizing lo hi with
  | nil => cases h
  | append_singleton ws w ih =>
    rw [corners_concat] at h
    cases hc : corners ws with
    | none =>
      have hnil : ws = [] := by
        cases ws using List.reverseRecOn with
        | nil => rfl
        | append_singleton ws w => rw [corners_concat] at hc; cases hc
      rw [hc] at h
      cases h
      subst hnil
      exact ⟨by simp, ⟨w, by simp, rfl⟩, ⟨w, by simp, rfl⟩, ⟨w, by simp, rfl⟩, ⟨w, by simp, rfl⟩⟩
    | some b =>
      obtain ⟨lo', hi'⟩ := b
      obtain ⟨hin, ⟨t, ht, htr⟩, ⟨b, hb, hbr⟩, ⟨l, hl, hlc⟩, ⟨r, hr, hrc⟩⟩ := ih hc
      rw [hc] at h
      cases h
      have hold : ∀ {x : Write α}, x ∈ ws → x ∈ ws ++ [w] := fun hx => List.mem_append_left _ hx
      have hnew : w ∈ ws ++ [w] := by simp
      -- each side is touched by the old write or by the new one
      constructor
      · intro x hx
        rcases List.mem_append.1 hx with hx | hx
        · have := hin x hx
          simp only []
          omega
        · rw [List.mem_singleton.1 hx]
          simp only []
          omega
      · rcases Nat.le_total lo'.1 w.row with hle | hle
        · exact ⟨t, hold ht, by simp [htr, hle]⟩
        · exact ⟨w, hnew, by simp [hle]⟩
      · rcases Nat.le_total hi'.1 w.row with hle | hle
        · exact ⟨w, hnew, by simp [hle]⟩
        · exact ⟨b, hold hb, by simp [hbr, hle]⟩
      · rcases Nat.le_total lo'.2 w.col with hle | hle
        · exact ⟨l, hold hl, by simp [hlc, hle]⟩
        · exact ⟨w, hnew, by simp [hle]⟩
      · rcases Nat.le_total hi'.2 w.col with hle | hle
        · exact ⟨w, hnew, by simp [hle]⟩
        · exact ⟨r, hold hr, by simp [hrc, hle]⟩

theorem corners_eq_none_iff (ws : List (Write α)) : corners ws = none ↔ ws = [] := by
  cases ws using List.reverseRecOn with
  | nil => simp [corners]
  | append_singleton ws w => simp [corners_concat]

/-! ## Writes in order of position -/

/-- By row and column; writes at one position keep their order. -/
def byPosition (ws : List (Write α)) : List (Write α) :=
  ws.insertionSort fun a b => a.row < b.row ∨ (a.row = b.row ∧ a.col ≤ b.col)

theorem byPosition_perm (ws : List (Write α)) : (byPosition ws).Perm ws := List.perm_insertionSort _ ws

theorem byPosition_ascending (ws : List (Write α)) : (byPosition ws).Pairwise fun a b => a.row ≤ b.row := by
  have : Std.Total fun a b : Write α => a.row < b.row ∨ (a.row = b.row ∧ a.col ≤ b.col) := ⟨fun a b => by omega⟩
  have : IsTrans (Write α) fun a b => a.row < b.row ∨ (a.row = b.row ∧ a.col ≤ b.col) := ⟨fun a b c => by omega⟩
  apply (List.pairwise_insertionSort (fun a b : Write α => a.row < b.row ∨ (a.row = b.row ∧ a.col ≤ b.col)) ws).imp
  intro a b h
  omega

/-- Inserting a write puts it before those already at its position. -/
theorem filter_orderedInsert (w : Write α) (ws : List (Write α)) (r c : Nat) :
    (ws.orderedInsert (fun a b => a.row < b.row ∨ (a.row = b.row ∧ a.col ≤ b.col)) w).filter
        (fun x => x.row = r ∧ x.col = c) =
      (w :: ws).filter fun x => x.row = r ∧ x.col = c := by
  induction ws with
  | nil => rfl
  | cons x ws ih =>
    rw [List.orderedInsert_cons]
    split
    · rfl
    · next hlt =>
      rw [List.filter_cons, ih]
      by_cases hx : x.row = r ∧ x.col = c
      · have hw : ¬ (w.row = r ∧ w.col = c) := by omega
        simp [hx, hw]
      · by_cases hw : w.row = r ∧ w.col = c <;> simp [hx, hw]

/-- Ordering by position is stable. -/
theorem filter_byPosition (ws : List (Write α)) (r c : Nat) :
    (byPosition ws).filter (fun x => x.row = r ∧ x.col = c) = ws.filter fun x => x.row = r ∧ x.col = c := by
  induction ws with
  | nil => rfl
  | cons w ws ih =>
    show ((byPosition ws).orderedInsert _ w).filter _ = _
    rw [filter_orderedInsert, List.filter_cons, ih, List.filter_cons]

theorem lastAt_eq_filter (ws : List (Write α)) (r c : Nat) :
    lastAt ws r c = ((ws.filter fun x => x.row = r ∧ x.col = c).getLast?).map Write.val := by
  rw [lastAt, List.getLast?_eq_head?_reverse, ← List.filter_reverse, List.head?_filter]

/-- The later of two writes at one position is still the later. -/
theorem lastAt_byPosition (ws : List (Write α)) (r c : Nat) : lastAt (byPosition ws) r c = lastAt ws r c := by
  rw [lastAt_eq_filter, lastAt_eq_filter, filter_byPosition]

/-- What is at a position was written there. -/
theorem lastAt_mem {ws : List (Write α)} {r c : Nat} {v : α} (h : lastAt ws r c = some v) : ⟨r, c, v⟩ ∈ ws := by
  obtain ⟨w, hw, rfl⟩ := Option.map_eq_some_iff.1 h
  have hat : w.row = r ∧ w.col = c := by simpa using List.find?_some hw
  obtain ⟨rfl, rfl⟩ := hat
  exact List.mem_reverse.1 (List.mem_of_find?_eq_some hw)

/-- Each write after the ones before it, by row and then by column. -/
def Ordered (ws : List (Write α)) : Prop := ws.Pairwise fun a b => a.row < b.row ∨ a.row = b.row ∧ a.col < b.col

/-- In such an order nothing is written over. -/
theorem Ordered.lastAt {ws : List (Write α)} (h : Ordered ws) {w : Write α} (hw : w ∈ ws) :
    lastAt ws w.row w.col = some w.val := by
  induction ws using List.reverseRecOn with
  | nil => cases hw
  | append_singleton ws x ih =>
    obtain ⟨hws, -, hlate⟩ := List.pairwise_append.1 h
    rw [lastAt_concat]
    rcases List.mem_append.1 hw with hw | hw
    · have hpast := hlate w hw x (List.mem_singleton.2 rfl)
      rw [if_neg (by omega)]
      exact ih hws hw
    · rw [List.mem_singleton.1 hw, if_pos ⟨rfl, rfl⟩]

/-- Leaving out other rows changes nothing in this one. -/
theorem lastAt_filter (ws : List (Write α)) (p : Write α → Bool) {r : Nat} (c : Nat)
    (h : ∀ w, w.row = r → p w = true) : lastAt (ws.filter p) r c = lastAt ws r c := by
  rw [lastAt_eq_filter, lastAt_eq_filter, List.filter_filter]
  congr 2
  apply List.filter_congr
  intro w _
  by_cases hw : w.row = r ∧ w.col = c
  · simp [hw, h w hw.1]
  · simp [hw]

/-! ## Rows with the space between them -/

/-- A row, or the space before one: `count` empty rows from `first`. -/
inductive Announced (ρ : Type) where
  | row (r : ρ)
  | gap (first count : Nat)
  deriving DecidableEq

variable (idx : ρ → Nat)

/-- Rows in order, each preceded by the gap from the row expected there. -/
def announce : Option Nat → List ρ → List (Announced ρ)
  | _, [] => []
  | expected, r :: rs =>
    (match expected with
      | some e => if idx r > e then [.gap e (idx r - e)] else []
      | none => []) ++ .row r :: announce (some (idx r + 1)) rs

/-- The row expected after `rs`. -/
def expectedAfter (start : Option Nat) (rs : List ρ) : Option Nat :=
  match rs.getLast? with
  | some last => some (idx last + 1)
  | none => start

@[simp] theorem expectedAfter_nil (start : Option Nat) : expectedAfter idx start [] = start := rfl

@[simp] theorem expectedAfter_concat (start : Option Nat) (rs : List ρ) (r : ρ) :
    expectedAfter idx start (rs ++ [r]) = some (idx r + 1) := by
  simp [expectedAfter]

theorem expectedAfter_append (start : Option Nat) (rs rs' : List ρ) :
    expectedAfter idx start (rs ++ rs') = expectedAfter idx (expectedAfter idx start rs) rs' := by
  simp only [expectedAfter, List.getLast?_append]
  cases rs'.getLast? <;> rfl

theorem announce_append (start : Option Nat) (rs rs' : List ρ) :
    announce idx start (rs ++ rs') = announce idx start rs ++ announce idx (expectedAfter idx start rs) rs' := by
  induction rs generalizing start with
  | nil => rfl
  | cons r rs ih =>
    have he : expectedAfter idx start (r :: rs) = expectedAfter idx (some (idx r + 1)) rs :=
      expectedAfter_append idx start [r] rs
    simp only [List.cons_append, announce, ih, he, List.append_assoc]

/-- The rows among what is announced. -/
def rowsIn (as : List (Announced ρ)) : List ρ :=
  as.filterMap fun
    | .row r => some r
    | .gap _ _ => none

@[simp] theorem rowsIn_append (as bs : List (Announced ρ)) : rowsIn (as ++ bs) = rowsIn as ++ rowsIn bs :=
  List.filterMap_append

@[simp] theorem rowsIn_row (r : ρ) (as : List (Announced ρ)) : rowsIn (.row r :: as) = r :: rowsIn as := rfl

@[simp] theorem rowsIn_map_row (rs : List ρ) : rowsIn (rs.map Announced.row) = rs := by
  induction rs with
  | nil => rfl
  | cons r rs ih => rw [List.map_cons, rowsIn_row, ih]

@[simp] theorem rowsIn_announce (start : Option Nat) (rs : List ρ) : rowsIn (announce idx start rs) = rs := by
  induction rs generalizing start with
  | nil => rfl
  | cons r rs ih =>
    have hg : rowsIn (match start with
        | some e => if idx r > e then [Announced.gap e (idx r - e)] else []
        | none => []) = ([] : List ρ) := by
      cases start with
      | none => rfl
      | some e => simp only []; split <;> rfl
    simp only [announce, rowsIn_append, hg, List.nil_append, rowsIn_row, ih]

/-- A row changed, or a gap as it is. -/
def Announced.map {σ : Type} (f : ρ → σ) : Announced ρ → Announced σ
  | .row r => .row (f r)
  | .gap first count => .gap first count

/-- Changing rows in place changes nothing between them. -/
theorem announce_map {σ : Type} (idx' : σ → Nat) (f : ρ → σ) (h : ∀ r, idx' (f r) = idx r) (start : Option Nat)
    (rs : List ρ) : announce idx' start (rs.map f) = (announce idx start rs).map (Announced.map f) := by
  induction rs generalizing start with
  | nil => rfl
  | cons r rs ih =>
    simp only [List.map_cons, announce, h, ih, List.map_append, Announced.map]
    congr 1
    cases start with
    | none => rfl
    | some e => simp only []; split <;> rfl

/-- What is announced after a gap lies past it. -/
theorem announce_after_gap {rs : List ρ} (hasc : rs.Pairwise fun a b => idx a ≤ idx b) {start : Option Nat}
    {before after : List (Announced ρ)} {first count : Nat}
    (h : announce idx start rs = before ++ .gap first count :: after) :
    ∀ r ∈ rowsIn after, first + count ≤ idx r := by
  induction rs generalizing start before with
  | nil => simp [announce] at h
  | cons r rs ih =>
    obtain ⟨hr, hrest⟩ := List.pairwise_cons.1 hasc
    -- What follows the row itself is the tail's business.
    have htail : ∀ before',
        Announced.row r :: announce idx (some (idx r + 1)) rs = before' ++ .gap first count :: after →
        ∀ x ∈ rowsIn after, first + count ≤ idx x := by
      intro before' he
      cases before' with
      | nil => cases he
      | cons y before' => exact ih hrest (List.cons.inj he).2
    cases start with
    | none => exact htail before h
    | some e =>
      simp only [announce] at h
      by_cases hgt : idx r > e
      · simp only [hgt, if_true, List.singleton_append] at h
        cases before with
        | nil =>
          obtain ⟨hgap, rfl⟩ := List.cons.inj h
          cases hgap
          intro x hx
          rw [rowsIn_row, rowsIn_announce, List.mem_cons] at hx
          rcases hx with rfl | hx
          · omega
          · have := hr x hx
            omega
        | cons y before => exact htail before (List.cons.inj h).2
      · simp only [hgt, if_false, List.nil_append] at h
        exact htail before h

/-- Consecutive rows leave no gap after the first. -/
def Consecutive (rs : List ρ) : Prop := rs.IsChain fun a b => idx b = idx a + 1

theorem announce_consecutive {rs : List ρ} (h : Consecutive idx rs) {e : Nat} (he : ∀ r ∈ rs.head?, idx r = e) :
    announce idx (some e) rs = rs.map .row := by
  induction rs generalizing e with
  | nil => rfl
  | cons r rs ih =>
    have hr : idx r = e := he r rfl
    have hnext : ∀ r' ∈ rs.head?, idx r' = idx r + 1 := (List.isChain_cons.1 h).1
    rw [announce, ih (List.isChain_cons.1 h).2 hnext]
    simp [hr]

end Grid
