import GrpcCalamine.Store.Accounting
import Mathlib.Algebra.Order.BigOperators.Group.List
/-!
# What is alive, and what of it the budget bounds

A closed workbook is alive while an RPC holds it, and so is its first reader,
but neither is charged any more. What the budget bounds is everything else:
the uploads of the registered workbooks, and every reader but the first of a
closed one.
-/

namespace GrpcCalamine

namespace Workbook

variable {w : Workbook}

/-- Live readers, from when they are opened until they are dropped. -/
def live (w : Workbook) : Nat := w.pool.free.length + w.hands.countP Hand.checkedOut

/-- Registered, or held by an RPC or a reader. -/
def alive (w : Workbook) : Bool := w.id.isSome || w.busy || !w.hands.isEmpty

theorem length_parked (l : List ParkedReader) :
    l.length = (l.filter (·.2.isNone)).length + (l.flatMap fun parked => parked.2.toList).length := by
  induction l with
  | nil => rfl
  | cons reader l ih =>
    obtain ⟨reader, charge⟩ := reader
    cases charge <;> simp [ih] <;> omega

theorem countP_hands {hands : List Hand} (h : ∀ reader, .dropping reader ∈ hands → reader.2.isSome = true) :
    hands.countP Hand.checkedOut = ((hands.flatMap fun hand => hand.reader.toList).filter (·.2.isNone)).length +
      (hands.flatMap fun hand => hand.charge.toList).length := by
  induction hands with
  | nil => rfl
  | cons hand hands ih =>
    have ih := ih fun reader hr => h reader (List.mem_cons_of_mem _ hr)
    cases hand with
    | asking => simpa [List.countP_cons, Hand.checkedOut] using ih
    | opening charge =>
      simp [List.countP_cons, Hand.checkedOut, ih]
      omega
    | out reader =>
      obtain ⟨reader, charge⟩ := reader
      cases charge <;> simp [List.countP_cons, Hand.checkedOut, ih] <;> omega
    | dropping reader =>
      obtain ⟨charge, hcharge⟩ := Option.isSome_iff_exists.1 (h reader List.mem_cons_self)
      simp [List.countP_cons, Hand.checkedOut, ih, hcharge]
      omega

/-- Every live reader but one carries a charge. -/
theorem Covered.live_eq (h : w.Covered) : w.live = w.charges.length + 1 := by
  have hfirst := congrArg List.length h.first
  rw [readers, List.filter_append, List.length_append, List.length_singleton] at hfirst
  rw [live, length_parked, countP_hands h.kept, charges, List.length_append]
  omega

theorem Covered.chargedBytes_eq (h : w.Covered) : w.chargedBytes = w.size.readerBytes * w.charges.length := by
  have hall : w.charges.map Charge.bytes = List.replicate w.charges.length w.size.readerBytes := by
    rw [List.eq_replicate_iff]
    refine ⟨List.length_map _, fun bytes hb => ?_⟩
    obtain ⟨charge, hc, rfl⟩ := List.mem_map.1 hb
    exact h.own charge hc
  rw [chargedBytes, hall, List.sum_replicate_nat, Nat.mul_comm]

/-- A workbook's upload and its live readers. -/
def bytes (w : Workbook) : Nat := w.size.upload + w.size.readerBytes * w.live

/-- What of them the budget bounds: once the workbook is closed, neither its
upload nor its first reader. -/
def boundBytes (w : Workbook) : Nat := if w.id.isSome then w.bytes else w.size.readerBytes * (w.live - 1)

theorem Covered.boundBytes_eq (h : w.Covered) (hfits : w.registeredBytes < U64_MAX) :
    w.boundBytes = w.registeredBytes + w.chargedBytes := by
  unfold boundBytes bytes registeredBytes
  rw [h.live_eq, h.chargedBytes_eq]
  split
  · rename_i hid
    have hexact : w.size.heldBytes = w.size.upload + w.size.readerBytes := by
      simp only [registeredBytes, hid, if_true, Footprint.heldBytes, satAdd] at hfits
      simp only [Footprint.heldBytes, satAdd]
      omega
    rw [hexact, Nat.mul_succ]
    omega
  · simp

end Workbook

namespace Store

variable {limits : StoreLimits} {s : Store} {es : List Effect}

/-- The uploads and live readers of the workbooks still alive. -/
def aliveBytes (s : Store) : Nat := ((s.workbooks.filter (·.alive)).map Workbook.bytes).sum

def boundBytes (s : Store) : Nat := (s.workbooks.map Workbook.boundBytes).sum

theorem registered_le {w : Workbook} (hw : w ∈ s.workbooks) : w.registeredBytes ≤ s.registeredBytes := by
  rw [registeredBytes_eq]
  exact List.le_sum_of_mem (List.mem_map_of_mem hw)

theorem boundBytes_eq (hcov : ∀ w ∈ s.workbooks, w.Covered) (hfits : s.registeredBytes < U64_MAX) :
    s.boundBytes = s.registeredBytes + (s.workbooks.map Workbook.chargedBytes).sum := by
  have hall : s.workbooks.map Workbook.boundBytes =
      s.workbooks.map fun w => w.registeredBytes + w.chargedBytes :=
    List.map_congr_left fun w hw => (hcov w hw).boundBytes_eq (Nat.lt_of_le_of_lt (registered_le hw) hfits)
  rw [boundBytes, hall, List.sum_map_add, registeredBytes_eq]

/-- Whatever the interleaving, a workbook's first reader is parked or out as
long as its pool lives, it alone is uncharged, and it is parked and nothing is
charged whenever no reader is checked out; where that holds of every workbook,
the store holds what it held when they had just been opened, unless its bytes
have passed the largest `u64`. -/
theorem first_reader_kept (h : Runs limits es s) :
    (∀ w ∈ s.workbooks, w.Covered ∧
      ((∀ hand ∈ w.hands, hand.checkedOut = false) → w.pool.free = [(⟨0⟩, none)] ∧ w.charges = []) ∧
      ∀ e w', w.ReaderStep e w' → (⟨0⟩, none) ∈ w'.readers) ∧
    (limits.maxStoreBytes < U64_MAX ∨ Effect.Fit es → s.writer = none →
      (∀ w ∈ s.workbooks, ∀ hand ∈ w.hands, hand.checkedOut = false) →
      s.budget.held = s.registeredBytes + s.reservedBytes) := by
  have hinv := runs_inv h
  refine ⟨fun w hw => ?_, fun hfit hwriter hrest => ?_⟩
  · have hcov := hinv.covered w hw
    refine ⟨hcov, fun hhands => ?_, fun e w' hstep => ?_⟩
    · obtain ⟨hfree, hcharges, -⟩ := hcov.at_rest hhands
      exact ⟨hfree, hcharges⟩
    · have hfirst := (Workbook.covered_step hcov hstep).1.first
      exact List.mem_of_mem_filter (hfirst ▸ List.mem_singleton_self _)
  · have hcharged : s.chargedBytes = 0 := by
      have hparked : s.workbooks.map Workbook.chargedBytes = s.workbooks.map fun _ => 0 :=
        List.map_congr_left fun w hw => ((hinv.covered w hw).at_rest (hrest w hw)).2.2
      have hdying : s.dying.map chargeBytes = s.dying.map fun _ => 0 :=
        List.map_congr_left fun reader hr => by rw [chargeBytes, hinv.dying reader hr]; rfl
      simp [chargedBytes, hparked, hdying]
    have hbal := hfit.elim (fun hmax => runs_balanced hmax h) fun hfit => runs_balanced_of_fit hfit h
    rw [hbal.held, owed, hcharged, transit, hwriter]
    rfl

/-- A second read of a workbook finds its reader out, and opens a charged
one. -/
theorem first_reader_kept_shared : ∃ es s, Runs ⟨4, 200, 0⟩ es s ∧ s.budget.held = 120 ∧
    ∀ w ∈ s.workbooks, w.Covered := by
  obtain ⟨_, hopen⟩ := runs_first ⟨4, 200, 0⟩ ⟨60, 30⟩ rfl (by decide) (by decide) "a"
  obtain ⟨_, hread⟩ := runs_reuse hopen [] [] rfl (by decide) rfl
  have hask := hread.step (.reader rfl (.ask (by decide) rfl) rfl)
  have hcharge := hask.step (.reader rfl (.charge rfl) rfl)
  exact ⟨_, _, hcharge, rfl, fun w hw => ((first_reader_kept hcharge).1 w hw).1⟩

/-- The uploads of the registered workbooks and every live reader, but for the
first reader of a closed workbook, fit the budget. -/
theorem registered_and_readers_bounded (hmax : limits.maxStoreBytes < U64_MAX) (h : Runs limits es s) :
    s.boundBytes ≤ limits.maxStoreBytes := by
  have hbal := runs_balanced hmax h
  have hheld := hbal.held
  have hle := hbal.bounded
  rw [owed, chargedBytes] at hheld
  rw [boundBytes_eq hbal.inv.covered (by omega)]
  omega

theorem registered_and_readers_bounded_open :
    ∃ es s, Runs ⟨4, 100, 0⟩ es s ∧ s.workbooks ≠ [] ∧ s.boundBytes ≤ 100 := by
  obtain ⟨_, hopen⟩ := runs_first ⟨4, 100, 0⟩ ⟨60, 30⟩ rfl (by decide) (by decide) "a"
  exact ⟨_, _, hopen, List.cons_ne_nil _ _, registered_and_readers_bounded (by decide) hopen⟩

/-- A workbook of 60 bytes and a reader of 30 is closed while its reader is
out, and another like it is opened. Past the largest `u64` the sum itself
wraps. -/
theorem closed_workbook_outlives_its_charge :
    (∃ es s, Runs ⟨4, 100, 0⟩ es s ∧ 100 < s.aliveBytes) ∧
      ∃ es s, Runs ⟨4, U64_MAX, 0⟩ es s ∧ U64_MAX < s.boundBytes := by
  constructor
  · obtain ⟨_, hopen⟩ := runs_first ⟨4, 100, 0⟩ ⟨60, 30⟩ rfl (by decide) (by decide) "a"
    obtain ⟨_, hread⟩ := runs_reuse hopen [] [] rfl (by decide) rfl
    obtain ⟨_, hclose⟩ := runs_close hread rfl [] [] rfl "a" rfl
    obtain ⟨_, hagain⟩ := runs_open rfl hclose rfl ⟨60, 30⟩ (by decide) rfl (by decide) "b" (by decide)
    exact ⟨_, _, hagain, by decide⟩
  · obtain ⟨_, hopen⟩ := runs_first ⟨4, U64_MAX, 0⟩ ⟨10, 2 ^ 64 - 20⟩ rfl (by decide) (by decide) "a"
    obtain ⟨_, hagain⟩ := runs_open rfl hopen rfl ⟨10, 10⟩ (by decide) rfl (by decide) "b" (by decide)
    exact ⟨_, _, hagain, by decide⟩

end Store

end GrpcCalamine
