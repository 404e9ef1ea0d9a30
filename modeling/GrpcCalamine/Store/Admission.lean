import GrpcCalamine.Store.Calls
/-!
# The early check of an upload

`admits` answers from the store as it is where it can, `reserve` always closes
idle workbooks first. Closing them only makes room (`fits_sweep`), so the two
agree (`admits_eq`, `reserve_eq`); and a call that is refused has done nothing
else than close them (`OnlyIdleClosed`).
-/

namespace GrpcCalamine

/-! ## What fits -/

theorem fits_ok_iff (limits : StoreLimits) (entries pending : Nat) (budget : Budget) (bytes : Nat) :
    fits limits entries pending budget bytes = .ok () ↔
      entries + pending < limits.maxOpenWorkbooks ∧ satAdd budget.held bytes ≤ limits.maxStoreBytes := by
  unfold fits
  split
  · simp only [reduceCtorEq, false_iff]
    omega
  split
  · simp only [reduceCtorEq, false_iff]
    omega
  · simp only [true_iff]
    omega

theorem satAdd_mono {a b c d : Nat} (hac : a ≤ c) (hbd : b ≤ d) : satAdd a b ≤ satAdd c d := by
  unfold satAdd
  omega

/-- What fits still does beside less, and so does anything smaller. -/
theorem fits_mono {limits : StoreLimits} {entries entries' pending : Nat} {budget budget' : Budget} {bytes bytes' : Nat}
    (hentries : entries' ≤ entries) (hheld : budget'.held ≤ budget.held) (hbytes : bytes' ≤ bytes)
    (h : fits limits entries pending budget bytes = .ok ()) : fits limits entries' pending budget' bytes' = .ok () := by
  rw [fits_ok_iff] at h ⊢
  have := satAdd_mono hheld hbytes
  omega

namespace Store

variable {limits : StoreLimits} {es : List Effect} {s : Store}

/-! ## What a sweep changes -/

/-- Workbooks before and after a sweep as of `now`, and the bytes of those it
closed: each is left alone, in use, or idle past the TTL. -/
inductive Swept (ttl now : Nat) : List Workbook → List Workbook → Nat → Prop where
  | nil : Swept ttl now [] [] 0
  | kept {ws ws' freed} (w : Workbook) : Swept ttl now ws ws' freed → Swept ttl now (w :: ws) (w :: ws') freed
  | restarted {ws ws' freed} (w : Workbook) : w.id.isSome = true → w.busy = true → Swept ttl now ws ws' freed →
      Swept ttl now (w :: ws) ({ w with lastUsed := now } :: ws') freed
  | closed {ws ws' freed} (w : Workbook) : w.id.isSome = true → w.busy = false → w.lastUsed + ttl ≤ now →
      Swept ttl now ws ws' freed → Swept ttl now (w :: ws) ({ w with id := none } :: ws') (w.size.heldBytes + freed)

theorem swept_refl (ttl now : Nat) (ws : List Workbook) : Swept ttl now ws ws 0 := by
  induction ws with
  | nil => exact .nil
  | cons w ws ih => exact .kept w ih

theorem swept_map {ttl now : Nat} (httl : ttl ≠ 0) (ws : List Workbook) :
    Swept ttl now ws (ws.map fun w => if w.id.isSome then w.sweep ttl now else w)
      ((ws.filter (·.id.isSome)).map (·.freed ttl now)).sum := by
  induction ws with
  | nil => exact .nil
  | cons w ws ih =>
    rw [List.filter_cons, List.map_cons]
    by_cases hid : w.id.isSome = true
    · rw [if_pos hid, if_pos hid, List.map_cons, List.sum_cons]
      rcases Workbook.sweep_cases ttl now hid with
        ⟨hbusy, hsweep, hfreed⟩ | ⟨-, -, hsweep, hfreed⟩ | ⟨hbusy, hidle, hsweep, hfreed⟩
      · rw [hsweep, hfreed, Nat.zero_add]
        exact .restarted w hid hbusy ih
      · rw [hsweep, hfreed, Nat.zero_add]
        exact .kept w ih
      · rw [hsweep, hfreed]
        exact .closed w hid hbusy (by omega) ih
    · rw [if_neg hid, if_neg hid]
      exact .kept w ih

/-- What was closed is no longer registered. -/
theorem Swept.registered {ttl now freed : Nat} {ws ws' : List Workbook} (h : Swept ttl now ws ws' freed) :
    (ws'.map Workbook.registeredBytes).sum + freed = (ws.map Workbook.registeredBytes).sum := by
  induction h with
  | nil => rfl
  | kept w _ ih =>
    simp only [List.map_cons, List.sum_cons]
    omega
  | restarted w _ _ _ ih =>
    simp only [List.map_cons, List.sum_cons, Workbook.registeredBytes] at ih ⊢
    omega
  | closed w hid _ _ _ ih =>
    simp only [List.map_cons, List.sum_cons, Workbook.registeredBytes, hid, if_true] at ih ⊢
    simp only [Option.isSome_none, Bool.false_eq_true, if_false]
    omega

/-- A sweep never adds to the registry, and where it frees bytes it takes
from it. -/
theorem Swept.entries {ttl now freed : Nat} {ws ws' : List Workbook} (h : Swept ttl now ws ws' freed) :
    ws'.countP (·.id.isSome) ≤ ws.countP (·.id.isSome) ∧
      (ws.countP (·.id.isSome) ≤ ws'.countP (·.id.isSome) → freed = 0) := by
  induction h with
  | nil => exact ⟨Nat.le_refl _, fun _ => rfl⟩
  | kept w _ ih =>
    simp only [List.countP_cons]
    exact ⟨by omega, fun hle => ih.2 (by omega)⟩
  | restarted w _ _ _ ih =>
    simp only [List.countP_cons]
    exact ⟨by omega, fun hle => ih.2 (by omega)⟩
  | closed w hid _ _ _ ih =>
    simp only [List.countP_cons, hid, if_true, Option.isSome_none, Bool.false_eq_true, if_false]
    exact ⟨by omega, fun hle => by omega⟩

theorem sweep_swept (limits : StoreLimits) (s : Store) :
    ∃ freed, Swept limits.idleTtl s.now s.workbooks (s.sweep limits).workbooks freed ∧
      (s.sweep limits).budget = s.budget.give (freed % 2 ^ 64) := by
  unfold sweep
  split
  · exact ⟨0, swept_refl _ _ _, by simp [Budget.give]⟩
  · rename_i httl
    exact ⟨_, swept_map httl s.workbooks, rfl⟩

/-! ## The two checks -/

theorem sweep_entries_le (limits : StoreLimits) (s : Store) : (s.sweep limits).entries.length ≤ s.entries.length := by
  obtain ⟨freed, hswept, -⟩ := sweep_swept limits s
  rw [entries_length, entries_length]
  exact hswept.entries.1

theorem sweep_held_le (limits : StoreLimits) (s : Store) : (s.sweep limits).budget.held ≤ s.budget.held := by
  obtain ⟨freed, -, hbudget⟩ := sweep_swept limits s
  rw [hbudget, Budget.give_held]
  exact Nat.sub_le _ _

/-- Closing idle workbooks takes no room away. -/
theorem fits_sweep {bytes : Nat} (h : s.fitsBeside limits bytes = .ok ()) :
    (s.sweep limits).fitsBeside limits bytes = .ok () := by
  unfold fitsBeside at h ⊢
  rw [sweep_pending]
  exact fits_mono (sweep_entries_le limits s) (sweep_held_le limits s) (Nat.le_refl _) h

/-- The early check answers as the store would once it is swept. -/
theorem admits_eq (limits : StoreLimits) (s : Store) (bytes : Nat) :
    (s.admits limits bytes).1 = (s.sweep limits).fitsBeside limits bytes := by
  unfold admits
  split
  · rename_i hfits
    exact (fits_sweep hfits).symm
  · rfl

/-- What fits can be taken. -/
theorem take_of_fits {bytes : Nat} (hmax : s.budget.max = limits.maxStoreBytes)
    (h : s.fitsBeside limits bytes = .ok ()) : ∃ budget, s.budget.take bytes = .ok budget := by
  have hfit := ((fits_ok_iff _ _ _ _ _).1 h).2
  exact ⟨_, if_neg (Nat.not_lt.2 (hmax ▸ hfit))⟩

theorem reserve_eq (hmax : s.budget.max = limits.maxStoreBytes) (size : Footprint) :
    (s.reserve limits size).1 = (s.sweep limits).fitsBeside limits size.heldBytes := by
  unfold reserve
  simp only []
  split
  · rename_i e hfits
    exact hfits.symm
  · rename_i hfits
    obtain ⟨budget, htake⟩ := take_of_fits ((sweep_max limits s).trans hmax) hfits
    simp only [htake, hfits]

/-! ## A refused call -/

/-- `s'` is `s` with idle workbooks closed, their bytes given back, and the
clocks of those in use restarted. -/
def OnlyIdleClosed (limits : StoreLimits) (s s' : Store) : Prop :=
  ∃ freed, Swept limits.idleTtl s.now s.workbooks s'.workbooks freed ∧ s'.budget.held + freed = s.budget.held ∧
    s' = { s with workbooks := s'.workbooks, budget := { s.budget with held := s'.budget.held } }

theorem sweep_eq (limits : StoreLimits) (s : Store) :
    s.sweep limits =
      { s with workbooks := (s.sweep limits).workbooks,
               budget := { s.budget with held := (s.sweep limits).budget.held } } := by
  unfold sweep
  split <;> rfl

/-- What is closed was held, and is given back in full. -/
theorem onlyIdleClosed_of_swept {freed : Nat}
    (hswept : Swept limits.idleTtl s.now s.workbooks (s.sweep limits).workbooks freed)
    (hbudget : (s.sweep limits).budget = s.budget.give (freed % 2 ^ 64))
    (hheld : freed < 2 ^ 64 ∧ freed ≤ s.budget.held) : OnlyIdleClosed limits s (s.sweep limits) := by
  refine ⟨freed, hswept, ?_, sweep_eq limits s⟩
  rw [hbudget, Nat.mod_eq_of_lt hheld.1, Budget.give_held]
  omega

/-- Below the largest `u64`, what is registered is among what the budget
holds. -/
theorem onlyIdleClosed_sweep (hmax : limits.maxStoreBytes < U64_MAX) (h : Runs limits es s) :
    OnlyIdleClosed limits s (s.sweep limits) := by
  obtain ⟨freed, hswept, hbudget⟩ := sweep_swept limits s
  have hbal := runs_balanced hmax h
  have hlt := hbal.owed_lt hmax
  have hregistered := hswept.registered
  apply onlyIdleClosed_of_swept hswept hbudget
  rw [hbal.held]
  rw [owed, registeredBytes_eq] at hlt ⊢
  omega

/-- Where a sweep leaves no room, what it closed was held and is given back
in full. -/
theorem onlyIdleClosed_of_refused (h : Runs limits es s) {bytes : Nat} {e : LimitExceeded}
    (hrefused : (s.sweep limits).fitsBeside limits bytes = .error e) : OnlyIdleClosed limits s (s.sweep limits) := by
  by_cases hmax : limits.maxStoreBytes < U64_MAX
  · exact onlyIdleClosed_sweep hmax h
  · -- no bytes are too many, so the workbooks are, and none was closed
    obtain ⟨freed, hswept, hbudget⟩ := sweep_swept limits s
    have hfull : ¬ ((s.sweep limits).entries.length + (s.sweep limits).pending < limits.maxOpenWorkbooks) := by
      intro hroom
      have hfit : satAdd (s.sweep limits).budget.held bytes ≤ limits.maxStoreBytes := by
        unfold satAdd
        omega
      rw [fitsBeside, (fits_ok_iff _ _ _ _ _).2 ⟨hroom, hfit⟩] at hrefused
      cases hrefused
    have hroom := (runs_inv h).room
    rw [sweep_pending] at hfull
    rw [entries_length] at hfull hroom
    have hnone := hswept.entries.2 (by omega)
    exact onlyIdleClosed_of_swept hswept hbudget (by omega)

theorem admits_refused (h : Runs limits es s) {bytes : Nat} {e : LimitExceeded}
    (hrefused : (s.admits limits bytes).1 = .error e) : OnlyIdleClosed limits s (s.admits limits bytes).2 := by
  have hswept := admits_eq limits s bytes ▸ hrefused
  have hstore : (s.admits limits bytes).2 = s.sweep limits := by
    unfold admits
    split
    · rename_i hfits
      rw [fits_sweep hfits] at hswept
      cases hswept
    · rfl
  rw [hstore]
  exact onlyIdleClosed_of_refused h hswept

theorem reserve_refused (h : Runs limits es s) {size : Footprint} {e : LimitExceeded}
    (hrefused : (s.reserve limits size).1 = .error e) : OnlyIdleClosed limits s (s.reserve limits size).2 := by
  have hswept := reserve_eq (runs_inv h).max size ▸ hrefused
  have hstore : (s.reserve limits size).2 = s.sweep limits := by
    simp only [reserve, hswept]
  rw [hstore]
  exact onlyIdleClosed_of_refused h hswept

/-! ## The check before the real one -/

/-- What a sweep left registered, a second one at the same time leaves as it
is. -/
theorem sweep_again {ttl now : Nat} (w : Workbook) (hid : (w.sweep ttl now).id.isSome = true) :
    (w.sweep ttl now).sweep ttl now = w.sweep ttl now := by
  by_cases hsome : w.id.isSome = true
  · rcases Workbook.sweep_cases ttl now hsome with
      ⟨hbusy, hsweep, -⟩ | ⟨-, -, hsweep, -⟩ | ⟨-, -, hsweep, -⟩
    · rw [hsweep]
      exact if_pos hbusy
    · rw [hsweep, hsweep]
    · rw [hsweep] at hid
      cases hid
  · rcases sweep_id ttl now w with hkept | hnone
    · rw [hkept] at hid
      exact absurd hid hsome
    · rw [hnone] at hid
      cases hid

theorem sweep_sweep (limits : StoreLimits) (s : Store) : (s.sweep limits).sweep limits = s.sweep limits := by
  by_cases httl : limits.idleTtl = 0
  · simp only [sweep, httl, if_true]
  · -- the first sweep left nothing idle, so the second finds nothing to close
    have hagain : ∀ w ∈ (s.sweep limits).workbooks, w.id.isSome = true → w.sweep limits.idleTtl s.now = w := by
      intro v hv hid
      simp only [sweep, httl, if_false] at hv
      obtain ⟨w, -, rfl⟩ := List.mem_map.1 hv
      split at hid
      · rename_i hsome
        rw [if_pos hsome]
        exact sweep_again w hid
      · rename_i hnone
        exact absurd hid hnone
    have hworkbooks : ((s.sweep limits).workbooks.map fun w => if w.id.isSome then w.sweep limits.idleTtl s.now else w) =
        (s.sweep limits).workbooks := by
      refine (List.map_congr_left fun w hw => ?_).trans (List.map_id _)
      split
      · exact hagain w hw ‹_›
      · rfl
    have hfreed : ((s.sweep limits).entries.map (·.freed limits.idleTtl s.now)).sum = 0 := by
      apply List.sum_eq_zero
      intro bytes hb
      obtain ⟨w, hw, rfl⟩ := List.mem_map.1 hb
      obtain ⟨hmem, hid⟩ := List.mem_filter.1 hw
      rw [Workbook.freed, hagain w hmem hid, if_neg (Option.isSome_iff_ne_none.1 hid)]
    rw [← sweep_now limits s] at hworkbooks hfreed
    conv_lhs => rw [sweep, if_neg httl, hworkbooks, hfreed]
    rfl

/-- `reserve` right after `admits` answers as it would have without it. -/
theorem reserve_after_admits (limits : StoreLimits) (s : Store) (size : Footprint) :
    (s.admits limits size.heldBytes).2.reserve limits size = s.reserve limits size := by
  unfold admits
  split
  · rfl
  · simp only [reserve, sweep_sweep]

theorem reserve_mono (hmax : s.budget.max = limits.maxStoreBytes) {size smaller : Footprint}
    (hle : smaller.heldBytes ≤ size.heldBytes) (h : (s.reserve limits size).1 = .ok ()) :
    (s.reserve limits smaller).1 = .ok () := by
  rw [reserve_eq hmax] at h ⊢
  exact fits_mono (Nat.le_refl _) (Nat.le_refl _) hle h

theorem admits_mono {bytes smaller : Nat} (hle : smaller ≤ bytes) (h : (s.admits limits bytes).1 = .ok ()) :
    (s.admits limits smaller).1 = .ok () := by
  rw [admits_eq] at h ⊢
  exact fits_mono (Nat.le_refl _) (Nat.le_refl _) hle h

/-- In every state of the store, at whatever time, the early check answers as
`reserve` does (`Footprint.heldBytes` being any byte count), also of what is
smaller; `reserve` never fails to take what it found to fit; and a refused call
has closed idle workbooks only. -/
theorem admission_agrees (h : Runs limits es s) (size : Footprint) :
    (s.admits limits size.heldBytes).1 = (s.reserve limits size).1 ∧
    (s.admits limits size.heldBytes).2.reserve limits size = s.reserve limits size ∧
    (∀ smaller, smaller.heldBytes ≤ size.heldBytes → (s.reserve limits size).1 = .ok () →
      (s.reserve limits smaller).1 = .ok ()) ∧
    (∀ smaller ≤ size.heldBytes, (s.admits limits size.heldBytes).1 = .ok () →
      (s.admits limits smaller).1 = .ok ()) ∧
    ((s.sweep limits).fitsBeside limits size.heldBytes = .ok () →
      ∃ budget, (s.sweep limits).budget.take size.heldBytes = .ok budget) ∧
    (∀ e, (s.admits limits size.heldBytes).1 = .error e →
      OnlyIdleClosed limits s (s.admits limits size.heldBytes).2) ∧
    (∀ e, (s.reserve limits size).1 = .error e → OnlyIdleClosed limits s (s.reserve limits size).2) := by
  have hmax := (runs_inv h).max
  refine ⟨?_, reserve_after_admits limits s size, ?_, ?_, ?_, ?_, ?_⟩
  · rw [admits_eq, reserve_eq hmax]
  · intro smaller hle hok
    exact reserve_mono hmax hle hok
  · intro smaller hle hok
    exact admits_mono hle hok
  · intro hfits
    exact take_of_fits ((sweep_max limits s).trans hmax) hfits
  · intro e he
    exact admits_refused h he
  · intro e he
    exact reserve_refused h he

/-- One workbook, idle for its TTL of 5, is all there is room for. -/
theorem admission_agrees_idle : ∃ es s, Runs ⟨1, 100, 5⟩ es s ∧ s.budget.held = 90 ∧
    (s.admits ⟨1, 100, 5⟩ 80).1 = (s.reserve ⟨1, 100, 5⟩ ⟨80, 0⟩).1 := by
  have hstart : Runs ⟨1, 100, 5⟩ [] (withLimits ⟨1, 100, 5⟩) := .start
  obtain ⟨_, hreserve⟩ := runs_reserve hstart rfl ⟨60, 30⟩
  obtain ⟨_, hregister⟩ := runs_register hreserve rfl rfl (rfl : register _ 0 "a" = some _)
  obtain ⟨_, hfinish⟩ := runs_release hregister (rfl : _ = [] ++ Workbook.ofOpen "a" 0 ⟨60, 30⟩ 0 :: []) rfl rfl
  have hidle := hfinish.step (.tick (by decide : 0 ≤ 5))
  exact ⟨_, _, hidle, rfl, (admission_agrees hidle ⟨80, 0⟩).1⟩

end Store

end GrpcCalamine
