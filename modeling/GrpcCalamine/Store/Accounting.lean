import GrpcCalamine.Store.Coverage
import GrpcCalamine.Store.Registry
/-!
# Every byte taken is given back once

What the budget holds is what the registered workbooks, the opens in progress
and the charged readers owe it, and what the holder of the registry's lock is
about to give back (`owed`). Each step changes both sides alike (`step_owed`),
so the budget never clamps and never wraps, and its bound is a bound on what
is open.
-/

namespace GrpcCalamine

/-- What a reader was charged. -/
def chargeBytes (reader : ParkedReader) : Nat := (reader.2.map Charge.bytes).getD 0

/-- The bytes the holder of the write lock has yet to give back. -/
def Writer.transit : Writer → Nat
  | sweeping _ _ freed _ => freed
  | giving bytes => bytes
  | swept _ | taking _ => 0

/-- What a workbook's registration holds against the budget. -/
def Workbook.registeredBytes (w : Workbook) : Nat := if w.id.isSome then w.size.heldBytes else 0

namespace Store

variable {limits : StoreLimits} {s s' : Store} {e : Effect} {es : List Effect}

def registeredBytes (s : Store) : Nat := (s.entries.map (·.size.heldBytes)).sum

def reservedBytes (s : Store) : Nat := (s.reservations.map Footprint.heldBytes).sum

def chargedBytes (s : Store) : Nat := (s.workbooks.map Workbook.chargedBytes).sum + (s.dying.map chargeBytes).sum

def transit (s : Store) : Nat := (s.writer.map Writer.transit).getD 0

def owed (s : Store) : Nat := s.registeredBytes + s.reservedBytes + s.chargedBytes + s.transit

structure Inv (limits : StoreLimits) (s : Store) : Prop where
  max : s.budget.max = limits.maxStoreBytes
  pending : s.pending = s.reservations.length
  room : s.entries.length + s.pending ≤ limits.maxOpenWorkbooks
  /-- The lock is held from the check of a reservation to its take. -/
  taking : ∀ size, s.writer = some (.taking size) → s.entries.length + s.pending < limits.maxOpenWorkbooks
  covered : ∀ w ∈ s.workbooks, w.Covered
  dying : ∀ reader ∈ s.dying, reader.2 = none

/-- What each step does to the budget is its effect. -/
theorem step_on (h : Step limits s e s') : e.On s.budget s'.budget := by
  cases h with
  | sweepDone _ hon => exact hon
  | reserve _ hon => exact hon
  | outrun _ hon => exact hon
  | give _ hon => exact hon
  | reader _ _ hon => exact hon
  | die e _ _ hon => exact hon
  | _ => rfl

/-! ## One workbook replaced -/

theorem registeredBytes_eq (s : Store) : s.registeredBytes = (s.workbooks.map Workbook.registeredBytes).sum := by
  unfold registeredBytes entries
  induction s.workbooks with
  | nil => rfl
  | cons w ws ih =>
    cases hid : w.id <;> simp [Workbook.registeredBytes, hid, ih]

theorem entries_length (s : Store) : s.entries.length = s.workbooks.countP (·.id.isSome) :=
  List.countP_eq_length_filter.symm

/-- What is owed, workbook by workbook. -/
theorem owed_eq (s : Store) : s.owed = (s.workbooks.map Workbook.registeredBytes).sum + s.reservedBytes +
    ((s.workbooks.map Workbook.chargedBytes).sum + (s.dying.map chargeBytes).sum) + s.transit := by
  rw [owed, registeredBytes_eq, chargedBytes]

/-- Sweeping a workbook charges nothing, and frees what it no longer holds. -/
theorem sweep_bytes {w : Workbook} {id : String} (hid : w.id = some id) (ttl now : Nat) :
    (w.sweep ttl now).chargedBytes = w.chargedBytes ∧
      (w.sweep ttl now).registeredBytes + w.freed ttl now = w.registeredBytes := by
  unfold Workbook.freed Workbook.sweep
  split
  · simp [Workbook.registeredBytes, Workbook.chargedBytes, Workbook.charges, hid]
  split <;> simp [Workbook.registeredBytes, Workbook.chargedBytes, Workbook.charges, hid]

/-- What a step takes and gives back is what it does to the bytes owed. -/
theorem step_owed (hfits : s.owed < 2 ^ 64) (h : Inv limits s) (hstep : Step limits s e s') :
    s'.owed + e.gives = s.owed + e.takes ∧ e.gives ≤ s.owed := by
  rw [owed_eq] at hfits
  simp only [owed_eq]
  cases hstep with
  | tick => exact ⟨rfl, Nat.zero_le _⟩
  | lock goal hw hids =>
    refine ⟨?_, Nat.zero_le _⟩
    simp only [reservedBytes, transit, hw, Effect.gives, Effect.takes]
    split <;> rfl
  | @sweepEntry now id todo freed goal pre w post hw hwb hid =>
    -- what the sweep frees goes from the registry into its own hands
    refine ⟨?_, Nat.zero_le _⟩
    simp only [reservedBytes, transit, hw, hwb, Effect.gives, Effect.takes, List.map_append, List.map_cons,
      List.sum_append, List.sum_cons, Option.map_some, Option.getD_some, Writer.transit] at hfits ⊢
    obtain ⟨hcharged, hfreed⟩ := sweep_bytes hid limits.idleTtl now
    have hmod : (freed + w.freed limits.idleTtl now) % 2 ^ 64 = freed + w.freed limits.idleTtl now :=
      Nat.mod_eq_of_lt (by omega)
    rw [hmod, hcharged]
    omega
  | sweepDone hw hon =>
    simp only [reservedBytes, transit, hw, Effect.gives, Effect.takes, Option.map_some, Option.getD_some,
      Writer.transit]
    omega
  | unlock hw _ | fits hw _ =>
    simp [reservedBytes, transit, hw, Effect.gives, Effect.takes, Writer.transit]
  | @reserve size budget hw hon =>
    simp [reservedBytes, transit, hw, Effect.gives, Effect.takes, Writer.transit]
    omega
  | outrun hw hon => simp [reservedBytes, transit, hw, Effect.gives, Effect.takes, Writer.transit]
  | @register pre size post openedAt id hw hres hfresh _ =>
    -- the reservation's bytes become the workbook's, which has no reader charged yet
    have hnone : ∀ hand ∈ (Workbook.ofOpen id s.registered size openedAt).hands, hand.checkedOut = false := by
      intro hand hmem
      cases hmem
    have hfree := (Workbook.covered_ofOpen id s.registered size openedAt).at_rest hnone
    simp [reservedBytes, transit, hw, hres, Effect.gives, Effect.takes, hfree.2.2]
    simp [Workbook.registeredBytes, Workbook.ofOpen]
    omega
  | @abandon pre size post hw hres =>
    simp [reservedBytes, transit, hw, hres, Effect.gives, Effect.takes, Writer.transit]
    omega
  | @close pre w post id hw hwb hid =>
    simp [reservedBytes, transit, hw, hwb, hid, Effect.gives, Effect.takes, Writer.transit, Workbook.registeredBytes,
      Workbook.chargedBytes, Workbook.charges]
    omega
  | @give bytes budget hw hon =>
    simp [reservedBytes, transit, hw, Effect.gives, Effect.takes, Writer.transit]
  | @get pre w post id hw hwb hid =>
    simp [reservedBytes, transit, hwb, Effect.gives, Effect.takes, Workbook.registeredBytes,
      Workbook.chargedBytes, Workbook.charges]
  | @touch pre w post _ hwb _ =>
    simp [reservedBytes, transit, hwb, Effect.gives, Effect.takes, Workbook.registeredBytes,
      Workbook.chargedBytes, Workbook.charges]
  | @reader pre w w' post _ budget hwb hreader hon =>
    -- the workbook's own accounts say what its readers' step takes and gives
    have hcov := h.covered w (by simp [hwb])
    obtain ⟨-, hbytes⟩ := Workbook.covered_step hcov hreader
    have hgives := Workbook.step_gives hreader
    obtain ⟨hid, hsame⟩ := Workbook.step_frame hreader
    have hsize : w'.size = w.size := congrArg Identity.size hsame
    simp [reservedBytes, transit, hwb, hid, hsize, Workbook.registeredBytes]
    omega
  | @vanish pre w post hwb hid _ hhands =>
    have hcov := h.covered w (by simp [hwb])
    obtain ⟨hfree, -, hbytes⟩ := hcov.at_rest (by simp [hhands])
    simp [reservedBytes, transit, hwb, hid, hfree, hbytes, Effect.gives, Effect.takes, Workbook.registeredBytes,
      chargeBytes]
  | @die pre reader post budget e hdying he hon =>
    have hnone := h.dying reader (by simp [hdying])
    rw [hnone] at he
    subst he
    simp [reservedBytes, transit, hdying, hnone, Effect.gives, Effect.takes, chargeBytes]

/-- A workbook in the store stays covered when another takes its place. -/
theorem covered_replace {ws pre post : List Workbook} {w w' : Workbook} (h : ∀ w ∈ ws, w.Covered)
    (hwb : ws = pre ++ w :: post) (hw' : w.Covered → w'.Covered) : ∀ w ∈ pre ++ w' :: post, w.Covered := by
  subst hwb
  intro v hv
  rcases List.mem_append.1 hv with hv | hv
  · exact h v (by simp [hv])
  rcases List.mem_cons.1 hv with rfl | hv
  · exact hw' (h w (by simp))
  · exact h v (by simp [hv])

/-- As many workbooks are registered when one takes the place of another under
its id. -/
theorem countP_replace {ws pre post : List Workbook} {w w' : Workbook} (hwb : ws = pre ++ w :: post)
    (hid : w'.id = w.id) : (pre ++ w' :: post).countP (·.id.isSome) = ws.countP (·.id.isSome) := by
  simp [hwb, List.countP_cons, hid]

/-- The id, the time of last use and the RPCs that hold a workbook are nothing
to its readers. -/
theorem covered_frame {w : Workbook} (h : w.Covered) (id : Option String) (lastUsed holders : Nat) :
    { w with id := id, lastUsed := lastUsed, holders := holders }.Covered :=
  ⟨h.first, h.kept, h.own, h.later, h.opened, h.room⟩

theorem covered_sweep {w : Workbook} (h : w.Covered) (ttl now : Nat) : (w.sweep ttl now).Covered := by
  unfold Workbook.sweep
  split
  · exact covered_frame h w.id now w.holders
  split
  · exact h
  · exact covered_frame h none w.lastUsed w.holders

/-- A workbook that keeps its id and stays covered, whatever the budget holds
then. -/
theorem Inv.replace (h : Inv limits s) {pre post : List Workbook} {w w' : Workbook} {budget : Budget}
    (hmax : budget.max = limits.maxStoreBytes) (hwb : s.workbooks = pre ++ w :: post) (hid : w'.id = w.id)
    (hcov : w.Covered → w'.Covered) : Inv limits { s with budget := budget, workbooks := pre ++ w' :: post } := by
  have hcount := countP_replace hwb hid
  have hroom := h.room
  rw [entries_length, ← hcount] at hroom
  refine ⟨hmax, h.pending, ?_, ?_, covered_replace h.covered hwb hcov, h.dying⟩
  · rw [entries_length]
    exact hroom
  · intro size hs
    have := h.taking size hs
    rw [entries_length, ← hcount] at this
    rw [entries_length]
    exact this

theorem inv_step (h : Inv limits s) (hstep : Step limits s e s') : Inv limits s' := by
  have hmax : s'.budget.max = limits.maxStoreBytes := (step_on hstep).max.trans h.max
  have hroom := h.room
  have hpending := h.pending
  rw [entries_length] at hroom
  have htaking := h.taking
  simp only [entries_length] at htaking
  cases hstep with
  | tick => exact ⟨hmax, h.pending, h.room, h.taking, h.covered, h.dying⟩
  | lock goal hw hids =>
    refine ⟨hmax, h.pending, h.room, ?_, h.covered, h.dying⟩
    intro size hs
    simp only [Option.some.injEq] at hs
    split at hs <;> cases hs
  | @sweepEntry now id todo freed goal pre w post hw hwb hid =>
    -- sweeping may take the workbook off the registry, but never adds one
    refine ⟨hmax, h.pending, ?_, nofun, covered_replace h.covered hwb fun hc => covered_sweep hc _ _, h.dying⟩
    rw [entries_length]
    simp only [hwb, List.countP_append, List.countP_cons, hid, Option.isSome_some, if_true] at hroom ⊢
    split <;> omega
  | sweepDone hw hon => exact ⟨hmax, h.pending, h.room, nofun, h.covered, h.dying⟩
  | unlock hw _ => exact ⟨hmax, h.pending, h.room, nofun, h.covered, h.dying⟩
  | fits hw hfits => exact ⟨hmax, h.pending, h.room, fun _ _ => room_of_fits hfits, h.covered, h.dying⟩
  | @reserve size budget hw hon =>
    have := h.taking size hw
    exact ⟨hmax, by simp [hpending], by rw [← Nat.add_assoc]; exact this, nofun, h.covered, h.dying⟩
  | outrun hw hon => exact ⟨hmax, h.pending, h.room, nofun, h.covered, h.dying⟩
  | @register pre size post openedAt id hw hres hfresh _ =>
    rw [hres, List.length_append, List.length_cons] at hpending
    -- one open in progress less, one workbook more
    refine ⟨hmax, ?_, ?_, by simp [hw], ?_, h.dying⟩
    · simp only [List.length_append]
      omega
    · rw [entries_length]
      simp only [List.countP_append, List.countP_singleton]
      split <;> omega
    · intro v hv
      rcases List.mem_append.1 hv with hv | hv
      · exact h.covered v hv
      · rw [List.mem_singleton.1 hv]
        exact Workbook.covered_ofOpen _ _ _ _
  | @abandon pre size post hw hres =>
    rw [hres, List.length_append, List.length_cons] at hpending
    refine ⟨hmax, ?_, ?_, nofun, h.covered, h.dying⟩
    · simp only [List.length_append]
      omega
    · rw [entries_length]
      show s.workbooks.countP (·.id.isSome) + (s.pending - 1) ≤ _
      omega
  | @close pre w post id hw hwb hid =>
    refine ⟨hmax, h.pending, ?_, nofun, covered_replace h.covered hwb fun hc => covered_frame hc _ _ _, h.dying⟩
    rw [entries_length]
    simp only [hwb, List.countP_append, List.countP_cons, hid, Option.isSome_some, if_true] at hroom ⊢
    simp
    omega
  | give hw hon => exact ⟨hmax, h.pending, h.room, nofun, h.covered, h.dying⟩
  | get id hw hwb hid =>
    apply h.replace hmax hwb
    · rfl
    · intro hc
      exact covered_frame hc _ _ _
  | touch hwb _ _ =>
    apply h.replace hmax hwb
    · rfl
    · intro hc
      exact covered_frame hc _ _ _
  | reader hwb hreader hon =>
    apply h.replace hmax hwb (Workbook.step_frame hreader).1
    intro hc
    exact (Workbook.covered_step hc hreader).1
  | @vanish pre w post hwb hid _ hhands =>
    obtain ⟨hfree, -, -⟩ := (h.covered w (by simp [hwb])).at_rest (by simp [hhands])
    refine ⟨hmax, h.pending, ?_, ?_, ?_, ?_⟩
    · rw [entries_length]
      simpa [hwb, hid] using hroom
    · intro size hs
      rw [entries_length]
      simpa [hwb, hid] using htaking size hs
    · intro v hv
      apply h.covered v
      rw [hwb]
      rcases List.mem_append.1 hv with hv | hv <;> simp [hv]
    · -- at rest the pool holds the first reader alone, which has no charge to give back
      intro reader hr
      rw [hfree] at hr
      rcases List.mem_append.1 hr with hr | hr
      · exact h.dying reader hr
      · rw [List.mem_singleton.1 hr]
  | @die pre reader post budget e hdying he hon =>
    refine ⟨hmax, h.pending, h.room, h.taking, h.covered, ?_⟩
    intro v hv
    apply h.dying v
    rw [hdying]
    rcases List.mem_append.1 hv with hv | hv <;> simp [hv]

/-! ## Over a whole run -/

theorem inv_start (limits : StoreLimits) : Inv limits (withLimits limits) :=
  ⟨rfl, rfl, Nat.zero_le _, nofun, nofun, nofun⟩

theorem runs_inv (h : Runs limits es s) : Inv limits s :=
  h.invariant (I := fun _ s => Inv limits s) (inv_start limits) fun _ _ _ _ => inv_step

/-- What the budget holds is owed to it, and is what was taken less what was
given back. -/
structure Balanced (limits : StoreLimits) (es : List Effect) (s : Store) : Prop where
  inv : Inv limits s
  held : s.budget.held = s.owed
  bounded : s.budget.held ≤ limits.maxStoreBytes
  balance : (es.map Effect.takes).sum = (es.map Effect.gives).sum + s.budget.held

/-- The bytes owed are a `u64`. -/
theorem Balanced.owed_lt (hmax : limits.maxStoreBytes < U64_MAX) (h : Balanced limits es s) : s.owed < 2 ^ 64 := by
  have := h.held
  have := h.bounded
  unfold U64_MAX at hmax
  omega

theorem balanced_step (hfit : s.budget.held + e.takes < 2 ^ 64) (h : Balanced limits es s) (hstep : Step limits s e s') :
    Balanced limits (es ++ [e]) s' := by
  have hlt : s.owed < 2 ^ 64 := h.held ▸ Nat.lt_of_le_of_lt (Nat.le_add_right _ _) hfit
  obtain ⟨howed, hgives⟩ := step_owed hlt h.inv hstep
  have hinv := inv_step h.inv hstep
  obtain ⟨hheld, hle⟩ := (step_on hstep).held hfit (h.held ▸ hgives) (h.inv.max ▸ h.bounded)
  refine ⟨hinv, ?_, h.inv.max ▸ hle, ?_⟩
  · have := h.held
    omega
  · have := h.balance
    simp only [List.map_append, List.sum_append, List.map_cons, List.map_nil, List.sum_singleton]
    omega

theorem balanced_start (limits : StoreLimits) : Balanced limits [] (withLimits limits) :=
  ⟨inv_start limits, rfl, Nat.zero_le _, rfl⟩

theorem runs_balanced (hmax : limits.maxStoreBytes < U64_MAX) (h : Runs limits es s) : Balanced limits es s := by
  refine h.invariant (balanced_start limits) fun _ _ _ _ hbal hstep => balanced_step ?_ hbal hstep
  exact (step_on hstep).fits (hbal.inv.max ▸ hmax) (hbal.inv.max ▸ hbal.bounded)

/-- A store without a limit keeps its books too, while the bytes are a `u64`. -/
theorem runs_balanced_of_fit (hfit : Effect.Fit es) (h : Runs limits es s) : Balanced limits es s := by
  refine h.invariant (I := fun es s => Effect.Fit es → Balanced limits es s) (fun _ => balanced_start limits) ?_ hfit
  intro es s e s' ih hstep hfit
  have hbal := ih hfit.past
  exact balanced_step (hfit.takes hbal.balance) hbal hstep

/-- The subtraction or addition the step makes is exact. -/
def Exact (s : Store) : Effect → Prop
  | .took bytes => s.budget.held + bytes ≤ s.budget.max
  | .gave bytes => bytes ≤ s.budget.held
  | .unpended => 0 < s.pending
  | .quiet | .denied _ => True

theorem Balanced.exact (hmax : limits.maxStoreBytes < U64_MAX) (h : Balanced limits es s) (hstep : Step limits s e s') :
    s.Exact e := by
  have hlt := h.owed_lt hmax
  obtain ⟨-, hgives⟩ := step_owed hlt h.inv hstep
  have hon := step_on hstep
  cases e with
  | took bytes => exact (Budget.take_held (h.inv.max ▸ hmax) hon).2
  | gave bytes => exact Nat.le_trans hgives (Nat.le_of_eq h.held.symm)
  | unpended =>
    have hpending := h.inv.pending
    show 0 < s.pending
    cases hstep with
    | register _ _ hres =>
      rw [hpending, hres]
      simp
    | abandon _ hres =>
      rw [hpending, hres]
      simp
    | reader _ hreader => cases hreader
    | @die _ reader _ _ _ _ he =>
      revert he
      cases reader.2 <;> nofun
  | quiet => trivial
  | denied bytes => trivial

/-- Between two critical sections of the registry's lock the budget holds
exactly the bytes of the registered workbooks, of the opens in progress and of
the live charges; it never holds more than it may, no more workbooks are open
or being opened than may be, and no count is clamped or wraps. -/
theorem bytes_accounted (hmax : limits.maxStoreBytes < U64_MAX) (h : Runs limits es s) :
    (s.writer = none → s.budget.held = s.registeredBytes + s.reservedBytes + s.chargedBytes) ∧
      s.budget.held ≤ limits.maxStoreBytes ∧
      s.entries.length + s.pending ≤ limits.maxOpenWorkbooks ∧
      s.pending = s.reservations.length ∧
      (es.map Effect.takes).sum = (es.map Effect.gives).sum + s.budget.held ∧
      ∀ e s', Step limits s e s' → s.Exact e := by
  have hbal := runs_balanced hmax h
  refine ⟨?_, hbal.bounded, hbal.inv.room, hbal.inv.pending, hbal.balance, ?_⟩
  · intro hw
    rw [hbal.held, owed, transit, hw]
    rfl
  · intro e s' hs
    exact hbal.exact hmax hs

theorem bytes_accounted_open : ∃ es s, Runs ⟨4, 100, 0⟩ es s ∧ s.entries.length = 1 ∧
    s.budget.held = s.registeredBytes + s.reservedBytes + s.chargedBytes := by
  obtain ⟨_, hopen⟩ := runs_first ⟨4, 100, 0⟩ ⟨60, 30⟩ rfl (by decide) (by decide) "a"
  exact ⟨_, _, hopen, rfl, (bytes_accounted (by decide) hopen).1 rfl⟩

end Store

end GrpcCalamine
