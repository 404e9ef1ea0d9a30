import GrpcCalamine.Archive.Order
import GrpcCalamine.Store.Admission
import GrpcCalamine.Store.Open
/-!
# An open is charged for what is in the archive

The check of the format, the scan of the archive and the reservation together
(`Store.admitOpen`) come to one condition on the upload, its archive's entries
and the store (`Store.admitOpen_ok_iff`): no clamped sum in between makes room
for an upload whose parts do not fit.
-/

namespace GrpcCalamine

variable {limits : OpenLimits} {zip : List UInt8 → Option (List (Option Entry))} {bytes : List UInt8}
  {formatHint : Pb.WorkbookFormat} {s : Store}

/-- The entries of the upload, none where it is no archive. -/
def contentsOf (zip : List UInt8 → Option (List (Option Entry))) (bytes : List UInt8) : List (Option Entry) :=
  (zip bytes).getD []

/-- The upload with all that a reader inflates of it. -/
def contentBytes (zip : List UInt8 → Option (List (Option Entry))) (bytes : List UInt8) : Nat :=
  bytes.length + (pictureSum (contentsOf zip bytes) + estimateSum (contentsOf zip bytes))

theorem inspect_contents_iff {limits : InflateLimits} {r : Inflated} :
    inspect limits (zip bytes) = .ok r ↔
      Passes limits (contentsOf zip bytes) ∧ r = measured (contentsOf zip bytes) := by
  unfold contentsOf
  cases zip bytes with
  | some entries => exact inspect_ok_iff
  | none =>
    -- nothing is inspected, and nothing is in it
    have hempty : inspect limits (some []) = .ok r ↔ Passes limits [] ∧ r = measured [] := inspect_ok_iff
    exact hempty

/-- What an upload is charged, as `open` computes it. -/
def chargeOf (zip : List UInt8 → Option (List (Option Entry))) (bytes : List UInt8) : Footprint :=
  ⟨bytes.length, (measured (contentsOf zip bytes)).readerBytes⟩

theorem chargeOf_le (zip : List UInt8 → Option (List (Option Entry))) (bytes : List UInt8) :
    (chargeOf zip bytes).heldBytes ≤ contentBytes zip bytes := by
  simp only [chargeOf, Footprint.heldBytes, Inflated.readerBytes, measured, satAdd, contentBytes]
  omega

/-- The charge, saturated step by step, loses nothing where it is below the
last `u64`, or the exact sum is one. -/
theorem chargeOf_eq (h : (chargeOf zip bytes).heldBytes < U64_MAX ∨ contentBytes zip bytes ≤ U64_MAX) :
    (chargeOf zip bytes).heldBytes = contentBytes zip bytes := by
  simp only [chargeOf, Footprint.heldBytes, Inflated.readerBytes, measured, satAdd, contentBytes] at h ⊢
  omega

/-- With a limit below the last `u64`, or bytes that fit one, room is compared
as the exact sum does. -/
theorem held_add_charge_le_iff {held max : Nat} (hfits : max < U64_MAX ∨ held + contentBytes zip bytes ≤ U64_MAX) :
    satAdd held (chargeOf zip bytes).heldBytes ≤ max ↔ held + contentBytes zip bytes ≤ max := by
  rcases hfits with hmax | hsum
  · rw [satAdd_le_iff hmax]
    constructor
    · intro hle
      rwa [← chargeOf_eq (.inl (by omega))]
    · have := chargeOf_le zip bytes
      omega
  · rw [chargeOf_eq (.inr (by omega)), satAdd_eq hsum]

namespace Store

theorem admitOpen_ok_iff (hmax : s.budget.max = limits.store.maxStoreBytes)
    (hfits : limits.store.maxStoreBytes < U64_MAX ∨
      (s.sweep limits.store).budget.held + contentBytes zip bytes ≤ U64_MAX) :
    (∃ size s', s.admitOpen limits zip bytes formatHint = (.ok size, s')) ↔
      (formatHint = .unspecified ∨ limits.formats.accepts formatHint = true) ∧
        Passes limits.inflate (contentsOf zip bytes) ∧
        (s.sweep limits.store).entries.length + s.pending < limits.store.maxOpenWorkbooks ∧
        (s.sweep limits.store).budget.held + contentBytes zip bytes ≤ limits.store.maxStoreBytes := by
  have hroom : (s.reserve limits.store (chargeOf zip bytes)).1 = .ok () ↔
      (s.sweep limits.store).entries.length + s.pending < limits.store.maxOpenWorkbooks ∧
        (s.sweep limits.store).budget.held + contentBytes zip bytes ≤ limits.store.maxStoreBytes := by
    rw [reserve_eq hmax, fitsBeside, fits_ok_iff, held_add_charge_le_iff hfits, sweep_pending]
  constructor
  · rintro ⟨size, s', hcomes⟩
    obtain ⟨inflated, -, hgate, hinspect, rfl, -, hreserve, -⟩ := admitOpen_ok hcomes
    obtain ⟨hpasses, rfl⟩ := inspect_contents_iff.1 hinspect
    exact ⟨hgate, hpasses, hroom.1 (congrArg Prod.fst hreserve)⟩
  · rintro ⟨hgate, hpasses, hplace⟩
    have hinspect := inspect_contents_iff.2 ⟨hpasses, rfl⟩
    have hopen : ¬ (formatHint ≠ .unspecified ∧ limits.formats.accepts formatHint = false) := by
      rintro ⟨hhint, hrefused⟩
      rcases hgate with hunspecified | haccepts
      · exact hhint hunspecified
      · exact Bool.false_ne_true (hrefused.symm.trans haccepts)
    have hreserve := hroom.2 hplace
    rw [chargeOf] at hreserve
    rw [admitOpen, if_neg hopen, hinspect]
    simp only []
    split
    · next e s' hr =>
      rw [hr] at hreserve
      cases hreserve
    · exact ⟨_, _, rfl⟩

/-- The room an open is given, for all that is in the archive. -/
theorem admitOpen_charges (hmax : s.budget.max = limits.store.maxStoreBytes)
    (hfits : limits.store.maxStoreBytes < U64_MAX ∨
      (s.sweep limits.store).budget.held + contentBytes zip bytes ≤ U64_MAX) {size : Footprint} {s' : Store}
    (hcomes : s.admitOpen limits zip bytes formatHint = (.ok size, s')) :
    s'.budget.held = (s.sweep limits.store).budget.held + contentBytes zip bytes ∧
      s'.reservations = s.reservations ++ [size] ∧ s'.pending = s.pending + 1 ∧
      s'.entries = (s.sweep limits.store).entries := by
  obtain ⟨inflated, budget, -, hinspect, rfl, htake, -, rfl⟩ := admitOpen_ok hcomes
  obtain ⟨-, rfl⟩ := inspect_contents_iff.1 hinspect
  have htake : (s.sweep limits.store).budget.take (chargeOf zip bytes).heldBytes = .ok budget := htake
  refine ⟨?_, ?_, ?_, rfl⟩
  · show budget.held = _
    rcases hfits with hlimit | hsum
    · have hswept : (s.sweep limits.store).budget.max < U64_MAX := by
        rwa [sweep_max, hmax]
      obtain ⟨hheld, hfit⟩ := Budget.take_held hswept htake
      rw [hheld, chargeOf_eq (.inl (by omega))]
    · have hle := chargeOf_le zip bytes
      have hwraps : (s.sweep limits.store).budget.held + (chargeOf zip bytes).heldBytes < 2 ^ 64 := by
        unfold U64_MAX at hsum
        omega
      rw [(Budget.take_exact hwraps htake).1, chargeOf_eq (.inr (by omega))]
  · rw [withReserved, sweep_reservations]
  · rw [withReserved, sweep_pending]

/-- In any state that the store's threads bring it to, an open that nothing
comes between is given its room if and only if its format is accepted, its
archive passes the limits on what it declares, and there is a workbook's place
and the bytes of the upload and of all a reader inflates of it; and those
bytes, to the last, are what the budget holds more, until the open ends. Only
in a store with no limit could the bytes be more than a `u64` counts. -/
theorem admitted_for_contents {es : List Effect} (hrun : Runs limits.store es s)
    (hfits : limits.store.maxStoreBytes < U64_MAX ∨
      (s.sweep limits.store).budget.held + contentBytes zip bytes ≤ U64_MAX) :
    ((∃ size s', s.admitOpen limits zip bytes formatHint = (.ok size, s')) ↔
      (formatHint = .unspecified ∨ limits.formats.accepts formatHint = true) ∧
        Passes limits.inflate (contentsOf zip bytes) ∧
        (s.sweep limits.store).entries.length + s.pending < limits.store.maxOpenWorkbooks ∧
        (s.sweep limits.store).budget.held + contentBytes zip bytes ≤ limits.store.maxStoreBytes) ∧
    ∀ size s', s.admitOpen limits zip bytes formatHint = (.ok size, s') →
      s'.budget.held = (s.sweep limits.store).budget.held + contentBytes zip bytes ∧
        s'.reservations = s.reservations ++ [size] ∧ s'.pending = s.pending + 1 ∧
        s'.entries = (s.sweep limits.store).entries := by
  have hmax := (runs_inv hrun).max
  exact ⟨admitOpen_ok_iff hmax hfits, fun _ _ hcomes => admitOpen_charges hmax hfits hcomes⟩

/-- A picture of four bytes, packed into three. -/
def onePicture : List UInt8 → Option (List (Option Entry)) := fun _ =>
  some [some ⟨"xl/media/image1.png", [.ok [1, 2, 3, 4]], by simp [READ_BUFFER]⟩]

/-- Three bytes are sent, and seven are charged, where nothing is too many. -/
theorem admitted_for_contents_picture : contentBytes onePicture [1, 2, 3] = 7 ∧ ∃ size s',
    (withLimits ⟨4, U64_MAX, 10⟩).admitOpen { xlsxOnly with store := ⟨4, U64_MAX, 10⟩ } onePicture [1, 2, 3]
      .unspecified = (.ok size, s') ∧ s'.budget.held = 7 := by
  have h : Runs ⟨4, U64_MAX, 10⟩ [] (withLimits ⟨4, U64_MAX, 10⟩) := .start
  have hbytes : contentBytes onePicture [1, 2, 3] = 7 := by decide
  have hadmitted : (withLimits ⟨4, U64_MAX, 10⟩).admitOpen { xlsxOnly with store := ⟨4, U64_MAX, 10⟩ } onePicture
      [1, 2, 3] .unspecified = (.ok ⟨3, 4⟩, _) := rfl
  refine ⟨hbytes, _, _, hadmitted, ?_⟩
  rw [((@admitted_for_contents { xlsxOnly with store := ⟨4, U64_MAX, 10⟩ } _ _ _ _ _ h (.inr (by decide))).2 _ _
    hadmitted).1, hbytes]
  rfl

end Store

end GrpcCalamine
