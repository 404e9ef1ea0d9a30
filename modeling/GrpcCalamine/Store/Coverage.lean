import GrpcCalamine.Store.Pool
/-!
# Every reader but the first carries a charge

Each step of a workbook's readers moves readers between the pool and the hands
that hold them, lets charged readers in or out, and takes or gives back
charges (`Covered.moves`). So `Covered` is kept (`covered_step`), and what the
workbook's readers are charged changes by what the step takes and gives.
-/

namespace GrpcCalamine

open scoped List

namespace Workbook

variable {w w' : Workbook}

/-- `w'` is `w` without the readers `left` and with `joined`, without the
charges `given` back and with the ones `taken`. -/
structure Moved (w : Workbook) (e : Effect) (w' : Workbook) (left joined : List ParkedReader)
    (given taken : List Charge) : Prop where
  readers : w'.readers ++ left ~ w.readers ++ joined
  left_charged : ∀ reader ∈ left, reader.2.isSome = true
  joined_charged : ∀ reader ∈ joined, reader.2.isSome = true ∧ 0 < reader.1.serial
  charges : w'.charges ++ given ~ w.charges ++ taken
  taken_own : ∀ charge ∈ taken, charge.bytes = w.size.readerBytes
  dropping : ∀ reader, .dropping reader ∈ w'.hands → .dropping reader ∈ w.hands ∨ reader ∈ left
  gives : e.gives = (given.map Charge.bytes).sum
  takes : e.takes = (taken.map Charge.bytes).sum
  size : w'.size = w.size
  opened : w.opened ≤ w'.opened
  room : w'.pool.free.length ≤ MAX_POOLED_READERS

theorem filter_charged {l : List ParkedReader} (h : ∀ reader ∈ l, reader.2.isSome = true) :
    l.filter (·.2.isNone) = [] :=
  List.filter_eq_nil_iff.2 fun reader hr => by simpa using Option.isSome_iff_ne_none.1 (h reader hr)

theorem Covered.moves (h : w.Covered) {e : Effect} (left joined : List ParkedReader) (given taken : List Charge)
    (m : Moved w e w' left joined given taken) :
    w'.Covered ∧ w'.chargedBytes + e.gives = w.chargedBytes + e.takes := by
  refine ⟨⟨?_, ?_, ?_, ?_, Nat.lt_of_lt_of_le h.opened m.opened, m.room⟩, ?_⟩
  · have hfilter := m.readers.filter (·.2.isNone)
    rw [List.filter_append, List.filter_append, filter_charged m.left_charged,
      filter_charged fun reader hr => (m.joined_charged reader hr).1, List.append_nil, List.append_nil,
      h.first] at hfilter
    exact List.perm_singleton.1 hfilter
  · intro reader hr
    rcases m.dropping reader hr with hr | hr
    · exact h.kept reader hr
    · exact m.left_charged reader hr
  · intro charge hc
    rw [m.size]
    rcases List.mem_append.1 (m.charges.subset (List.mem_append_left _ hc)) with hc | hc
    · exact h.own charge hc
    · exact m.taken_own charge hc
  · intro reader hr hsome
    rcases List.mem_append.1 (m.readers.subset (List.mem_append_left _ hr)) with hr | hr
    · exact h.later reader hr hsome
    · exact (m.joined_charged reader hr).2
  · have hsum := (m.charges.map Charge.bytes).sum_eq
    simpa [chargedBytes, m.gives, m.takes] using hsum

/-- A first reader that is out is not dropped when it is put back. -/
theorem Covered.dropped_charged (h : w.Covered) {pre post : List Hand} {reader dropped : ParkedReader}
    (hout : w.hands = pre ++ .out reader :: post) (hdrop : (w.pool.park reader).2 = some dropped) :
    dropped.2.isSome = true := by
  by_contra hsome
  obtain ⟨hne, hreader, hfree⟩ := ReaderPool.park_dropped hdrop (by simpa using hsome)
  have hlen := congrArg List.length h.first
  have hpool : w.pool.free.filter (·.2.isNone) = w.pool.free :=
    List.filter_eq_self.2 fun parked hp => by simp [hfree parked hp]
  have hpos := List.length_pos_iff.2 hne
  simp [readers, hout, hpool, hreader] at hlen
  omega

/-- What each hand holds, where some hands take the place of one. -/
theorem flatMap_hands {α : Type} (f : Hand → List α) (free : List α) (pre post : List Hand) (hand : Hand)
    (hands : List Hand) :
    free ++ (pre ++ (hands ++ post)).flatMap f ++ f hand ~ free ++ (pre ++ hand :: post).flatMap f ++ hands.flatMap f := by
  classical
  simp only [List.flatMap_append, List.flatMap_cons, List.perm_iff_count, List.count_append]
  intro a
  omega

/-- What a step of its readers does to a workbook. -/
theorem covered_step {e : Effect} (h : w.Covered) (hstep : ReaderStep w e w') :
    w'.Covered ∧ w'.chargedBytes + e.gives = w.chargedBytes + e.takes := by
  cases hstep with
  | @reuse reader pool _ htake =>
    have hfree := ReaderPool.take_spec htake
    have hroom := h.room
    rw [hfree, List.length_append] at hroom
    refine h.moves [] [] [] [] ⟨?_, nofun, nofun, ?_, nofun, by simp, rfl, rfl, rfl, Nat.le_refl _, ?_⟩
    · simp only [readers, hfree, List.flatMap_append, List.perm_iff_count]
      intro a
      simp [List.count_cons]
    · simp only [charges, hfree, List.flatMap_append, List.perm_iff_count]
      intro a
      simp
      omega
    · exact Nat.le_trans (Nat.le_add_right _ _) hroom
  | ask =>
    refine h.moves [] [] [] [] ⟨?_, nofun, nofun, ?_, nofun, by simp, rfl, rfl, rfl, Nat.le_refl _, h.room⟩
    · simp [readers]
    · simp [charges]
  | @charge pre post hhands =>
    refine h.moves [] [] [] [⟨w.size.readerBytes⟩]
      ⟨?_, nofun, nofun, ?_, by simp, by simp [hhands], rfl, rfl, rfl, Nat.le_refl _, h.room⟩
    · simp [readers, hhands]
    · rw [charges, charges, hhands]
      exact flatMap_hands (·.charge.toList) _ pre post .asking [.opening ⟨w.size.readerBytes⟩]
  | refused hhands =>
    refine h.moves [] [] [] [] ⟨?_, nofun, nofun, ?_, nofun, by simp [hhands], rfl, rfl, rfl, Nat.le_refl _, h.room⟩
    · simp [readers, hhands]
    · simp [charges, hhands]
  | @reopened pre charge post hhands =>
    refine h.moves [] [(⟨w.opened⟩, some charge)] [] []
      ⟨?_, nofun, by simpa using h.opened, ?_, nofun, by simp [hhands], rfl, rfl, rfl, Nat.le_succ _, h.room⟩
    · rw [readers, readers, hhands]
      exact flatMap_hands (·.reader.toList) _ pre post (.opening charge) [.out (⟨w.opened⟩, some charge)]
    · simp [charges, hhands]
  | @unreadable pre charge post hhands =>
    refine h.moves [] [] [charge] []
      ⟨?_, nofun, nofun, ?_, nofun, by simp [hhands], by simp [Effect.gives], rfl, rfl, Nat.le_refl _, h.room⟩
    · simp [readers, hhands]
    · rw [charges, charges, hhands]
      exact flatMap_hands (·.charge.toList) _ pre post (.opening charge) []
  | @putBack pre reader post hhands =>
    have hpark := ReaderPool.park_perm w.pool reader
    refine h.moves (w.pool.park reader).2.toList [] [] []
      ⟨?_, fun dropped hd => h.dropped_charged hhands (Option.mem_toList.1 hd), nofun, ?_, nofun, ?_, rfl, rfl, rfl,
        Nat.le_refl _, ReaderPool.park_length _ _ h.room⟩
    · -- the pool parks the reader, or drops it or another in its place
      simp only [readers, hhands, List.flatMap_append, List.flatMap_cons, List.perm_iff_count] at hpark ⊢
      intro a
      have := hpark a
      cases hdrop : (w.pool.park reader).2 <;> simp [hdrop, List.count_cons] at this ⊢ <;> omega
    · have hcharges := hpark.flatMap_right fun parked : ParkedReader => parked.2.toList
      simp only [charges, hhands, List.flatMap_append, List.flatMap_cons, List.perm_iff_count] at hcharges ⊢
      intro a
      have := hcharges a
      cases hdrop : (w.pool.park reader).2 <;> simp [hdrop] at this ⊢ <;> omega
    · intro dropped hd
      rw [hhands]
      simp only [List.mem_append, List.mem_cons, Option.mem_toList] at hd ⊢
      rcases hd with hd | hd | hd
      · exact .inl (.inl hd)
      · obtain ⟨kept, hkept, heq⟩ := Option.map_eq_some_iff.1 hd
        cases heq
        exact .inr hkept
      · exact .inl (.inr (.inr hd))
  | @discard pre reader charge post hhands =>
    refine h.moves [] [] [charge] []
      ⟨?_, nofun, nofun, ?_, nofun, ?_, by simp [Effect.gives], rfl, rfl, Nat.le_refl _, h.room⟩
    · simp [readers, hhands]
    · rw [charges, charges, hhands]
      exact flatMap_hands (·.charge.toList) _ pre post (.dropping (reader, some charge)) []
    · intro dropped hd
      simp only [hhands, List.mem_append, List.mem_cons] at hd ⊢
      exact .inl (hd.imp_right .inr)
  | @forget pre reader post hhands =>
    -- a reader without a charge is never dropped
    have := h.kept (reader, none) (by simp [hhands])
    cases this
  | release =>
    exact h.moves [] [] [] [] ⟨.refl _, nofun, nofun, .refl _, nofun, by simp, rfl, rfl, rfl, Nat.le_refl _, h.room⟩

theorem step_frame {e : Effect} (hstep : ReaderStep w e w') : w'.id = w.id ∧ w'.identity = w.identity := by
  cases hstep <;> exact ⟨rfl, rfl⟩

/-- A reader's step takes and gives back charges of its own workbook only. -/
theorem step_gives {e : Effect} (hstep : ReaderStep w e w') : e.gives ≤ w.chargedBytes := by
  cases hstep with
  | unreadable hhands | discard hhands => simp [Effect.gives, chargedBytes, charges, hhands]; omega
  | _ => exact Nat.zero_le _

/-- With no reader checked out the first one is parked and nothing is charged. -/
theorem Covered.at_rest (h : w.Covered) (hhands : ∀ hand ∈ w.hands, hand.checkedOut = false) :
    w.pool.free = [(⟨0⟩, none)] ∧ w.charges = [] ∧ w.chargedBytes = 0 := by
  have hasking : ∀ hand ∈ w.hands, hand = .asking := fun hand hh => by
    have := hhands hand hh
    cases hand with
    | asking => rfl
    | _ => cases this
  have hreader : (w.hands.flatMap fun hand => hand.reader.toList) = [] :=
    List.flatMap_eq_nil_iff.2 fun hand hh => by rw [hasking hand hh]; rfl
  have hcharge : (w.hands.flatMap fun hand => hand.charge.toList) = [] :=
    List.flatMap_eq_nil_iff.2 fun hand hh => by rw [hasking hand hh]; rfl
  have hfirst := h.first
  rw [readers, hreader, List.append_nil] at hfirst
  have hall := List.filter_sublist.eq_of_length_le (by rw [hfirst]; exact h.room)
  have hfree : w.pool.free = [(⟨0⟩, none)] := hall.symm.trans hfirst
  have hcharges : w.charges = [] := by simp [charges, hfree, hcharge]
  exact ⟨hfree, hcharges, by simp [chargedBytes, hcharges]⟩

end Workbook

end GrpcCalamine
