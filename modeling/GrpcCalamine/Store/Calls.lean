import GrpcCalamine.Store.Accounting
import GrpcCalamine.Store.Turns
import Mathlib.Data.List.Nodup
/-!
# Calls of the store

The calls of `WorkbookStore` as a thread sees them that nothing interrupts:
each is one function of the store. `sweep` here closes all idle workbooks at
once, as of `Store.now`. A reader of a workbook is taken out and put back turn
by turn, other calls between them (`Turn`). What these functions do, the
critical sections of one thread do (`runs_perform`).
-/

namespace GrpcCalamine

namespace Workbook

/-- What a sweep finds a registered workbook to be, and what it frees. -/
theorem sweep_cases (ttl now : Nat) {w : Workbook} (hid : w.id.isSome = true) :
    (w.busy = true ∧ w.sweep ttl now = { w with lastUsed := now } ∧ w.freed ttl now = 0) ∨
    (w.busy = false ∧ now - w.lastUsed < ttl ∧ w.sweep ttl now = w ∧ w.freed ttl now = 0) ∨
    (w.busy = false ∧ ttl ≤ now - w.lastUsed ∧ w.sweep ttl now = { w with id := none } ∧
      w.freed ttl now = w.size.heldBytes) := by
  have hsome := Option.isSome_iff_ne_none.1 hid
  cases hbusy : w.busy with
  | true =>
    have hsweep : w.sweep ttl now = { w with lastUsed := now } := if_pos hbusy
    exact .inl ⟨rfl, hsweep, by rw [freed, hsweep, if_neg hsome]⟩
  | false =>
    have hunheld : ¬w.busy = true := by simp [hbusy]
    by_cases hused : now - w.lastUsed < ttl
    · have hsweep : w.sweep ttl now = w := (if_neg hunheld).trans (if_pos hused)
      exact .inr (.inl ⟨rfl, hused, hsweep, by rw [freed, hsweep, if_neg hsome]⟩)
    · have hsweep : w.sweep ttl now = { w with id := none } := (if_neg hunheld).trans (if_neg hused)
      exact .inr (.inr ⟨rfl, Nat.not_lt.1 hused, hsweep, by rw [freed, hsweep, if_pos rfl]⟩)

end Workbook

namespace Store

variable {limits : StoreLimits} {es : List Effect} {s s' : Store} {pre post : List Workbook}

/-! ## The calls -/

/-- Close every workbook unused for at least the idle TTL. -/
def sweep (limits : StoreLimits) (s : Store) : Store :=
  if limits.idleTtl = 0 then s
  else
    { s with workbooks := s.workbooks.map fun w => if w.id.isSome then w.sweep limits.idleTtl s.now else w,
             budget := s.budget.give ((s.entries.map (·.freed limits.idleTtl s.now)).sum % 2 ^ 64) }

/-- `evict_idle`, and how many it closed. -/
def evictIdle (limits : StoreLimits) (s : Store) : Nat × Store :=
  (s.entries.length - (s.sweep limits).entries.length, s.sweep limits)

/-- `fits`, of the store as it is. -/
def fitsBeside (limits : StoreLimits) (s : Store) (bytes : Nat) : Except LimitExceeded Unit :=
  fits limits s.entries.length s.pending s.budget bytes

/-- Whether a workbook of `bytes` could be opened now: only a refusal pays for
closing idle workbooks. -/
def admits (limits : StoreLimits) (s : Store) (bytes : Nat) : Except LimitExceeded Unit × Store :=
  match s.fitsBeside limits bytes with
  | .ok () => (.ok (), s)
  | .error _ => ((s.sweep limits).fitsBeside limits bytes, s.sweep limits)

/-- Take room for a workbook, closing idle workbooks first. -/
def reserve (limits : StoreLimits) (s : Store) (size : Footprint) : Except LimitExceeded Unit × Store :=
  let swept := s.sweep limits
  match swept.fitsBeside limits size.heldBytes with
  | .error e => (.error e, swept)
  | .ok () =>
    match swept.budget.take size.heldBytes with
    | .error held => (.error (.storeBytes size.heldBytes held limits.maxStoreBytes), swept)
    | .ok budget =>
      (.ok (), { swept with budget := budget, pending := swept.pending + 1, reservations := swept.reservations ++ [size] })

/-- `Reservation::register`, of the `i`th reservation. -/
def register (s : Store) (i : Nat) (id : String) : Option Store :=
  (s.reservations[i]?).map fun size =>
    { s with pending := s.pending - 1, reservations := s.reservations.eraseIdx i, registered := s.registered + 1,
             workbooks := s.workbooks ++ [.ofOpen id s.registered size s.now] }

/-- `Reservation::drop`, where nothing was registered. -/
def abandon (s : Store) (i : Nat) : Option Store :=
  (s.reservations[i]?).map fun size =>
    { s with pending := s.pending - 1, reservations := s.reservations.eraseIdx i,
             budget := s.budget.give size.heldBytes }

/-- `registry.entries.get(id)`. -/
def entry (s : Store) (id : String) : Option Workbook := s.workbooks.find? (·.id = some id)

/-- The workbooks, with another in the place of the one registered under
`id`. -/
def update (s : Store) (id : String) (f : Workbook → Workbook) : List Workbook :=
  s.workbooks.map fun w => if w.id = some id then f w else w

/-- Look up an open workbook by id, recording the use. -/
def get (s : Store) (id : String) : Option Store :=
  (s.entry id).map fun _ =>
    { s with workbooks := s.update id fun w => { w with holders := w.holders + 1, lastUsed := s.now } }

/-- Remove a workbook from the store, and whether it existed. -/
def close (s : Store) (id : String) : Bool × Store :=
  match s.entry id with
  | none => (false, s)
  | some w =>
    (true, { s with workbooks := s.update id fun w => { w with id := none }, budget := s.budget.give w.size.heldBytes })

/-- An RPC ends that holds the workbook registered under `id`. -/
def finish (s : Store) (id : String) : Option Store :=
  match s.entry id with
  | none => none
  | some w =>
    if w.busy ∧ w.releasable then
      some { s with workbooks := s.update id fun w => { w with holders := w.holders - 1 } }
    else none

/-- An RPC ends that holds a workbook closed since, the `i`th of those in
memory. -/
def finishClosed (s : Store) (i : Nat) : Option Store :=
  match s.workbooks[i]? with
  | none => none
  | some w =>
    if w.id = none ∧ w.busy ∧ w.releasable then
      some { s with workbooks := s.workbooks.set i { w with holders := w.holders - 1 } }
    else none

/-- A turn of a reader of the `i`th workbook in memory. -/
def reader (s : Store) (i : Nat) (turn : Turn) : Option Store :=
  match s.workbooks[i]? with
  | none => none
  | some w => (w.turn s.budget turn).map fun (w', budget) =>
    { s with budget := budget, workbooks := s.workbooks.set i w' }

/-- The last `Arc` of the `i`th workbook goes, and its pool with it. -/
def vanish (s : Store) (i : Nat) : Option Store :=
  match s.workbooks[i]? with
  | none => none
  | some w =>
    if w.id = none ∧ w.holders = 0 ∧ w.hands = [] then
      some { s with workbooks := s.workbooks.eraseIdx i, dying := s.dying ++ w.pool.free }
    else none

/-- The drop of the `i`th reader of those on their way out. -/
def die (s : Store) (i : Nat) : Option Store :=
  (s.dying[i]?).map fun reader =>
    { s with dying := s.dying.eraseIdx i, budget := match reader.2 with
      | some charge => s.budget.give charge.bytes
      | none => s.budget }

/-! ## What a sweep leaves alone -/

@[simp] theorem sweep_pending (limits : StoreLimits) (s : Store) : (s.sweep limits).pending = s.pending := by
  unfold sweep
  split <;> rfl

@[simp] theorem sweep_reservations (limits : StoreLimits) (s : Store) :
    (s.sweep limits).reservations = s.reservations := by
  unfold sweep
  split <;> rfl

@[simp] theorem sweep_dying (limits : StoreLimits) (s : Store) : (s.sweep limits).dying = s.dying := by
  unfold sweep
  split <;> rfl

@[simp] theorem sweep_writer (limits : StoreLimits) (s : Store) : (s.sweep limits).writer = s.writer := by
  unfold sweep
  split <;> rfl

@[simp] theorem sweep_now (limits : StoreLimits) (s : Store) : (s.sweep limits).now = s.now := by
  unfold sweep
  split <;> rfl

@[simp] theorem sweep_max (limits : StoreLimits) (s : Store) : (s.sweep limits).budget.max = s.budget.max := by
  unfold sweep
  split <;> rfl

/-! ## Any call -/

/-- What a thread calls. -/
inductive Call where
  | evictIdle
  | admits (bytes : Nat)
  | reserve (size : Footprint)
  | register (i : Nat) (id : String)
  | abandon (i : Nat)
  | get (id : String)
  | close (id : String)
  | finish (id : String)
  | finishClosed (i : Nat)
  | reader (i : Nat) (turn : Turn)
  | vanish (i : Nat)
  | die (i : Nat)

/-- What a call makes of the store, where it can be made: ids are drawn
fresh. -/
def perform (limits : StoreLimits) (s : Store) : Call → Option Store
  | .evictIdle => some (s.evictIdle limits).2
  | .admits bytes => some (s.admits limits bytes).2
  | .reserve size => some (s.reserve limits size).2
  | .register i id => if (s.entry id).isSome then none else s.register i id
  | .abandon i => s.abandon i
  | .get id => some ((s.get id).getD s)
  | .close id => some (s.close id).2
  | .finish id => s.finish id
  | .finishClosed i => s.finishClosed i
  | .reader i turn => s.reader i turn
  | .vanish i => s.vanish i
  | .die i => s.die i

/-- What each call leaves, where it can be made. -/
inductive Performed (limits : StoreLimits) (s : Store) : Call → Store → Prop where
  | evictIdle : Performed limits s .evictIdle (s.sweep limits)
  | fits {bytes} : s.fitsBeside limits bytes = .ok () → Performed limits s (.admits bytes) s
  | swept {bytes e} : s.fitsBeside limits bytes = .error e → Performed limits s (.admits bytes) (s.sweep limits)
  | refused {size e} : (s.reserve limits size).1 = .error e → Performed limits s (.reserve size) (s.sweep limits)
  | reserve {size budget} : (s.sweep limits).budget.take size.heldBytes = .ok budget → Performed limits s (.reserve size)
      { s.sweep limits with budget := budget, pending := (s.sweep limits).pending + 1,
                            reservations := (s.sweep limits).reservations ++ [size] }
  | register {i id size} : s.entry id = none → s.reservations[i]? = some size → Performed limits s (.register i id)
      { s with pending := s.pending - 1, reservations := s.reservations.eraseIdx i, registered := s.registered + 1,
               workbooks := s.workbooks ++ [.ofOpen id s.registered size s.now] }
  | abandon {i size} : s.reservations[i]? = some size → Performed limits s (.abandon i)
      { s with pending := s.pending - 1, reservations := s.reservations.eraseIdx i,
               budget := s.budget.give size.heldBytes }
  | missed {id} : s.entry id = none → Performed limits s (.get id) s
  | get {id w} : s.entry id = some w → Performed limits s (.get id)
      { s with workbooks := s.update id fun w => { w with holders := w.holders + 1, lastUsed := s.now } }
  | absent {id} : s.entry id = none → Performed limits s (.close id) s
  | close {id w} : s.entry id = some w → Performed limits s (.close id)
      { s with workbooks := s.update id fun w => { w with id := none }, budget := s.budget.give w.size.heldBytes }
  | finish {id w} : s.entry id = some w → w.busy = true → w.releasable = true → Performed limits s (.finish id)
      { s with workbooks := s.update id fun w => { w with holders := w.holders - 1 } }
  | finishClosed {i w} : s.workbooks[i]? = some w → w.id = none → w.busy = true → w.releasable = true →
      Performed limits s (.finishClosed i)
        { s with workbooks := s.workbooks.set i { w with holders := w.holders - 1 } }
  | reader {i turn w w' budget} : s.workbooks[i]? = some w → w.turn s.budget turn = some (w', budget) →
      Performed limits s (.reader i turn) { s with budget := budget, workbooks := s.workbooks.set i w' }
  | vanish {i w} : s.workbooks[i]? = some w → w.id = none → w.holders = 0 → w.hands = [] →
      Performed limits s (.vanish i) { s with workbooks := s.workbooks.eraseIdx i, dying := s.dying ++ w.pool.free }
  | die {i reader} : s.dying[i]? = some reader → Performed limits s (.die i)
      { s with dying := s.dying.eraseIdx i, budget := match reader.2 with
        | some charge => s.budget.give charge.bytes
        | none => s.budget }

theorem perform_cases {call : Call} (hs : s.perform limits call = some s') : Performed limits s call s' := by
  cases call with
  | evictIdle =>
    cases hs
    exact .evictIdle
  | admits bytes =>
    cases hs
    unfold admits
    split
    · exact .fits (by assumption)
    · exact .swept (by assumption)
  | reserve size =>
    -- a refusal leaves the store swept, whether for want of room or of bytes
    cases hs
    cases hfits : (s.sweep limits).fitsBeside limits size.heldBytes with
    | error e =>
      have hrefused : s.reserve limits size = (.error e, s.sweep limits) := by simp only [reserve, hfits]
      rw [hrefused]
      exact .refused (by rw [hrefused])
    | ok u =>
      cases htake : (s.sweep limits).budget.take size.heldBytes with
      | error held =>
        have hrefused : s.reserve limits size =
            (.error (.storeBytes size.heldBytes held limits.maxStoreBytes), s.sweep limits) := by
          simp only [reserve, hfits, htake]
        rw [hrefused]
        exact .refused (by rw [hrefused])
      | ok budget =>
        simp only [reserve, hfits, htake]
        exact .reserve htake
  | register i id =>
    simp only [perform] at hs
    split at hs
    · cases hs
    · rename_i hfresh
      obtain ⟨size, hi, rfl⟩ := Option.map_eq_some_iff.1 hs
      exact .register (by simpa using hfresh) hi
  | abandon i =>
    obtain ⟨size, hi, rfl⟩ := Option.map_eq_some_iff.1 hs
    exact .abandon hi
  | get id =>
    cases hs
    cases hentry : s.entry id with
    | none =>
      rw [get, hentry]
      exact .missed hentry
    | some w =>
      rw [get, hentry]
      exact .get hentry
  | close id =>
    cases hs
    unfold close
    split
    · exact .absent (by assumption)
    · exact .close (by assumption)
  | finish id =>
    simp only [perform, finish] at hs
    split at hs
    · cases hs
    split at hs
    · rename_i hentry hends
      cases hs
      exact .finish hentry hends.1 hends.2
    · cases hs
  | finishClosed i =>
    simp only [perform, finishClosed] at hs
    split at hs
    · cases hs
    split at hs
    · rename_i hi hends
      cases hs
      exact .finishClosed hi hends.1 hends.2.1 hends.2.2
    · cases hs
  | reader i turn =>
    simp only [perform, reader] at hs
    split at hs
    · cases hs
    · rename_i w hi
      obtain ⟨⟨w', budget⟩, hturn, rfl⟩ := Option.map_eq_some_iff.1 hs
      exact .reader hi hturn
  | vanish i =>
    simp only [perform, vanish] at hs
    split at hs
    · cases hs
    split at hs
    · rename_i hi hgone
      cases hs
      exact .vanish hi hgone.1 hgone.2.1 hgone.2.2
    · cases hs
  | die i =>
    obtain ⟨reader, hi, rfl⟩ := Option.map_eq_some_iff.1 hs
    exact .die hi

/-! ## Ids are unique -/

/-- No two workbooks are registered under one id. -/
def Unique (s : Store) : Prop := (s.workbooks.filterMap (·.id)).Nodup

/-- A workbook that keeps its id, or is closed. -/
theorem Unique.replace (h : Unique s) {pre post : List Workbook} {w w' : Workbook}
    (hwb : s.workbooks = pre ++ w :: post) (hid : w'.id = w.id ∨ w'.id = none) :
    ((pre ++ w' :: post).filterMap (·.id)).Nodup := by
  unfold Unique at h
  rw [hwb] at h
  refine List.Nodup.sublist ?_ h
  rw [List.filterMap_append, List.filterMap_append]
  apply List.Sublist.append_left
  rcases hid with hid | hid
  · rw [List.filterMap_cons, List.filterMap_cons, hid]
  · rw [List.filterMap_cons_none hid]
    exact (List.sublist_cons_self _ _).filterMap _

theorem sweep_id (ttl now : Nat) (w : Workbook) : (w.sweep ttl now).id = w.id ∨ (w.sweep ttl now).id = none := by
  unfold Workbook.sweep
  split
  · exact .inl rfl
  split
  · exact .inl rfl
  · exact .inr rfl

theorem unique_step {e : Effect} (h : Unique s) (hstep : Step limits s e s') : Unique s' := by
  cases hstep with
  | sweepEntry _ hwb _ => exact h.replace hwb (sweep_id _ _ _)
  | close id _ hwb _ => exact h.replace hwb (.inr rfl)
  | get id _ hwb _ => exact h.replace hwb (.inl rfl)
  | touch hwb _ _ => exact h.replace hwb (.inl rfl)
  | reader hwb hreader _ => exact h.replace hwb (.inl (Workbook.step_frame hreader).1)
  | register id _ _ hfresh _ =>
    unfold Unique
    rw [List.filterMap_append]
    apply List.Nodup.append h (List.nodup_singleton id)
    intro x hx hid
    obtain rfl := List.mem_singleton.1 hid
    obtain ⟨w, hw, hwid⟩ := List.mem_filterMap.1 hx
    exact hfresh w hw hwid
  | vanish hwb _ _ _ =>
    unfold Unique at h ⊢
    rw [hwb] at h
    exact List.Nodup.sublist (((List.sublist_cons_self _ _).append_left _).filterMap _) h
  | _ => exact h

theorem unique_start (limits : StoreLimits) : Unique (withLimits limits) := by
  unfold Unique
  exact List.nodup_nil

theorem runs_unique (h : Runs limits es s) : Unique s :=
  h.invariant (I := fun _ s => Unique s) (unique_start limits) fun _ _ _ _ => unique_step

/-- Each workbook in memory has a number of its own, below those to come. -/
structure Numbered (s : Store) : Prop where
  distinct : (s.workbooks.map (·.serial)).Nodup
  below : ∀ w ∈ s.workbooks, w.serial < s.registered

/-- A workbook that keeps its number. -/
theorem Numbered.replace (h : Numbered s) {w w' : Workbook} (hwb : s.workbooks = pre ++ w :: post)
    (hwb' : s'.workbooks = pre ++ w' :: post) (hregistered : s'.registered = s.registered) (hsame : w'.serial = w.serial) :
    Numbered s' := by
  have hmap : s'.workbooks.map (·.serial) = s.workbooks.map (·.serial) := by simp [hwb, hwb', hsame]
  refine ⟨hmap ▸ h.distinct, fun v hv => ?_⟩
  have hmem : v.serial ∈ s.workbooks.map (·.serial) := hmap ▸ List.mem_map_of_mem hv
  obtain ⟨u, hu, husame⟩ := List.mem_map.1 hmem
  exact hregistered ▸ husame ▸ h.below u hu

theorem sweep_serial (ttl now : Nat) (w : Workbook) : (w.sweep ttl now).serial = w.serial := by
  unfold Workbook.sweep
  split
  · rfl
  split <;> rfl

theorem numbered_step {e : Effect} (h : Numbered s) (hstep : Step limits s e s') : Numbered s' := by
  cases hstep with
  | sweepEntry _ hwb _ => exact h.replace hwb rfl rfl (sweep_serial _ _ _)
  | close id _ hwb _ => exact h.replace hwb rfl rfl rfl
  | get id _ hwb _ => exact h.replace hwb rfl rfl rfl
  | touch hwb _ _ => exact h.replace hwb rfl rfl rfl
  | reader hwb hreader _ =>
    exact h.replace hwb rfl rfl (congrArg Identity.serial (Workbook.step_frame hreader).2)
  | register id _ _ _ _ =>
    refine ⟨?_, fun w hw => ?_⟩
    · rw [List.map_append]
      apply List.Nodup.append h.distinct (List.nodup_singleton _)
      intro n hn hnew
      obtain rfl := List.mem_singleton.1 hnew
      obtain ⟨w, hw, hserial⟩ := List.mem_map.1 hn
      exact absurd hserial (Nat.ne_of_lt (h.below w hw))
    · rcases List.mem_append.1 hw with hw | hw
      · exact Nat.lt_succ_of_lt (h.below w hw)
      · rw [List.mem_singleton.1 hw]
        exact Nat.lt_succ_self _
  | @vanish pre w post hwb _ _ _ =>
    have hsub : (pre ++ post).Sublist s.workbooks := by
      rw [hwb]
      exact (List.sublist_cons_self _ _).append_left _
    exact ⟨h.distinct.sublist (hsub.map _), fun w hw => h.below w (hsub.subset hw)⟩
  | _ => exact ⟨h.distinct, h.below⟩

theorem numbered_start (limits : StoreLimits) : Numbered (withLimits limits) :=
  ⟨List.nodup_nil, fun _ hw => absurd hw List.not_mem_nil⟩

theorem runs_numbered (h : Runs limits es s) : Numbered s :=
  h.invariant (I := fun _ s => Numbered s) (numbered_start limits) fun _ _ _ _ => numbered_step

theorem entry_spec {w : Workbook} {id : String} (h : s.entry id = some w) : w ∈ s.workbooks ∧ w.id = some id := by
  refine ⟨List.mem_of_find?_eq_some h, ?_⟩
  simpa using List.find?_some h

theorem entry_none {id : String} (h : s.entry id = none) : ∀ w ∈ s.workbooks, w.id ≠ some id := by
  intro w hw
  simpa using List.find?_eq_none.1 h w hw

/-- Beside the workbook registered under an id there is no other. -/
theorem Unique.other (h : Unique s) {w : Workbook} {id : String} (hwb : s.workbooks = pre ++ w :: post)
    (hid : w.id = some id) : ∀ v ∈ pre ++ post, v.id ≠ some id := by
  unfold Unique at h
  rw [hwb, List.filterMap_append, List.filterMap_cons_some hid] at h
  intro v hv hvid
  apply (List.nodup_cons.1 (List.nodup_middle.1 h)).1
  rw [← List.filterMap_append]
  exact List.mem_filterMap.2 ⟨v, hv, hvid⟩

theorem Unique.entry (h : Unique s) {w : Workbook} {id : String} (hw : w ∈ s.workbooks) (hid : w.id = some id) :
    s.entry id = some w := by
  obtain ⟨pre, post, hwb⟩ := List.append_of_mem hw
  have hother := h.other hwb hid
  have hpre : pre.find? (·.id = some id) = none := by
    rw [List.find?_eq_none]
    intro v hv
    simpa using hother v (List.mem_append_left _ hv)
  rw [Store.entry, hwb, List.find?_append, hpre, List.find?_cons_of_pos (by simpa using hid)]
  rfl

/-- `update` replaces the one workbook registered under the id. -/
theorem Unique.update_split (h : Unique s) {w : Workbook} {id : String} (hentry : s.entry id = some w)
    (f : Workbook → Workbook) :
    ∃ pre post, s.workbooks = pre ++ w :: post ∧ s.update id f = pre ++ f w :: post := by
  obtain ⟨hw, hid⟩ := entry_spec hentry
  obtain ⟨pre, post, hwb⟩ := List.append_of_mem hw
  have hother := h.other hwb hid
  have hsame : ∀ l : List Workbook, (∀ v ∈ l, v.id ≠ some id) →
      l.map (fun v => if v.id = some id then f v else v) = l := by
    intro l hl
    exact (List.map_congr_left fun v hv => if_neg (hl v hv)).trans (List.map_id l)
  refine ⟨pre, post, hwb, ?_⟩
  rw [update, hwb, List.map_append, List.map_cons, if_pos hid,
    hsame pre fun v hv => hother v (List.mem_append_left _ hv),
    hsame post fun v hv => hother v (List.mem_append_right _ hv)]

/-! ## A call is a run -/

theorem filterMap_entries (s : Store) : s.entries.filterMap (·.id) = s.workbooks.filterMap (·.id) := by
  unfold entries
  rw [List.filterMap_filter]
  apply List.filterMap_congr
  intro w _
  cases w.id <;> rfl

/-- The sweep of the workbooks still to be looked at. -/
theorem runs_sweepEntries {now : Nat} {goal : Goal} (post : List Workbook) :
    ∀ (pre : List Workbook) (freed : Nat) (es : List Effect), freed < 2 ^ 64 →
      Runs limits es
        { s with workbooks := pre ++ post, writer := some (.sweeping now (post.filterMap (·.id)) freed goal) } →
      ∃ es', Runs limits es'
        { s with workbooks := pre ++ post.map fun w => if w.id.isSome then w.sweep limits.idleTtl now else w,
                 writer := some (.sweeping now []
                   ((freed + ((post.filter (·.id.isSome)).map (·.freed limits.idleTtl now)).sum) % 2 ^ 64) goal) } := by
  induction post with
  | nil =>
    intro pre freed es hfreed h
    refine ⟨es, ?_⟩
    simp only [List.filter_nil, List.map_nil, List.sum_nil, Nat.add_zero, Nat.mod_eq_of_lt hfreed]
    exact h
  | cons w post ih =>
    intro pre freed es hfreed h
    cases hid : w.id with
    | none =>
      -- a closed workbook is not in the registry, so the sweep passes it by
      rw [List.filterMap_cons_none hid, List.append_cons] at h
      obtain ⟨es', h'⟩ := ih _ _ _ hfreed h
      refine ⟨es', ?_⟩
      simpa [hid] using h'
    | some id =>
      rw [List.filterMap_cons_some hid] at h
      have hstep : Runs limits (es ++ [.quiet])
          { s with workbooks := (pre ++ [w.sweep limits.idleTtl now]) ++ post,
                   writer := some (.sweeping now (post.filterMap (·.id))
                     ((freed + w.freed limits.idleTtl now) % 2 ^ 64) goal) } := by
        rw [← List.append_cons]
        exact h.step (.sweepEntry rfl rfl hid)
      obtain ⟨es', h'⟩ := ih _ _ _ (Nat.mod_lt _ (by decide)) hstep
      refine ⟨es', ?_⟩
      simpa [hid, Nat.add_assoc] using h'

/-- A thread takes the write lock and sweeps. -/
theorem runs_sweep (h : Runs limits es s) (hw : s.writer = none) (goal : Goal) :
    ∃ es', Runs limits es' { s.sweep limits with writer := some (.swept goal) } := by
  have hlock := h.step (.lock goal hw (.refl _))
  unfold sweep
  split at hlock
  · rename_i httl
    rw [if_pos httl]
    exact ⟨_, hlock⟩
  · rename_i httl
    rw [if_neg httl]
    obtain ⟨es', hswept⟩ := runs_sweepEntries s.workbooks [] 0 _ (by decide) (by simpa [filterMap_entries] using hlock)
    have hdone := hswept.step (.sweepDone rfl rfl)
    exact ⟨_, by simpa [entries] using hdone⟩

/-- The write lock is released. -/
theorem with_writer_none (hw : s.writer = none) : { s with writer := none } = s := by
  cases s
  cases hw
  rfl

theorem runs_evictIdle (h : Runs limits es s) (hw : s.writer = none) : ∃ es', Runs limits es' (s.evictIdle limits).2 := by
  obtain ⟨es', hswept⟩ := runs_sweep h hw .evictIdle
  have hdone := hswept.step (.unlock rfl nofun)
  exact ⟨_, with_writer_none (s := s.sweep limits) ((sweep_writer limits s).trans hw) ▸ hdone⟩

theorem runs_admits (h : Runs limits es s) (hw : s.writer = none) (bytes : Nat) :
    ∃ es', Runs limits es' (s.admits limits bytes).2 := by
  unfold admits
  split
  · exact ⟨es, h⟩
  · obtain ⟨es', hswept⟩ := runs_sweep h hw (.admits bytes)
    have hdone := hswept.step (.unlock rfl nofun)
    exact ⟨_, with_writer_none (s := s.sweep limits) ((sweep_writer limits s).trans hw) ▸ hdone⟩

theorem runs_reserve (h : Runs limits es s) (hw : s.writer = none) (size : Footprint) :
    ∃ es', Runs limits es' (s.reserve limits size).2 := by
  obtain ⟨es', hswept⟩ := runs_sweep h hw (.reserve size)
  have hfree : (s.sweep limits).writer = none := (sweep_writer limits s).trans hw
  unfold reserve
  generalize s.sweep limits = swept at hswept hfree ⊢
  simp only []
  split
  · rename_i e hfits
    have hdone := hswept.step (.unlock rfl fun _ hgoal => by cases hgoal; exact ⟨e, hfits⟩)
    exact ⟨_, with_writer_none hfree ▸ hdone⟩
  · rename_i hfits
    have htaking := hswept.step (.fits rfl hfits)
    split
    · rename_i held htake
      have hheld := Budget.take_error htake
      have hdone := htaking.step (.outrun rfl ⟨hheld ▸ htake, rfl⟩)
      exact ⟨_, with_writer_none hfree ▸ hdone⟩
    · rename_i budget htake
      have hdone := htaking.step (.reserve rfl htake)
      exact ⟨_, by simpa [hfree] using hdone⟩

theorem runs_register (h : Runs limits es s) (hw : s.writer = none) {i : Nat} {id : String}
    (hfresh : s.entry id = none) (hs : s.register i id = some s') : ∃ es', Runs limits es' s' := by
  obtain ⟨size, hi, rfl⟩ := Option.map_eq_some_iff.1 hs
  obtain ⟨hres, herase, -⟩ := split_getElem? hi
  rw [herase]
  exact ⟨_, h.step (.register id hw hres (entry_none hfresh) (Nat.le_refl _))⟩

theorem runs_abandon (h : Runs limits es s) (hw : s.writer = none) {i : Nat} (hs : s.abandon i = some s') :
    ∃ es', Runs limits es' s' := by
  obtain ⟨size, hi, rfl⟩ := Option.map_eq_some_iff.1 hs
  obtain ⟨hres, herase, -⟩ := split_getElem? hi
  rw [herase]
  have hdone := (h.step (.abandon hw hres)).step (.give rfl rfl)
  exact ⟨_, by simpa [hw] using hdone⟩

theorem runs_get (h : Runs limits es s) (hw : s.writer = none) {id : String} (hs : s.get id = some s') :
    ∃ es', Runs limits es' s' := by
  obtain ⟨w, hentry, rfl⟩ := Option.map_eq_some_iff.1 hs
  obtain ⟨pre, post, hwb, hupdate⟩ := (runs_unique h).update_split hentry
    fun w => { w with holders := w.holders + 1, lastUsed := s.now }
  rw [hupdate]
  have hgot := h.step (.get id hw hwb (entry_spec hentry).2)
  have hused := hgot.step (.touch rfl (Nat.succ_pos _) (Nat.le_refl _))
  exact ⟨_, hused⟩

theorem runs_close_call (h : Runs limits es s) (hw : s.writer = none) (id : String) :
    ∃ es', Runs limits es' (s.close id).2 := by
  unfold close
  split
  · exact ⟨es, h⟩
  · rename_i w hentry
    obtain ⟨pre, post, hwb, hupdate⟩ := (runs_unique h).update_split hentry fun w => { w with id := none }
    rw [hupdate]
    exact runs_close h hw pre post hwb id (entry_spec hentry).2

/-- An RPC ends with no call of `reader` still running on its borrow. -/
theorem runs_release (h : Runs limits es s) {w : Workbook} (hwb : s.workbooks = pre ++ w :: post)
    (hbusy : w.busy = true) (hreleasable : w.releasable = true) :
    ∃ es', Runs limits es' { s with workbooks := pre ++ { w with holders := w.holders - 1 } :: post } :=
  ⟨_, h.step (.reader hwb (.release (by simpa [Workbook.busy] using hbusy) (Workbook.releasable_iff.1 hreleasable)) rfl)⟩

theorem runs_reader (h : Runs limits es s) {i : Nat} {turn : Turn} {w w' : Workbook} {budget : Budget}
    (hi : s.workbooks[i]? = some w) (hturn : w.turn s.budget turn = some (w', budget)) :
    ∃ es', Runs limits es' { s with budget := budget, workbooks := s.workbooks.set i w' } := by
  obtain ⟨hwb, -, hset⟩ := split_getElem? hi
  obtain ⟨e, hstep, hon⟩ := Workbook.turn_step hturn
  rw [hset]
  exact ⟨_, h.step (.reader hwb hstep hon)⟩

theorem runs_vanish (h : Runs limits es s) {i : Nat} {w : Workbook} (hi : s.workbooks[i]? = some w) (hid : w.id = none)
    (hholders : w.holders = 0) (hhands : w.hands = []) :
    ∃ es', Runs limits es' { s with workbooks := s.workbooks.eraseIdx i, dying := s.dying ++ w.pool.free } := by
  obtain ⟨hwb, herase, -⟩ := split_getElem? hi
  rw [herase]
  exact ⟨_, h.step (.vanish hwb hid hholders hhands)⟩

theorem runs_die (h : Runs limits es s) {i : Nat} {reader : ParkedReader} (hi : s.dying[i]? = some reader) :
    ∃ es', Runs limits es' { s with dying := s.dying.eraseIdx i, budget := match reader.2 with
      | some charge => s.budget.give charge.bytes
      | none => s.budget } := by
  obtain ⟨hdying, herase, -⟩ := split_getElem? hi
  rw [herase]
  obtain ⟨reader, charge⟩ := reader
  cases charge with
  | some charge => exact ⟨_, h.step (.die (.gave charge.bytes) hdying rfl rfl)⟩
  | none => exact ⟨_, h.step (.die .quiet hdying rfl rfl)⟩

/-- Nobody holds the registry's write lock, as between calls. -/
def AtRest (s : Store) : Prop := s.writer = none

theorem AtRest.sweep (h : AtRest s) : AtRest (s.sweep limits) := (sweep_writer limits s).trans h

/-- No call keeps the lock. -/
theorem AtRest.perform (h : AtRest s) {call : Call} (hs : s.perform limits call = some s') : AtRest s' := by
  cases perform_cases hs with
  | evictIdle => exact h.sweep
  | swept _ => exact h.sweep
  | refused _ => exact h.sweep
  | reserve _ => exact h.sweep
  | _ => exact h

/-- No call sets the clock. -/
theorem perform_now {call : Call} (hs : s.perform limits call = some s') : s'.now = s.now := by
  cases perform_cases hs with
  | evictIdle => exact sweep_now limits s
  | swept _ => exact sweep_now limits s
  | refused _ => exact sweep_now limits s
  | reserve _ => exact sweep_now limits s
  | _ => rfl

/-- A call is a run of one thread's critical sections, and leaves no lock
held. -/
theorem runs_perform (h : Runs limits es s) (hrest : AtRest s) {call : Call} (hs : s.perform limits call = some s') :
    (∃ es', Runs limits es' s') ∧ AtRest s' := by
  refine ⟨?_, hrest.perform hs⟩
  cases call with
  | evictIdle =>
    cases hs
    exact runs_evictIdle h hrest
  | admits bytes =>
    cases hs
    exact runs_admits h hrest bytes
  | reserve size =>
    cases hs
    exact runs_reserve h hrest size
  | register i id =>
    simp only [perform] at hs
    split at hs
    · cases hs
    · rename_i hfresh
      exact runs_register h hrest (by simpa using hfresh) hs
  | abandon i => exact runs_abandon h hrest hs
  | get id =>
    cases hs
    cases hget : s.get id with
    | none => exact ⟨es, h⟩
    | some s' => exact runs_get h hrest hget
  | close id =>
    cases hs
    exact runs_close_call h hrest id
  | finish id =>
    cases perform_cases hs with
    | finish hentry hbusy hreleasable =>
      obtain ⟨pre, post, hwb, hupdate⟩ := (runs_unique h).update_split hentry
        fun w => { w with holders := w.holders - 1 }
      rw [hupdate]
      exact runs_release h hwb hbusy hreleasable
  | finishClosed i =>
    cases perform_cases hs with
    | finishClosed hi _ hbusy hreleasable =>
      obtain ⟨hwb, -, hset⟩ := split_getElem? hi
      rw [hset]
      exact runs_release h hwb hbusy hreleasable
  | reader i turn =>
    cases perform_cases hs with
    | reader hi hturn => exact runs_reader h hi hturn
  | vanish i =>
    cases perform_cases hs with
    | vanish hi hid hholders hhands => exact runs_vanish h hi hid hholders hhands
  | die i =>
    cases perform_cases hs with
    | die hi => exact runs_die h hi

end Store

end GrpcCalamine
