import GrpcCalamine.Store.Calls
import Mathlib.Data.List.Chain
/-!
# Idle eviction over a run of calls

`last_used` is written by `get`, by `open`, and by a sweep that finds the
workbook busy, but not when an RPC ends. Since a workbook that is held was used
no earlier than the last sweep (`Trace.busy`), what the end of an RPC leaves in
`last_used` is late by one sweep period at most (`Trace.ended`).
-/

namespace GrpcCalamine

namespace Store

variable {limits : StoreLimits} {s s' : Store}

/-! ## Calls in time -/

/-- A call, and the store as it found it. -/
structure Event where
  call : Call
  before : Store

namespace Event

def time (e : Event) : Nat := e.before.now

/-- Whether the call closes idle workbooks: `admits` does where its first check
fails. -/
def sweeps (limits : StoreLimits) (e : Event) : Bool :=
  match e.call with
  | .evictIdle | .reserve _ => true
  | .admits bytes =>
    match e.before.fitsBeside limits bytes with
    | .ok () => false
    | .error _ => true
  | _ => false

/-- The workbook under `id` is opened, or looked up. -/
def uses (id : String) (e : Event) : Prop := e.call = .get id ∨ ∃ i, e.call = .register i id

/-- A sweep finds an RPC holding the workbook under `id`. -/
def foundBusy (limits : StoreLimits) (id : String) (e : Event) : Prop :=
  e.sweeps limits = true ∧ ∃ w ∈ e.before.workbooks, w.id = some id ∧ w.busy = true

end Event

/-- A call is made once its time has come. -/
def Occurs (limits : StoreLimits) (s : Store) (e : Event) (s' : Store) : Prop :=
  s.now ≤ e.time ∧ e.before = { s with now := e.time } ∧ e.before.perform limits e.call = some s'

/-- A run of calls, from the creation of the store. -/
abbrev CallRuns (limits : StoreLimits) (es : List Event) (s : Store) : Prop :=
  Transition.Run (Occurs limits) (withLimits limits) es s

/-- When the sweeps were. -/
def sweepTimes (limits : StoreLimits) (es : List Event) : List Nat := (es.filter (·.sweeps limits)).map Event.time

/-- The last sweep, or the start of the run. -/
def lastSweep (limits : StoreLimits) (es : List Event) : Nat := (sweepTimes limits es).getLastD 0

/-- Sweeps are at most `p` apart, counting from the start of the run. -/
def Paced (limits : StoreLimits) (p : Nat) (es : List Event) : Prop :=
  (0 :: sweepTimes limits es).IsChain fun last next => next ≤ last + p

instance (limits : StoreLimits) (p : Nat) (es : List Event) : Decidable (Paced limits p es) :=
  inferInstanceAs (Decidable ((0 :: sweepTimes limits es).IsChain fun last next => next ≤ last + p))

section Times

variable {es : List Event} {e : Event}

theorem lastSweep_snoc (h : e.sweeps limits = false) : lastSweep limits (es ++ [e]) = lastSweep limits es := by
  simp [lastSweep, sweepTimes, h]

theorem lastSweep_le {t : Nat} (h : ∀ x ∈ es, x.time ≤ t) : lastSweep limits es ≤ t := by
  unfold lastSweep
  rw [List.getLastD_eq_getLast?]
  cases hlast : (sweepTimes limits es).getLast? with
  | none => exact Nat.zero_le _
  | some t' =>
    obtain ⟨x, hx, rfl⟩ := List.mem_map.1 (List.mem_of_getLast? hlast)
    exact h x (List.mem_of_mem_filter hx)

theorem Paced.init {p : Nat} (h : Paced limits p (es ++ [e])) : Paced limits p es := by
  unfold Paced sweepTimes at *
  rw [List.filter_append, List.map_append, ← List.cons_append] at h
  exact (List.isChain_append.1 h).1

/-- The next sweep is soon after the last. -/
theorem Paced.soon {p : Nat} (h : Paced limits p (es ++ [e])) (hsweep : e.sweeps limits = true) :
    e.time ≤ lastSweep limits es + p := by
  unfold Paced sweepTimes at h
  rw [List.filter_append, List.map_append, ← List.cons_append] at h
  refine (List.isChain_append.1 h).2.2 _ ?_ _ ?_
  · rw [List.getLast?_cons, lastSweep, sweepTimes, List.getLastD_eq_getLast?]
    rfl
  · simp [hsweep]

end Times

/-! ## What a call makes of a workbook -/

theorem sweep_mem (httl : limits.idleTtl ≠ 0) {v : Workbook} {id : String} (hv : v ∈ (s.sweep limits).workbooks)
    (hid : v.id = some id) :
    (∃ w ∈ s.workbooks, w.id = some id ∧ w.busy = true ∧ v = { w with lastUsed := s.now }) ∨
      v ∈ s.workbooks ∧ v.busy = false ∧ s.now - v.lastUsed < limits.idleTtl := by
  rw [sweep, if_neg httl] at hv
  obtain ⟨w, hw, rfl⟩ := List.mem_map.1 hv
  by_cases hsome : w.id.isSome = true
  · rw [if_pos hsome] at hid ⊢
    rcases Workbook.sweep_cases limits.idleTtl s.now hsome with
      ⟨hbusy, hsweep, -⟩ | ⟨hbusy, hused, hsweep, -⟩ | ⟨-, -, hsweep, -⟩
    · rw [hsweep] at hid ⊢
      exact .inl ⟨w, hw, hid, hbusy, rfl⟩
    · rw [hsweep]
      exact .inr ⟨hw, hbusy, hused⟩
    · rw [hsweep] at hid
      cases hid
  · rw [if_neg hsome] at hid
    rw [hid] at hsome
    exact absurd rfl hsome

/-- A sweep keeps a workbook that is in use. -/
theorem mem_sweep_of_busy {w : Workbook} {id : String} (hw : w ∈ s.workbooks) (hid : w.id = some id)
    (hbusy : w.busy = true) : ∃ v ∈ (s.sweep limits).workbooks, v.id = some id := by
  unfold sweep
  split
  · exact ⟨w, hw, hid⟩
  · refine ⟨_, List.mem_map_of_mem hw, ?_⟩
    rw [if_pos (by rw [hid]; rfl), Workbook.sweep, if_pos hbusy]
    exact hid

/-- A sweep keeps a workbook that was used just inside the TTL. -/
theorem mem_sweep_of_used {w : Workbook} {id : String} (hw : w ∈ s.workbooks) (hid : w.id = some id)
    (hused : s.now - w.lastUsed < limits.idleTtl) : ∃ v ∈ (s.sweep limits).workbooks, v.id = some id := by
  by_cases hbusy : w.busy = true
  · exact mem_sweep_of_busy hw hid hbusy
  unfold sweep
  split
  · exact ⟨w, hw, hid⟩
  · refine ⟨_, List.mem_map_of_mem hw, ?_⟩
    rw [if_pos (by rw [hid]; rfl), Workbook.sweep, if_neg hbusy, if_pos hused]
    exact hid

theorem mem_update {v : Workbook} {id : String} {f : Workbook → Workbook} (hv : v ∈ s.update id f) :
    ∃ w ∈ s.workbooks, (w.id = some id ∧ v = f w) ∨ (w.id ≠ some id ∧ v = w) := by
  obtain ⟨w, hw, rfl⟩ := List.mem_map.1 hv
  refine ⟨w, hw, ?_⟩
  by_cases hid : w.id = some id
  · exact .inl ⟨hid, if_pos hid⟩
  · exact .inr ⟨hid, if_neg hid⟩

/-- Where the workbook `v`, registered under `id` after a call, comes from. -/
inductive Origin (limits : StoreLimits) (e : Event) (id : String) (v : Workbook) : Prop where
  | opened (i : Nat) : e.call = .register i id → v.lastUsed = e.time → Origin limits e id v
  | used (w : Workbook) : w ∈ e.before.workbooks → w.id = some id → e.call = .get id → v.lastUsed = e.time →
      Origin limits e id v
  | foundBusy (w : Workbook) : w ∈ e.before.workbooks → w.id = some id → e.foundBusy limits id →
      v.lastUsed = e.time → Origin limits e id v
  | kept (w : Workbook) : w ∈ e.before.workbooks → w.id = some id → v.lastUsed = w.lastUsed →
      (v.busy = true → w.busy = true) → (e.sweeps limits = true → w.busy = false) → ¬e.uses id →
      (e.call = .finish id → w.busy = true) → Origin limits e id v

theorem sweeps_perform {e : Event} (hsweep : e.sweeps limits = true) (hs : e.before.perform limits e.call = some s') :
    s'.workbooks = (e.before.sweep limits).workbooks := by
  obtain ⟨call, before⟩ := e
  cases call with
  | evictIdle =>
    cases hs
    rfl
  | admits bytes =>
    cases hs
    cases hfits : before.fitsBeside limits bytes with
    | ok u => exact absurd hsweep (by simp [Event.sweeps, hfits])
    | error refused => simp only [admits, hfits]
  | reserve size =>
    cases hs
    simp only [reserve]
    split
    · rfl
    split <;> rfl
  | register i id => cases hsweep
  | abandon i => cases hsweep
  | get id => cases hsweep
  | close id => cases hsweep
  | finish id => cases hsweep
  | finishClosed i => cases hsweep
  | reader i turn => cases hsweep
  | vanish i => cases hsweep
  | die i => cases hsweep

/-- A workbook that a call leaves as it is. -/
theorem Origin.same {e : Event} {id : String} {v : Workbook} (hv : v ∈ e.before.workbooks) (hid : v.id = some id)
    (hsweep : e.sweeps limits = false) (huses : ¬e.uses id) (hfinish : e.call ≠ .finish id) : Origin limits e id v :=
  .kept v hv hid rfl (fun h => h) (fun h => absurd (hsweep ▸ h) Bool.false_ne_true) huses fun h => absurd h hfinish

theorem perform_origin (httl : limits.idleTtl ≠ 0) {e : Event} (hunique : Unique e.before)
    (hs : e.before.perform limits e.call = some s') {v : Workbook} {id : String} (hv : v ∈ s'.workbooks)
    (hid : v.id = some id) : Origin limits e id v := by
  by_cases hsweep : e.sweeps limits = true
  · rw [sweeps_perform hsweep hs] at hv
    have huses : ¬e.uses id := by
      rintro (hget | ⟨i, hregister⟩)
      · simp [Event.sweeps, hget] at hsweep
      · simp [Event.sweeps, hregister] at hsweep
    rcases sweep_mem httl hv hid with ⟨w, hw, hwid, hbusy, rfl⟩ | ⟨hw, hbusy, -⟩
    · exact .foundBusy w hw hwid ⟨hsweep, w, hw, hwid, hbusy⟩ rfl
    · refine .kept v hw hid rfl (fun h => h) (fun _ => hbusy) huses ?_
      intro hfinish
      simp [Event.sweeps, hfinish] at hsweep
  · replace hsweep := eq_false_of_ne_true hsweep
    obtain ⟨call, before⟩ := e
    cases perform_cases hs with
    | evictIdle => cases hsweep
    | refused _ => cases hsweep
    | reserve _ => cases hsweep
    | swept hrefused => simp [Event.sweeps, hrefused] at hsweep
    | fits _ => exact .same hv hid hsweep (by simp [Event.uses]) (by simp)
    | @register i id' size hfresh _ =>
      rcases List.mem_append.1 hv with hold | hnew
      · refine .same hold hid hsweep ?_ (by simp)
        rintro (hget | ⟨j, hregister⟩)
        · cases hget
        · cases hregister
          exact entry_none hfresh v hold hid
      · obtain rfl := List.mem_singleton.1 hnew
        cases hid
        exact .opened i rfl rfl
    | abandon _ => exact .same hv hid hsweep (by simp [Event.uses]) (by simp)
    | @missed id' hentry =>
      refine .same hv hid hsweep ?_ (by simp)
      rintro (hcall | ⟨j, hcall⟩)
      · cases hcall
        exact entry_none hentry v hv hid
      · cases hcall
    | @get id' w₀ _ =>
      obtain ⟨w, hw, ⟨hwid, rfl⟩ | ⟨hwid, rfl⟩⟩ := mem_update hv
      · cases hwid.symm.trans hid
        exact .used w hw hwid rfl rfl
      · refine .same hw hid hsweep ?_ (by simp)
        rintro (hcall | ⟨j, hcall⟩)
        · cases hcall
          exact hwid hid
        · cases hcall
    | absent _ => exact .same hv hid hsweep (by simp [Event.uses]) (by simp)
    | close _ =>
      obtain ⟨w, hw, ⟨-, rfl⟩ | ⟨-, rfl⟩⟩ := mem_update hv
      · cases hid
      · exact .same hw hid hsweep (by simp [Event.uses]) (by simp)
    | @finish id' w₀ hentry hbusy _ =>
      obtain ⟨w, hw, ⟨hwid, rfl⟩ | ⟨hwid, rfl⟩⟩ := mem_update hv
      · -- it is the workbook whose RPC ends
        have hheld : w.busy = true := by
          rw [hunique.entry hw hwid] at hentry
          cases hentry
          exact hbusy
        exact .kept w hw hid rfl (fun _ => hheld) (fun h => absurd (hsweep ▸ h) Bool.false_ne_true)
          (by simp [Event.uses]) fun _ => hheld
      · refine .same hw hid hsweep (by simp [Event.uses]) ?_
        intro hcall
        cases hcall
        exact hwid hid
    | @finishClosed i w₀ _ hclosed _ _ =>
      rcases List.mem_or_eq_of_mem_set hv with hv | rfl
      · exact .same hv hid hsweep (by simp [Event.uses]) (by simp)
      · rw [hclosed] at hid
        cases hid
    | @reader i turn w w' budget hi hturn =>
      rcases List.mem_or_eq_of_mem_set hv with hv | rfl
      · exact .same hv hid hsweep (by simp [Event.uses]) (by simp)
      · -- a reader's turn is no use of the workbook
        obtain ⟨hsame, -, hlast, hholders⟩ := Workbook.turn_frame hturn
        refine .kept w (List.mem_of_getElem? hi) (hsame ▸ hid) hlast ?_
          (fun h => absurd (hsweep ▸ h) Bool.false_ne_true) (by simp [Event.uses]) (by simp)
        rw [Workbook.busy, Workbook.busy, hholders]
        exact fun h => h
    | vanish _ _ _ _ =>
      exact .same (List.mem_of_mem_eraseIdx hv) hid hsweep (by simp [Event.uses]) (by simp)
    | die _ => exact .same hv hid hsweep (by simp [Event.uses]) (by simp)

/-! ## What a run says of a workbook -/

/-- A workbook registered under `id` after the calls `es`. -/
structure Trace (limits : StoreLimits) (p : Nat) (es : List Event) (id : String) (w : Workbook) : Prop where
  used : ∀ x ∈ es, x.uses id → x.time ≤ w.lastUsed
  busy : w.busy = true → lastSweep limits es ≤ w.lastUsed
  /-- An RPC that ended before the last sweep was seen by the sweep before it,
  or began after that. -/
  ended : ∀ x ∈ es, x.call = .finish id → x.time ≤ w.lastUsed + p ∨ lastSweep limits es ≤ w.lastUsed
  source : ∃ x ∈ es, x.time = w.lastUsed ∧ (x.uses id ∨ x.foundBusy limits id)

/-- A workbook used at the time of the last call. -/
theorem Trace.fresh {p : Nat} {es : List Event} {e : Event} {id : String} {v : Workbook}
    (hpast : ∀ x ∈ es, x.time ≤ e.time) (hlast : v.lastUsed = e.time)
    (hsource : e.uses id ∨ e.foundBusy limits id) : Trace limits p (es ++ [e]) id v := by
  have hall : ∀ x ∈ es ++ [e], x.time ≤ v.lastUsed := by
    intro x hx
    rw [hlast]
    rcases List.mem_append.1 hx with hx | hx
    · exact hpast x hx
    · rw [List.mem_singleton.1 hx]
  have hsweep : lastSweep limits (es ++ [e]) ≤ v.lastUsed := lastSweep_le hall
  exact ⟨fun x hx _ => hall x hx, fun _ => hsweep, fun x hx _ => .inr hsweep, e, by simp, hlast.symm, hsource⟩

/-- A workbook that the last call did not use. -/
theorem Trace.keep {p : Nat} {es : List Event} {e : Event} {id : String} {v w : Workbook} (h : Trace limits p es id w)
    (hpaced : Paced limits p (es ++ [e])) (hpast : ∀ x ∈ es, x.time ≤ e.time) (hlast : v.lastUsed = w.lastUsed)
    (hbusy : v.busy = true → w.busy = true) (hsweep : e.sweeps limits = true → w.busy = false) (huses : ¬e.uses id)
    (hfinish : e.call = .finish id → w.busy = true) : Trace limits p (es ++ [e]) id v := by
  -- a workbook that is held was not swept by the last call
  have hheld : w.busy = true → lastSweep limits (es ++ [e]) ≤ w.lastUsed := by
    intro hb
    rw [lastSweep_snoc]
    · exact h.busy hb
    · cases hs : e.sweeps limits with
      | false => rfl
      | true => rw [hsweep hs] at hb; cases hb
  refine ⟨?_, ?_, ?_, ?_⟩
  · intro x hx hu
    rw [hlast]
    rcases List.mem_append.1 hx with hx | hx
    · exact h.used x hx hu
    · rw [List.mem_singleton.1 hx] at hu
      exact absurd hu huses
  · intro hb
    rw [hlast]
    exact hheld (hbusy hb)
  · intro x hx hf
    rw [hlast]
    rcases List.mem_append.1 hx with hx | hx
    · rcases h.ended x hx hf with hle | hle
      · exact .inl hle
      · cases hs : e.sweeps limits with
        | false =>
          rw [lastSweep_snoc hs]
          exact .inr hle
        | true =>
          -- the RPC ended between the last two sweeps
          have hsoon := hpaced.soon hs
          have hx := hpast x hx
          exact .inl (by omega)
    · rw [List.mem_singleton.1 hx] at hf
      exact .inr (hheld (hfinish hf))
  · obtain ⟨x, hx, hsource⟩ := h.source
    rw [hlast]
    exact ⟨x, List.mem_append_left _ hx, hsource⟩

/-- What a run says of the store it comes to. -/
structure Traced (limits : StoreLimits) (p : Nat) (es : List Event) (s : Store) : Prop where
  runs : ∃ effects, Runs limits effects s
  rest : AtRest s
  past : ∀ x ∈ es, x.time ≤ s.now
  trace : ∀ w ∈ s.workbooks, ∀ id, w.id = some id → Trace limits p es id w

theorem traced_start (limits : StoreLimits) (p : Nat) : Traced limits p [] (withLimits limits) :=
  ⟨⟨[], .start⟩, rfl, nofun, nofun⟩

/-- The state a call finds is reached, too, by its time. -/
theorem Occurs.runs {e : Event} {effects : List Effect} (hstep : Occurs limits s e s') (h : Runs limits effects s) :
    Runs limits (effects ++ [.quiet]) e.before := by
  rw [hstep.2.1]
  exact h.step (.tick hstep.1)

theorem Occurs.workbooks {e : Event} (hstep : Occurs limits s e s') : e.before.workbooks = s.workbooks := by
  rw [hstep.2.1]

theorem traced_step (httl : limits.idleTtl ≠ 0) {p : Nat} {es : List Event} {e : Event} (h : Traced limits p es s)
    (hpaced : Paced limits p (es ++ [e])) (hstep : Occurs limits s e s') : Traced limits p (es ++ [e]) s' := by
  obtain ⟨effects, hruns⟩ := h.runs
  have hbefore := hstep.runs hruns
  have hrest : AtRest e.before := by
    rw [hstep.2.1]
    exact h.rest
  obtain ⟨hafter, hrest'⟩ := runs_perform hbefore hrest hstep.2.2
  have hpast : ∀ x ∈ es, x.time ≤ e.time := fun x hx => (h.past x hx).trans hstep.1
  refine ⟨hafter, hrest', ?_, ?_⟩
  · rw [perform_now hstep.2.2]
    intro x hx
    rcases List.mem_append.1 hx with hx | hx
    · exact hpast x hx
    · rw [List.mem_singleton.1 hx]
      exact Nat.le_refl _
  · intro v hv id hid
    cases perform_origin httl (runs_unique hbefore) hstep.2.2 hv hid with
    | opened i hcall hlast => exact .fresh hpast hlast (.inl (.inr ⟨i, hcall⟩))
    | used w _ _ hcall hlast => exact .fresh hpast hlast (.inl (.inl hcall))
    | foundBusy w _ _ hfound hlast => exact .fresh hpast hlast (.inr hfound)
    | kept w hw hwid hlast hbusy hsweep huses hfinish =>
      have hw' : w ∈ s.workbooks := hstep.workbooks ▸ hw
      exact (h.trace w hw' id hwid).keep hpaced hpast hlast hbusy hsweep huses hfinish

theorem runs_traced (httl : limits.idleTtl ≠ 0) {p : Nat} {es : List Event} (h : CallRuns limits es s)
    (hpaced : Paced limits p es) : Traced limits p es s := by
  induction h with
  | start => exact traced_start limits p
  | step _ hstep ih => exact traced_step httl (ih hpaced.init) hpaced hstep

/-! ## After the removal -/

theorem entry_none_step (httl : limits.idleTtl ≠ 0) {e : Event} {id : String} (hunique : Unique e.before)
    (hnone : e.before.entry id = none) (hs : e.before.perform limits e.call = some s')
    (hcall : ∀ i, e.call ≠ .register i id) : s'.entry id = none := by
  rw [entry, List.find?_eq_none]
  intro v hv hid
  have hnone := entry_none hnone
  cases perform_origin httl hunique hs hv (by simpa using hid) with
  | opened i hregister _ => exact hcall i hregister
  | used w hw hwid _ _ => exact hnone w hw hwid
  | foundBusy w hw hwid _ _ => exact hnone w hw hwid
  | kept w hw hwid _ _ _ _ _ => exact hnone w hw hwid

/-- An id that is not registered stays so until a workbook is opened under
it. -/
theorem entry_none_run (httl : limits.idleTtl ≠ 0) {effects : List Effect} {id : String} {es : List Event}
    (hruns : Runs limits effects s) (hrest : AtRest s) (hnone : s.entry id = none)
    (h : Transition.Run (Occurs limits) s es s') (hcalls : ∀ x ∈ es, ∀ i, x.call ≠ .register i id) :
    (∃ effects', Runs limits effects' s') ∧ AtRest s' ∧ s'.entry id = none := by
  induction h with
  | start => exact ⟨⟨effects, hruns⟩, hrest, hnone⟩
  | @step es s₁ e s₂ _ hstep ih =>
    obtain ⟨⟨effects₁, hruns₁⟩, hrest₁, hnone₁⟩ := ih fun x hx => hcalls x (List.mem_append_left _ hx)
    have hbefore := hstep.runs hruns₁
    have hrestb : AtRest e.before := by
      rw [hstep.2.1]
      exact hrest₁
    have hnoneb : e.before.entry id = none := by
      rw [entry, hstep.workbooks]
      exact hnone₁
    obtain ⟨hafter, hrest₂⟩ := runs_perform hbefore hrestb hstep.2.2
    refine ⟨hafter, hrest₂, ?_⟩
    exact entry_none_step httl (runs_unique hbefore) hnoneb hstep.2.2 (hcalls e (by simp))

/-! ## Eviction -/

/-- What a sweep closes was idle for the TTL. -/
theorem idle_of_closed (httl : limits.idleTtl ≠ 0) {w : Workbook} {id : String} (hw : w ∈ s.workbooks)
    (hid : w.id = some id) (hclosed : ∀ v ∈ (s.sweep limits).workbooks, v.id ≠ some id) :
    w.lastUsed + limits.idleTtl ≤ s.now := by
  by_contra hused
  obtain ⟨v, hv, hvid⟩ := mem_sweep_of_used hw hid (by omega : s.now - w.lastUsed < limits.idleTtl)
  exact hclosed v hv hvid

/-- The workbook under an id that is idle for the TTL is closed. -/
theorem closed_of_idle (httl : limits.idleTtl ≠ 0) (hunique : Unique s) {w : Workbook} {id : String}
    (hw : w ∈ s.workbooks) (hid : w.id = some id) (hbusy : w.busy = false)
    (hidle : w.lastUsed + limits.idleTtl ≤ s.now) : ∀ v ∈ (s.sweep limits).workbooks, v.id ≠ some id := by
  intro v hv hvid
  have hentry := hunique.entry hw hid
  rcases sweep_mem httl hv hvid with ⟨w', hw', hwid, hheld, -⟩ | ⟨hv', -, hused⟩
  · cases hentry.symm.trans (hunique.entry hw' hwid)
    rw [hbusy] at hheld
    cases hheld
  · cases hentry.symm.trans (hunique.entry hv' hvid)
    omega

theorem entry_isSome {v : Workbook} {id : String} (hv : v ∈ s.workbooks) (hid : v.id = some id) :
    (s.entry id).isSome = true := by
  rw [entry, List.find?_isSome]
  exact ⟨v, hv, by simpa using hid⟩

/-- Over every run of calls whose sweeps are at most `p` apart, a sweep keeps a
workbook that an RPC holds; one that it closes was last opened or looked up a
TTL ago at least, the last RPC that held it ended a TTL less `p` ago at least,
and the workbook stays closed; and it closes every workbook nobody holds that
was not opened, looked up or found busy within the TTL. -/
theorem idle_eviction_safe (httl : limits.idleTtl ≠ 0) {p : Nat} (hp : p ≤ limits.idleTtl) {es : List Event}
    {e : Event} (h : CallRuns limits (es ++ [e]) s) (hpaced : Paced limits p (es ++ [e]))
    (hsweep : e.sweeps limits = true) {w : Workbook} {id : String} (hw : w ∈ e.before.workbooks)
    (hid : w.id = some id) :
    (w.busy = true → (s.entry id).isSome = true) ∧
    (s.entry id = none →
      (∀ x ∈ es, x.call = .finish id → x.time + (limits.idleTtl - p) ≤ e.time) ∧
      (∀ x ∈ es, x.uses id → x.time + limits.idleTtl ≤ e.time) ∧
      ∀ es' s', Transition.Run (Occurs limits) s es' s' → (∀ x ∈ es', ∀ i, x.call ≠ .register i id) →
        s'.get id = none ∧ (s'.close id).1 = false) ∧
    (w.busy = false → (∀ x ∈ es, x.uses id ∨ x.foundBusy limits id → x.time + limits.idleTtl ≤ e.time) →
      s.entry id = none) := by
  obtain ⟨s₀, hrun, hstep⟩ := h.last
  have htraced := runs_traced httl hrun hpaced.init
  have htrace := htraced.trace w (hstep.workbooks ▸ hw) id hid
  have hworkbooks := sweeps_perform hsweep hstep.2.2
  have hafter := runs_traced httl h hpaced
  refine ⟨?_, ?_, ?_⟩
  · intro hbusy
    obtain ⟨v, hv, hvid⟩ := mem_sweep_of_busy hw hid hbusy
    exact entry_isSome (hworkbooks ▸ hv) hvid
  · intro hclosed
    have hidle : w.lastUsed + limits.idleTtl ≤ e.time :=
      idle_of_closed httl hw hid (hworkbooks ▸ entry_none hclosed)
    refine ⟨?_, ?_, ?_⟩
    · -- the RPC ended before the sweep that `last_used` follows, or at most `p` after it
      intro x hx hfinish
      have hsoon := hpaced.soon hsweep
      have hx' := (htraced.past x hx).trans hstep.1
      rcases htrace.ended x hx hfinish with hended | hended <;> omega
    · intro x hx huses
      have := htrace.used x hx huses
      omega
    · intro es' s' hrun' hcalls
      obtain ⟨effects, hruns⟩ := hafter.runs
      obtain ⟨-, -, hnone⟩ := entry_none_run httl hruns hafter.rest hclosed hrun' hcalls
      rw [get, close, hnone]
      exact ⟨rfl, rfl⟩
  · -- what `last_used` says was written by one of these calls
    intro hbusy hall
    obtain ⟨effects, hruns⟩ := htraced.runs
    obtain ⟨x, hx, hlast, hsource⟩ := htrace.source
    have hidle : w.lastUsed + limits.idleTtl ≤ e.time := hlast ▸ hall x hx hsource
    have hgone := closed_of_idle httl (runs_unique (hstep.runs hruns)) hw hid hbusy hidle
    rw [entry, List.find?_eq_none]
    intro v hv hvid
    exact hgone v (hworkbooks ▸ hv) (by simpa using hvid)

/-- A workbook opened at 0, whose RPC ends at 3, is closed by the sweep at 10. -/
theorem idle_eviction_safe_closed : ∃ es e s, CallRuns ⟨4, 100, 10⟩ (es ++ [e]) s ∧ s.entry "a" = none ∧
    e.time = 10 ∧ ∀ x ∈ es, x.call = .finish "a" → x.time + (10 - 10) ≤ e.time := by
  have hreserve : CallRuns ⟨4, 100, 10⟩ [⟨.reserve ⟨60, 30⟩, withLimits ⟨4, 100, 10⟩⟩]
      { withLimits ⟨4, 100, 10⟩ with budget := ⟨90, 100⟩, pending := 1, reservations := [⟨60, 30⟩] } :=
    .step .start ⟨Nat.le_refl _, rfl, rfl⟩
  have hregister := hreserve.step (⟨Nat.le_refl _, rfl, rfl⟩ : Occurs ⟨4, 100, 10⟩ _ ⟨.register 0 "a", _⟩
    { withLimits ⟨4, 100, 10⟩ with budget := ⟨90, 100⟩, registered := 1, workbooks := [.ofOpen "a" 0 ⟨60, 30⟩ 0] })
  have hfinish := hregister.step (⟨Nat.zero_le 3, rfl, rfl⟩ : Occurs ⟨4, 100, 10⟩ _
    ⟨.finish "a", { withLimits ⟨4, 100, 10⟩ with
      budget := ⟨90, 100⟩, registered := 1, workbooks := [.ofOpen "a" 0 ⟨60, 30⟩ 0], now := 3 }⟩ _)
  have hevict := hfinish.step (⟨(by decide : 3 ≤ 10), rfl, rfl⟩ : Occurs ⟨4, 100, 10⟩ _
    ⟨.evictIdle, { withLimits ⟨4, 100, 10⟩ with
      budget := ⟨90, 100⟩, registered := 1, workbooks := [{ Workbook.ofOpen "a" 0 ⟨60, 30⟩ 0 with holders := 0 }],
      now := 10 }⟩ _)
  have hsafe := idle_eviction_safe (by decide) (Nat.le_refl 10) hevict (by decide) rfl (List.mem_singleton.2 rfl) rfl
  exact ⟨_, _, _, hevict, rfl, rfl, (hsafe.2.1 rfl).1⟩

end Store

end GrpcCalamine
