import GrpcCalamine.Store.Idle
/-!
# What a handle stands for

Ids are drawn fresh (`Uuid::new_v4`), so over any run of calls an id stands for
one workbook, which is open from its `open` to the one call that closes it and
never before or after (`handle_lifetime`). Where nobody closes it, the reaper
does, and a workbook outlives its TTL by at most one period
(`reaper_in_time`).
-/

namespace GrpcCalamine

namespace Store

variable {limits : StoreLimits} {s s' : Store} {id : String} {who : Identity}

namespace Event

/-- The id the call draws. -/
def drawn (e : Event) : Option String :=
  match e.call with
  | .register _ id => some id
  | _ => none

/-- The call opens a workbook under `id`: the next in number, with the bytes
reserved for it. -/
def opens (id : String) (who : Identity) (e : Event) : Prop :=
  ∃ i, e.call = .register i id ∧ e.before.registered = who.serial ∧ e.before.reservations[i]? = some who.size

/-- The call finds the workbook open under `id`. -/
def finds (id : String) (who : Identity) (e : Event) : Prop := ∃ w, e.before.entry id = some w ∧ w.identity = who

/-- The call finds nothing open under `id`. -/
def misses (id : String) (e : Event) : Prop := e.before.entry id = none

/-- The call sweeps when nobody has had the workbook under `id` for the TTL. -/
def expires (limits : StoreLimits) (id : String) (e : Event) : Prop :=
  e.sweeps limits = true ∧ limits.idleTtl ≠ 0 ∧
    ∃ w, e.before.entry id = some w ∧ w.busy = false ∧ w.lastUsed + limits.idleTtl ≤ e.time

/-- The call closes what is open under `id`. -/
def closes (limits : StoreLimits) (id : String) (e : Event) : Prop := e.call = .close id ∨ e.expires limits id

end Event

/-- What an id has stood for over the calls `es`, which led to `s`: nothing so
far, a workbook that is open, or one that was open and is not any more. -/
inductive Life (limits : StoreLimits) (id : String) : List Event → Store → Prop where
  | unborn {es s} : (∀ x ∈ es, x.misses id) → s.entry id = none → Life limits id es s
  | alive {before opening live who w s} : opening.opens id who → (∀ x ∈ before ++ [opening], x.misses id) →
      (∀ x ∈ live, x.finds id who) → s.entry id = some w → w.identity = who →
      Life limits id (before ++ opening :: live) s
  | ended {before opening live closing dead who s} : opening.opens id who →
      (∀ x ∈ before ++ [opening], x.misses id) → (∀ x ∈ live ++ [closing], x.finds id who) →
      closing.closes limits id → (∀ x ∈ dead, x.misses id) → s.entry id = none →
      Life limits id (before ++ opening :: (live ++ closing :: dead)) s

/-! ## What one call does to an id -/

/-- What a sweep leaves was there, under the same id or none. -/
theorem mem_of_mem_sweep {v : Workbook} (hv : v ∈ (s.sweep limits).workbooks) (hid : v.id = some id) :
    ∃ w ∈ s.workbooks, w.id = some id := by
  unfold sweep at hv
  split at hv
  · exact ⟨v, hv, hid⟩
  obtain ⟨w, hw, rfl⟩ := List.mem_map.1 hv
  refine ⟨w, hw, ?_⟩
  split at hid
  · rcases sweep_id limits.idleTtl s.now w with hsame | hnone
    · rw [← hsame, hid]
    · rw [hnone] at hid
      cases hid
  · exact hid

/-- What a sweep does not close stays as it is. -/
theorem mem_sweep_of_stays {w : Workbook} (hw : w ∈ s.workbooks) (hid : w.id = some id)
    (hstays : limits.idleTtl ≠ 0 → w.busy = true ∨ s.now < w.lastUsed + limits.idleTtl) :
    ∃ v ∈ (s.sweep limits).workbooks, v.id = some id ∧ v.identity = w.identity := by
  unfold sweep
  split
  · exact ⟨w, hw, hid, rfl⟩
  · rename_i httl
    have hsome : w.id.isSome = true := by rw [hid]; rfl
    refine ⟨_, List.mem_map_of_mem hw, ?_⟩
    rw [if_pos hsome]
    rcases Workbook.sweep_cases limits.idleTtl s.now hsome with
      ⟨-, hsweep, -⟩ | ⟨-, -, hsweep, -⟩ | ⟨hbusy, hidle, -, -⟩
    · rw [hsweep]
      exact ⟨hid, rfl⟩
    · rw [hsweep]
      exact ⟨hid, rfl⟩
    · rcases hstays httl with hheld | hused
      · rw [hbusy] at hheld
        cases hheld
      · omega

/-- An id with nothing under it gets a workbook by being drawn, and no other
way. -/
theorem misses_step {e : Event} (hs : e.before.perform limits e.call = some s') (hmiss : e.misses id)
    (hdrawn : e.drawn ≠ some id) : s'.entry id = none := by
  have hnone := entry_none hmiss
  rw [entry, List.find?_eq_none]
  intro v hv hid
  replace hid : v.id = some id := by simpa using hid
  have hswept : v ∈ (e.before.sweep limits).workbooks → False := by
    intro hv
    obtain ⟨w, hw, hwid⟩ := mem_of_mem_sweep hv hid
    exact hnone w hw hwid
  obtain ⟨call, before⟩ := e
  cases perform_cases hs with
  | evictIdle => exact hswept hv
  | swept _ => exact hswept hv
  | refused _ => exact hswept hv
  | reserve _ => exact hswept hv
  | fits _ => exact hnone v hv hid
  | abandon _ => exact hnone v hv hid
  | missed _ => exact hnone v hv hid
  | absent _ => exact hnone v hv hid
  | register _ _ =>
    rcases List.mem_append.1 hv with hv | hv
    · exact hnone v hv hid
    · obtain rfl := List.mem_singleton.1 hv
      exact hdrawn hid
  | get _ =>
    obtain ⟨w, hw, ⟨hwid, rfl⟩ | ⟨-, rfl⟩⟩ := mem_update hv
    · exact hnone w hw hid
    · exact hnone _ hw hid
  | close _ =>
    obtain ⟨w, hw, ⟨-, rfl⟩ | ⟨-, rfl⟩⟩ := mem_update hv
    · cases hid
    · exact hnone _ hw hid
  | finish _ _ _ =>
    obtain ⟨w, hw, ⟨hwid, rfl⟩ | ⟨-, rfl⟩⟩ := mem_update hv
    · exact hnone w hw hid
    · exact hnone _ hw hid
  | @finishClosed i w hi hclosed _ _ =>
    rcases List.mem_or_eq_of_mem_set hv with hv | rfl
    · exact hnone v hv hid
    · rw [hclosed] at hid
      cases hid
  | @reader i turn w w' budget hi hturn =>
    rcases List.mem_or_eq_of_mem_set hv with hv | rfl
    · exact hnone v hv hid
    · exact hnone w (List.mem_of_getElem? hi) ((Workbook.turn_frame hturn).1 ▸ hid)
  | vanish _ _ _ _ => exact hnone v (List.mem_of_mem_eraseIdx hv) hid
  | die _ => exact hnone v hv hid

/-- What is open under an id stays as it was until it is closed. -/
theorem stays_step {e : Event} (hs : e.before.perform limits e.call = some s') {w : Workbook}
    (hentry : e.before.entry id = some w) (hopen : ¬ e.closes limits id) :
    ∃ v ∈ s'.workbooks, v.id = some id ∧ v.identity = w.identity := by
  obtain ⟨hw, hid⟩ := entry_spec hentry
  by_cases hsweep : e.sweeps limits = true
  · rw [sweeps_perform hsweep hs]
    apply mem_sweep_of_stays hw hid
    intro httl
    by_contra hidle
    rw [not_or, Nat.not_lt] at hidle
    exact hopen (.inr ⟨hsweep, httl, w, hentry, eq_false_of_ne_true hidle.1, hidle.2⟩)
  replace hsweep := eq_false_of_ne_true hsweep
  obtain ⟨call, before⟩ := e
  -- the calls that write to one workbook leave the others
  have hupdate : ∀ (id' : String) (f : Workbook → Workbook), (id' = id → (f w).id = some id ∧ (f w).identity = w.identity) →
      ∃ v ∈ before.update id' f, v.id = some id ∧ v.identity = w.identity := by
    intro id' f hf
    refine ⟨_, List.mem_map_of_mem hw, ?_⟩
    split
    · rename_i hid'
      exact hf (Option.some.inj (hid'.symm.trans hid))
    · exact ⟨hid, rfl⟩
  -- and so do those that write to the one at an index
  have hset : ∀ {i : Nat} {w' : Workbook}, before.workbooks[i]? = some w' → ∀ v : Workbook,
      (w' = w → v.id = some id ∧ v.identity = w.identity) →
      ∃ v' ∈ before.workbooks.set i v, v'.id = some id ∧ v'.identity = w.identity := by
    intro i w' hi v hv
    obtain ⟨hwb, -, hset⟩ := split_getElem? hi
    have hmem : w ∈ before.workbooks := hw
    rw [hwb] at hmem
    rw [hset]
    rcases List.mem_append.1 hmem with hmem | hmem
    · exact ⟨w, List.mem_append_left _ hmem, hid, rfl⟩
    · rcases List.mem_cons.1 hmem with rfl | hmem
      · exact ⟨v, by simp, hv rfl⟩
      · exact ⟨w, List.mem_append_right _ (List.mem_cons_of_mem _ hmem), hid, rfl⟩
  cases perform_cases hs with
  | evictIdle => cases hsweep
  | refused _ => cases hsweep
  | reserve _ => cases hsweep
  | swept hrefused => simp [Event.sweeps, hrefused] at hsweep
  | fits _ => exact ⟨w, hw, hid, rfl⟩
  | abandon _ => exact ⟨w, hw, hid, rfl⟩
  | missed _ => exact ⟨w, hw, hid, rfl⟩
  | absent _ => exact ⟨w, hw, hid, rfl⟩
  | register _ _ => exact ⟨w, List.mem_append_left _ hw, hid, rfl⟩
  | get _ => exact hupdate _ _ fun _ => ⟨hid, rfl⟩
  | finish _ _ _ => exact hupdate _ _ fun _ => ⟨hid, rfl⟩
  | @close id' _ _ =>
    apply hupdate
    rintro rfl
    exact absurd (.inl rfl) hopen
  | @finishClosed i w' hi hclosed _ _ =>
    refine hset hi _ fun hsame => ?_
    rw [← hsame, hclosed] at hid
    cases hid
  | @reader i turn w' w'' budget hi hturn =>
    obtain ⟨hkept, hsame, -, -⟩ := Workbook.turn_frame hturn
    refine hset hi _ fun hw => ?_
    subst hw
    exact ⟨hkept.trans hid, hsame⟩
  | @vanish i w' hi hclosed _ _ =>
    refine ⟨w, ?_, hid, rfl⟩
    obtain ⟨hwb, herase, -⟩ := split_getElem? hi
    have hmem : w ∈ before.workbooks := hw
    rw [hwb] at hmem
    rw [herase]
    rcases List.mem_append.1 hmem with hmem | hmem
    · exact List.mem_append_left _ hmem
    · rcases List.mem_cons.1 hmem with rfl | hmem
      · rw [hclosed] at hid
        cases hid
      · exact List.mem_append_right _ hmem
  | die _ => exact ⟨w, hw, hid, rfl⟩

/-- What is open under an id is closed by a call that closes it. -/
theorem closes_step {e : Event} (hunique : Unique e.before) (hs : e.before.perform limits e.call = some s')
    (hcloses : e.closes limits id) : s'.entry id = none := by
  rw [entry, List.find?_eq_none]
  intro v hv hid
  replace hid : v.id = some id := by simpa using hid
  rcases hcloses with hcall | ⟨hsweep, httl, w, hentry, hbusy, hidle⟩
  · obtain ⟨call, before⟩ := e
    obtain rfl := hcall
    cases perform_cases hs with
    | absent hentry => exact entry_none hentry v hv hid
    | close _ =>
      obtain ⟨w, hw, ⟨-, rfl⟩ | ⟨hwid, rfl⟩⟩ := mem_update hv
      · cases hid
      · exact hwid hid
  · obtain ⟨hw, hwid⟩ := entry_spec hentry
    rw [sweeps_perform hsweep hs] at hv
    exact closed_of_idle httl hunique hw hwid hbusy hidle v hv hid

/-- A workbook is open under the id drawn for it. -/
theorem opens_step {e : Event} (hs : e.before.perform limits e.call = some s') (hdrawn : e.drawn = some id) :
    e.misses id ∧ ∃ who, e.opens id who ∧ ∃ v ∈ s'.workbooks, v.id = some id ∧ v.identity = who := by
  obtain ⟨call, before⟩ := e
  cases call with
  | register i id' =>
    obtain rfl : id' = id := Option.some.inj hdrawn
    cases perform_cases hs with
    | @register _ _ size hfresh hi =>
      exact ⟨hfresh, ⟨before.registered, size⟩, ⟨i, rfl, rfl, hi⟩, _, List.mem_append_right _ (List.mem_singleton.2 rfl),
        rfl, rfl⟩
  | _ => cases hdrawn

/-! ## A whole run -/

/-- The calls of a run are made in states the critical sections come to. -/
theorem runs_callRuns {es : List Event} (h : CallRuns limits es s) :
    (∃ effects, Runs limits effects s) ∧ AtRest s := by
  induction h with
  | start => exact ⟨⟨[], .start⟩, rfl⟩
  | step _ hstep ih =>
    obtain ⟨⟨effects, hruns⟩, hrest⟩ := ih
    refine runs_perform (hstep.runs hruns) ?_ hstep.2.2
    rw [hstep.2.1]
    exact hrest

theorem Event.opens.drawn {e : Event} (h : e.opens id who) : e.drawn = some id := by
  obtain ⟨i, hcall, -⟩ := h
  rw [Event.drawn, hcall]

theorem Occurs.entry {e : Event} (h : Occurs limits s e s') (id : String) : e.before.entry id = s.entry id := by
  rw [Store.entry, h.workbooks]
  rfl

/-- What holds of all calls so far, and of the next. -/
theorem forall_mem_snoc {P : Event → Prop} {es : List Event} {e : Event} (hes : ∀ x ∈ es, P x) (he : P e) :
    ∀ x ∈ es ++ [e], P x := by
  intro x hx
  rcases List.mem_append.1 hx with hx | hx
  · exact hes x hx
  · exact List.mem_singleton.1 hx ▸ he

theorem Life.step {es : List Event} {e : Event} (h : Life limits id es s) (hstep : Occurs limits s e s')
    (hunique : Unique e.before) (hunique' : Unique s')
    (hfresh : e.drawn = some id → ∀ x ∈ es, x.drawn ≠ some id) : Life limits id (es ++ [e]) s' := by
  have hs := hstep.2.2
  have hentry := hstep.entry id
  cases h with
  | unborn hmiss hnone =>
    have hmisses : e.misses id := hentry.trans hnone
    by_cases hdrawn : e.drawn = some id
    · obtain ⟨-, who, hopens, v, hv, hid, hwho⟩ := opens_step hs hdrawn
      exact .alive hopens (forall_mem_snoc hmiss hmisses) nofun (hunique'.entry hv hid) hwho
    · exact .unborn (forall_mem_snoc hmiss hmisses) (misses_step hs hmisses hdrawn)
  | @alive before opening live who w _ hopens hmiss hfinds hnow hwho =>
    have hfound : e.finds id who := ⟨w, hentry.trans hnow, hwho⟩
    rw [List.append_assoc, List.cons_append]
    by_cases hcloses : e.closes limits id
    · exact .ended hopens hmiss (forall_mem_snoc hfinds hfound) hcloses nofun (closes_step hunique hs hcloses)
    · obtain ⟨v, hv, hid, hsame⟩ := stays_step hs (hentry.trans hnow) hcloses
      exact .alive hopens hmiss (forall_mem_snoc hfinds hfound) (hunique'.entry hv hid) (hsame.trans hwho)
  | @ended before opening live closing dead who _ hopens hmiss hfinds hcloses hdead hnone =>
    have hmisses : e.misses id := hentry.trans hnone
    have hdrawn : e.drawn ≠ some id := by
      intro hdrawn
      exact hfresh hdrawn opening (by simp) hopens.drawn
    rw [List.append_assoc, List.cons_append, List.append_assoc, List.cons_append]
    exact .ended hopens hmiss hfinds hcloses (forall_mem_snoc hdead hmisses) (misses_step hs hmisses hdrawn)

/-- Over any run of calls that draws no id twice, an id stands for nothing until
its workbook is opened, for that workbook and its bytes without a break until
one call closes it, by name or as idle past the TTL, and for nothing ever
after. No two workbooks in memory are taken for one another. -/
theorem handle_lifetime {es : List Event} (h : CallRuns limits es s) (hdrawn : (es.filterMap Event.drawn).Nodup)
    (id : String) : Life limits id es s ∧ Numbered s := by
  obtain ⟨⟨_, hnumbered⟩, -⟩ := runs_callRuns h
  refine ⟨?_, runs_numbered hnumbered⟩
  clear hnumbered
  induction h with
  | start => exact .unborn nofun rfl
  | @step es s₁ e s₂ hrun hstep ih =>
    rw [List.filterMap_append] at hdrawn
    obtain ⟨⟨effects, hruns⟩, -⟩ := runs_callRuns hrun
    obtain ⟨⟨effects', hruns'⟩, -⟩ := runs_callRuns (hrun.step hstep)
    refine (ih hdrawn.of_append_left).step hstep (runs_unique (hstep.runs hruns)) (runs_unique hruns') ?_
    intro hnew x hx hold
    -- the id was drawn before
    exact (List.nodup_append.1 hdrawn).2.2 id (List.mem_filterMap.2 ⟨x, hx, hold⟩) id
      (List.mem_filterMap.2 ⟨e, List.mem_singleton.2 rfl, hnew⟩) rfl

/-- A store whose one workbook is opened, looked up and closed. -/
theorem handle_lifetime_closed : ∃ es s, CallRuns ⟨4, 100, 10⟩ es s ∧ es.length = 4 ∧ s.entry "a" = none ∧
    Life ⟨4, 100, 10⟩ "a" es s := by
  have hreserve : CallRuns ⟨4, 100, 10⟩ [⟨.reserve ⟨60, 30⟩, withLimits ⟨4, 100, 10⟩⟩]
      { withLimits ⟨4, 100, 10⟩ with budget := ⟨90, 100⟩, pending := 1, reservations := [⟨60, 30⟩] } :=
    .step .start ⟨Nat.le_refl _, rfl, rfl⟩
  have hregister := hreserve.step (⟨Nat.le_refl _, rfl, rfl⟩ : Occurs ⟨4, 100, 10⟩ _ ⟨.register 0 "a", _⟩
    { withLimits ⟨4, 100, 10⟩ with budget := ⟨90, 100⟩, registered := 1, workbooks := [.ofOpen "a" 0 ⟨60, 30⟩ 0] })
  have hget := hregister.step (⟨Nat.le_refl _, rfl, rfl⟩ : Occurs ⟨4, 100, 10⟩ _ ⟨.get "a", _⟩ _)
  have hclose := hget.step (⟨Nat.le_refl _, rfl, rfl⟩ : Occurs ⟨4, 100, 10⟩ _ ⟨.close "a", _⟩ _)
  exact ⟨_, _, hclose, rfl, rfl, (handle_lifetime hclose (by decide) "a").1⟩

/-! ## The reaper -/

/-- The period of `spawn_reaper`, in nanoseconds: none where nothing ever
expires. -/
def reaperPeriod (idleTtl : Nat) : Option Nat :=
  if idleTtl = 0 then none else some (max 50000000 (min (idleTtl / 4) 30000000000))

/-- A sweep leaves nothing registered that was idle past the TTL by then. -/
def NoneIdle (limits : StoreLimits) (es : List Event) (s : Store) : Prop :=
  ∀ x ∈ es, x.sweeps limits = true → ∀ w ∈ s.workbooks, w.id ≠ none → x.time < w.lastUsed + limits.idleTtl

theorem noneIdle_step (httl : limits.idleTtl ≠ 0) {es : List Event} {e : Event} (h : NoneIdle limits es s)
    (hpast : ∀ x ∈ es, x.time ≤ e.time) (hunique : Unique e.before) (hstep : Occurs limits s e s') :
    NoneIdle limits (es ++ [e]) s' := by
  intro x hx hsweep v hv hsome
  obtain ⟨id, hid⟩ := Option.ne_none_iff_exists'.1 hsome
  have hnow : x.time ≤ e.time := forall_mem_snoc (P := fun x => x.time ≤ e.time) hpast (Nat.le_refl _) x hx
  cases perform_origin httl hunique hstep.2.2 hv hid with
  | opened i _ hlast => omega
  | used w _ _ _ hlast => omega
  | foundBusy w _ _ _ hlast => omega
  | kept w hw hwid hlast _ hheld _ _ =>
    rcases List.mem_append.1 hx with hx | hx
    · rw [hlast]
      exact h x hx hsweep w (hstep.workbooks ▸ hw) (by simp [hwid])
    · -- this sweep found the workbook idle, but not for long enough
      obtain rfl := List.mem_singleton.1 hx
      by_contra hidle
      rw [hlast, Nat.not_lt] at hidle
      have hgone := closed_of_idle httl hunique hw hwid (hheld hsweep) hidle
      exact hgone v (sweeps_perform hsweep hstep.2.2 ▸ hv) hid

/-- Sweeps are no further apart than a run is long. -/
theorem paced_of_past {es : List Event} {t : Nat} (h : ∀ x ∈ es, x.time ≤ t) : Paced limits t es := by
  apply List.Pairwise.isChain
  rw [List.pairwise_iff_forall_sublist]
  intro last next hsub
  have hmem : next ∈ 0 :: sweepTimes limits es := hsub.subset (by simp)
  rcases List.mem_cons.1 hmem with rfl | hmem
  · exact Nat.zero_le _
  · obtain ⟨x, hx, rfl⟩ := List.mem_map.1 hmem
    exact (h x (List.mem_of_mem_filter hx)).trans (Nat.le_add_left _ _)

theorem past_callRuns {es : List Event} (h : CallRuns limits es s) : ∀ x ∈ es, x.time ≤ s.now := by
  induction h with
  | start => nofun
  | step _ hstep ih =>
    rw [perform_now hstep.2.2]
    exact forall_mem_snoc (P := fun x => x.time ≤ _) (fun x hx => (ih x hx).trans hstep.1) (Nat.le_refl _)

theorem noneIdle_callRuns (httl : limits.idleTtl ≠ 0) {es : List Event} (h : CallRuns limits es s) :
    NoneIdle limits es s := by
  induction h with
  | start => nofun
  | step hrun hstep ih =>
    obtain ⟨⟨effects, hruns⟩, -⟩ := runs_callRuns hrun
    exact noneIdle_step httl ih (fun x hx => (past_callRuns hrun x hx).trans hstep.1) (runs_unique (hstep.runs hruns))
      hstep

/-- With the reaper ticking, its last tick late by `late` at most, a workbook
is registered no longer than its TTL and one period after somebody last opened
it or looked it up, or a sweep found it in use; and that period never passes the
TTL of a store whose TTL is not below the reaper's shortest period. -/
theorem reaper_in_time {period late t : Nat} (hperiod : reaperPeriod limits.idleTtl = some period) {es : List Event}
    {tick : Event} (h : CallRuns limits es s) (htick : tick ∈ es) (hcall : tick.call = .evictIdle)
    (ht : t ≤ tick.time + (period + late)) {w : Workbook} (hw : w ∈ s.workbooks) (hid : w.id = some id) :
    (∃ x ∈ es, (x.uses id ∨ x.foundBusy limits id) ∧ t < x.time + limits.idleTtl + (period + late)) ∧
      period ≤ 30000000000 ∧ (50000000 ≤ limits.idleTtl → period ≤ limits.idleTtl) := by
  unfold reaperPeriod at hperiod
  split at hperiod
  · cases hperiod
  rename_i httl
  have hlen := Option.some.inj hperiod
  have hsweep : tick.sweeps limits = true := by rw [Event.sweeps, hcall]
  have hkept := noneIdle_callRuns httl h tick htick hsweep w hw (by simp [hid])
  have htraced := runs_traced httl h (paced_of_past (past_callRuns h))
  obtain ⟨x, hx, hlast, hsource⟩ := (htraced.trace w hw id hid).source
  exact ⟨⟨x, hx, hsource, by omega⟩, by omega, by omega⟩

/-- A TTL of 200 ms: the reaper's tick at 100 ms leaves a workbook whose RPC
ended at 3 ns, and at 120 ms it is there still. -/
theorem reaper_in_time_kept : ∃ es s, CallRuns ⟨4, 100, 200000000⟩ es s ∧ (s.entry "a").isSome = true ∧
    ∃ x ∈ es, (x.uses "a" ∨ x.foundBusy ⟨4, 100, 200000000⟩ "a") ∧ 120000000 < x.time + 200000000 + (50000000 + 0) := by
  have hreserve : CallRuns ⟨4, 100, 200000000⟩ [⟨.reserve ⟨60, 30⟩, withLimits ⟨4, 100, 200000000⟩⟩]
      { withLimits ⟨4, 100, 200000000⟩ with budget := ⟨90, 100⟩, pending := 1, reservations := [⟨60, 30⟩] } :=
    .step .start ⟨Nat.le_refl _, rfl, rfl⟩
  have hregister := hreserve.step (⟨Nat.le_refl _, rfl, rfl⟩ : Occurs ⟨4, 100, 200000000⟩ _ ⟨.register 0 "a", _⟩
    { withLimits ⟨4, 100, 200000000⟩ with budget := ⟨90, 100⟩, registered := 1, workbooks := [.ofOpen "a" 0 ⟨60, 30⟩ 0] })
  have hfinish := hregister.step (⟨Nat.zero_le 3, rfl, rfl⟩ : Occurs ⟨4, 100, 200000000⟩ _
    ⟨.finish "a", { withLimits ⟨4, 100, 200000000⟩ with
      budget := ⟨90, 100⟩, registered := 1, workbooks := [.ofOpen "a" 0 ⟨60, 30⟩ 0], now := 3 }⟩ _)
  have htick := hfinish.step (⟨(by decide : 3 ≤ 100000000), rfl, rfl⟩ : Occurs ⟨4, 100, 200000000⟩ _
    ⟨.evictIdle, { withLimits ⟨4, 100, 200000000⟩ with
      budget := ⟨90, 100⟩, registered := 1, workbooks := [{ Workbook.ofOpen "a" 0 ⟨60, 30⟩ 0 with holders := 0 }],
      now := 100000000 }⟩
    { withLimits ⟨4, 100, 200000000⟩ with
      budget := ⟨90, 100⟩, registered := 1, workbooks := [{ Workbook.ofOpen "a" 0 ⟨60, 30⟩ 0 with holders := 0 }],
      now := 100000000 })
  refine ⟨_, _, htick, rfl, ?_⟩
  exact (reaper_in_time rfl htick (List.mem_append_right _ (List.mem_singleton.2 rfl)) rfl (by decide)
    (List.mem_singleton.2 rfl) rfl).1

end Store

end GrpcCalamine
