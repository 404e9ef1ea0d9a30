import GrpcCalamine.Service.Unary
/-!
# What the answers about a handle say

The server is a service of handles (`Handles.Runs`): an exchange shows what was
done with an id (`Shows`), and every step of the server is one of such a service
(`Inv.step`), the store's sweeps being what gives ids up. What clients have of it
is the life of an id in the answers (`Exchange.Life`).
-/

namespace GrpcCalamine

open Handles (State Op)

/-- What an exchange shows of the handle it is about. -/
inductive Exchange.Shows : Exchange → Op String WorkbookEntry → Prop where
  | opened (id : String) (entry : WorkbookEntry) : Shows (.opened entry.bytes (openResponse id entry)) (.open id entry)
  | refused (status : Status) : Shows (.refused status) .quiet
  | closed (id : String) (was : Bool) : Shows (.closed id was) (.close id was)
  | uiInfo : Shows (.metadata "" (.ok uiResponse)) .quiet
  | metadata (id : String) (entry : WorkbookEntry) :
      Shows (.metadata id (.ok (metadataResponse entry))) (.read id (some entry))
  | noMetadata (id : String) : Shows (.metadata id (.error (unknownWorkbook id))) (.read id none)
  | definedNames (id : String) (entry : WorkbookEntry) :
      Shows (.definedNames id (.ok entry.metadata.definedNames)) (.read id (some entry))
  | noDefinedNames (id : String) : Shows (.definedNames id (.error (unknownWorkbook id))) (.read id none)
  | stream (id : String) (entry : WorkbookEntry) : Shows (.stream id (.ok entry)) (.read id (some entry))
  | streamFull (id : String) (entry : WorkbookEntry) :
      Shows (.stream id (.error tooManyStreams)) (.read id (some entry))
  | noStream (id : String) : Shows (.stream id (.error (unknownWorkbook id))) (.read id none)
  | quiet : Shows .quiet .quiet

/-- A parse the gate let through, charged for its upload. -/
structure Parsing.Ok (limits : ServerLimits) (p : Parsing) : Prop where
  gate : p.formatHint = .unspecified ∨ limits.opens.formats.accepts p.formatHint = true
  sized : p.size.upload = p.bytes.length

structure WorkbookEntry.Ok (limits : ServerLimits) (entry : WorkbookEntry) : Prop where
  accepted : limits.opens.formats.accepts entry.format = true
  sized : entry.size.upload = entry.bytes.length

namespace Server

variable {limits : ServerLimits} {zip : List UInt8 → Option (List (Option Entry))} {calamine : Calamine.Opener}

/-! ## An id and its state -/

/-- What a handle's state says of the store. -/
def Agree (store : Store) (entries : List (String × WorkbookEntry)) (id : String) : State WorkbookEntry → Prop
  | .live entry => (∃ w, store.entry id = some w ∧ w.size = entry.size) ∧ entries.lookup id = some entry
  | .unused | .gone => store.entry id = none

section agree

variable {store store' : Store} {entries : List (String × WorkbookEntry)} {id : String} {handle : State WorkbookEntry}

theorem Agree.dead (h : Agree store entries id handle) (hdead : handle.Dead) : store.entry id = none := by
  cases handle with
  | live entry => exact absurd rfl (hdead entry)
  | unused => exact h
  | gone => exact h

theorem Agree.of_dead (hdead : handle.Dead) (h : store.entry id = none) : Agree store entries id handle := by
  cases handle with
  | live entry => exact absurd rfl (hdead entry)
  | unused => exact h
  | gone => exact h

theorem dead_or_live (handle : State WorkbookEntry) : handle.Dead ∨ ∃ entry, handle = .live entry := by
  cases handle with
  | live entry => exact .inr ⟨entry, rfl⟩
  | unused => exact .inl fun _ hc => by cases hc
  | gone => exact .inl fun _ hc => by cases hc

/-- A call that neither draws the id nor closes it. -/
theorem Agree.stays {limits : StoreLimits} {e : Store.Event} (h : Agree e.before entries id handle)
    (hs : e.before.perform limits e.call = some store') (hunique' : Store.Unique store') (hdrawn : e.drawn ≠ some id)
    (hcloses : ¬ e.closes limits id) : Agree store' entries id handle := by
  rcases dead_or_live handle with hdead | ⟨entry, rfl⟩
  · exact .of_dead hdead (Store.misses_step hs (h.dead hdead) hdrawn)
  · obtain ⟨⟨w, hentry, hsize⟩, hlookup⟩ := h
    obtain ⟨v, hv, hid, hsame⟩ := Store.stays_step hs hentry hcloses
    exact ⟨⟨v, hunique'.entry hv hid, (congrArg Identity.size hsame).trans hsize⟩, hlookup⟩

end agree

/-- What the server's runs keep. -/
structure Inv (limits : ServerLimits) (xs : List Exchange) (s : Server) (handles : String → State WorkbookEntry) :
    Prop where
  runs : ∃ effects, Store.Runs limits.opens.store effects s.store
  rest : Store.AtRest s.store
  reserved : s.store.reservations = s.parses.map (·.size)
  parses : ∀ p ∈ s.parses, p.Ok limits
  agree : ∀ id, Agree s.store s.entries id (handles id)
  drawn : ∀ id, id ∉ xs.filterMap Exchange.drawn → handles id = .unused
  entries : ∀ id entry, handles id = .live entry → entry.Ok limits

section inv

variable {xs : List Exchange} {s : Server} {handles : String → State WorkbookEntry}

theorem inv_start (limits : ServerLimits) : Inv limits [] (start limits) fun _ => .unused :=
  ⟨⟨[], .start⟩, rfl, rfl, fun _ hp => absurd hp List.not_mem_nil, fun _ => rfl,
    fun _ _ => rfl, fun _ _ h => by cases h⟩

/-- Time passes. -/
theorem Inv.clock (h : Inv limits xs s handles) {now : Nat} (hnow : s.store.now ≤ now) :
    (∃ effects, Store.Runs limits.opens.store effects (s.clock now)) ∧ Store.AtRest (s.clock now) := by
  obtain ⟨effects, hruns⟩ := h.runs
  exact ⟨⟨_, hruns.step (.tick hnow)⟩, h.rest⟩

/-- A reservation goes with its parse. -/
theorem Inv.erased (h : Inv limits xs s handles) (j : Nat) :
    s.store.reservations.eraseIdx j = (s.parses.eraseIdx j).map (·.size) := by
  rw [h.reserved, List.eraseIdx_map]

/-- A call made of the store leaves it in a state its critical sections come to. -/
theorem Inv.perform (h : Inv limits xs s handles) {now : Nat} (hnow : s.store.now ≤ now) {call : Store.Call}
    {store : Store} (hs : (s.clock now).perform limits.opens.store call = some store) :
    (∃ effects, Store.Runs limits.opens.store effects store) ∧ Store.AtRest store ∧ Store.Unique (s.clock now) ∧
      Store.Unique store := by
  obtain ⟨⟨effects, hruns⟩, hrest⟩ := h.clock hnow
  obtain ⟨⟨effects', hruns'⟩, hrest'⟩ := Store.runs_perform hruns hrest hs
  exact ⟨⟨effects', hruns'⟩, hrest', Store.runs_unique hruns, Store.runs_unique hruns'⟩

/-! ## One call -/

/-- What a call that draws no id makes of the handles: those it closes are gone. -/
def After (limits : StoreLimits) (e : Store.Event) (handles handles' : String → State WorkbookEntry) : Prop :=
  ∀ id, handles' id = handles id ∧ (¬ e.closes limits id ∨ (handles id).Dead) ∨
    (∃ entry, handles id = .live entry) ∧ handles' id = .gone ∧ e.closes limits id

theorem After.expires {limits : StoreLimits} {e : Store.Event} {handles' : String → State WorkbookEntry}
    (h : After limits e handles handles') : Handles.Expires handles handles' := by
  intro id
  rcases h id with ⟨hsame, -⟩ | ⟨hlive, hgone, -⟩
  · exact .inl hsame
  · exact .inr ⟨hlive, hgone⟩

theorem exists_after (limits : StoreLimits) (e : Store.Event) (handles : String → State WorkbookEntry) :
    ∃ handles', After limits e handles handles' := by
  classical
  refine ⟨fun id => if (∃ entry, handles id = .live entry) ∧ e.closes limits id then .gone else handles id, fun id => ?_⟩
  by_cases hid : (∃ entry, handles id = .live entry) ∧ e.closes limits id
  · exact .inr ⟨hid.1, if_pos hid, hid.2⟩
  · refine .inl ⟨if_neg hid, ?_⟩
    rcases dead_or_live (handles id) with hdead | hlive
    · exact .inr hdead
    · exact .inl fun hcloses => hid ⟨hlive, hcloses⟩

/-- What was never drawn is unused still. -/
theorem drawn_concat {handles' : String → State WorkbookEntry} {x : Exchange}
    (h : ∀ id, id ∉ xs.filterMap Exchange.drawn → handles id = .unused)
    (hsame : ∀ id, handles id = .unused → handles' id = .unused) :
    ∀ id, id ∉ (xs ++ [x]).filterMap Exchange.drawn → handles' id = .unused := by
  intro id hid
  refine hsame id (h id fun hmem => hid ?_)
  rw [List.filterMap_append]
  exact List.mem_append_left _ hmem

/-- A step that calls nothing. -/
theorem Inv.idle (h : Inv limits xs s handles) {now : Nat} (hnow : s.store.now ≤ now) {x : Exchange}
    {s' : Server} (hstore : s'.store = s.clock now) (hparses : s'.parses = s.parses)
    (hentries : s'.entries = s.entries) : Inv limits (xs ++ [x]) s' handles where
  runs := hstore ▸ (h.clock hnow).1
  rest := hstore ▸ (h.clock hnow).2
  reserved := by rw [hstore, hparses]; exact h.reserved
  parses := hparses ▸ h.parses
  agree id := by rw [hstore, hentries]; exact h.agree id
  drawn := drawn_concat h.drawn fun _ hid => hid
  entries := h.entries

theorem Inv.call (h : Inv limits xs s handles) {now : Nat} (hnow : s.store.now ≤ now) {call : Store.Call} {store : Store}
    (hs : (s.clock now).perform limits.opens.store call = some store)
    (hdrawn : (⟨call, s.clock now⟩ : Store.Event).drawn = none) {handles' : String → State WorkbookEntry}
    (hafter : After limits.opens.store ⟨call, s.clock now⟩ handles handles') {x : Exchange}
    {s' : Server} (hstore : s'.store = store) (hentries : s'.entries = s.entries)
    (hreserved : store.reservations = s'.parses.map (·.size))
    (hparses : ∀ p ∈ s'.parses, p.Ok limits) :
    Inv limits (xs ++ [x]) s' handles' := by
  obtain ⟨hruns, hrest, hunique, hunique'⟩ := h.perform hnow hs
  have hnone : ∀ id, (⟨call, s.clock now⟩ : Store.Event).drawn ≠ some id := fun id hid => by rw [hdrawn] at hid; cases hid
  refine ⟨hstore ▸ hruns, hstore ▸ hrest, hstore ▸ hreserved, hparses, ?_, drawn_concat h.drawn ?_, ?_⟩
  · intro id
    have hagree : Agree (s.clock now) s.entries id (handles id) := h.agree id
    rw [hstore, hentries]
    rcases hafter id with ⟨hsame, hkept | hdead⟩ | ⟨-, hgone, hcloses⟩
    · rw [hsame]
      exact hagree.stays (e := ⟨call, s.clock now⟩) hs hunique' (hnone id) hkept
    · rw [hsame]
      exact .of_dead hdead (Store.misses_step (e := ⟨call, s.clock now⟩) hs (hagree.dead hdead) (hnone id))
    · rw [hgone]
      exact Store.closes_step (e := ⟨call, s.clock now⟩) hunique hs hcloses
  · intro id hid
    rcases hafter id with ⟨hsame, -⟩ | ⟨⟨entry, hlive⟩, -, -⟩
    · exact hsame.trans hid
    · rw [hid] at hlive
      cases hlive
  · intro id entry hlive
    rcases hafter id with ⟨hsame, -⟩ | ⟨-, hgone, -⟩
    · exact h.entries id entry (hsame ▸ hlive)
    · rw [hgone] at hlive
      cases hlive

theorem not_closes {limits : StoreLimits} {e : Store.Event} {id : String} (hsweeps : e.sweeps limits = false)
    (hclose : e.call ≠ .close id) : ¬ e.closes limits id := by
  rintro (hcall | ⟨hsweep, -⟩)
  · exact hclose hcall
  · rw [hsweeps] at hsweep
    cases hsweep

theorem after_none {limits : StoreLimits} {e : Store.Event} (h : ∀ id, ¬ e.closes limits id) :
    After limits e handles handles := fun id => .inl ⟨rfl, .inl (h id)⟩

/-- A look-up finds what is live, and nothing else. -/
theorem Inv.getEntry (h : Inv limits xs s handles) (id : String) :
    (handles id).Dead ∧ s.getEntry id = .error (unknownWorkbook id) ∨
      ∃ entry, handles id = .live entry ∧ s.getEntry id = .ok entry := by
  have hagree := h.agree id
  rcases dead_or_live (handles id) with hdead | ⟨entry, hlive⟩
  · refine .inl ⟨hdead, ?_⟩
    rw [Server.getEntry, hagree.dead hdead]
  · rw [hlive] at hagree
    obtain ⟨⟨w, hentry, -⟩, hlookup⟩ := hagree
    exact .inr ⟨entry, hlive, by rw [Server.getEntry, hentry, hlookup]⟩

/-- A look-up on the store's side. -/
theorem Inv.get (h : Inv limits xs s handles) {now : Nat} (hnow : s.store.now ≤ now) {id : String} {store : Store}
    (hs : (s.clock now).perform limits.opens.store (.get id) = some store) (x : Exchange) :
    Inv limits (xs ++ [x]) { s with store := store } handles := by
  have hafter : After limits.opens.store ⟨.get id, s.clock now⟩ handles handles :=
    after_none fun id' => not_closes rfl fun hcall => by cases hcall
  refine h.call hnow hs rfl hafter rfl rfl ?_ h.parses
  cases Store.perform_cases hs with
  | missed _ => exact h.reserved
  | get _ => exact h.reserved

/-- A close by name. -/
theorem Inv.close (h : Inv limits xs s handles) {now : Nat} (hnow : s.store.now ≤ now) {id : String} {closed : Bool}
    {store : Store} (hs : (s.clock now).close id = (closed, store)) (x : Exchange) :
    ∃ handles', Handles.Step handles (.close id closed) handles' ∧
      Inv limits (xs ++ [x]) { s with store := store } handles' := by
  have hperform : (s.clock now).perform limits.opens.store (.close id) = some store := by rw [Store.perform, hs]
  have hagree : Agree (s.clock now) s.entries id (handles id) := h.agree id
  have hother : ∀ id', id' ≠ id → ¬ (⟨.close id, s.clock now⟩ : Store.Event).closes limits.opens.store id' := by
    intro id' hne
    refine not_closes rfl fun hcall => hne ?_
    cases hcall
    rfl
  have hreserved : store.reservations = s.parses.map (·.size) := by
    cases Store.perform_cases hperform with
    | absent _ => exact h.reserved
    | close _ => exact h.reserved
  rcases dead_or_live (handles id) with hdead | ⟨entry, hlive⟩
  · have hclosed : closed = false := by
      rw [Store.close, hagree.dead hdead] at hs
      exact (congrArg Prod.fst hs).symm
    have hafter : After limits.opens.store ⟨.close id, s.clock now⟩ handles handles := by
      intro id'
      by_cases hid : id' = id
      · exact .inl ⟨rfl, .inr (hid ▸ hdead)⟩
      · exact .inl ⟨rfl, .inl (hother id' hid)⟩
    exact ⟨handles, hclosed ▸ .closeDead id hdead, h.call hnow hperform rfl hafter rfl rfl hreserved h.parses⟩
  · have hclosed : closed = true := by
      rw [hlive] at hagree
      obtain ⟨⟨w, hentry, -⟩, -⟩ := hagree
      rw [Store.close, hentry] at hs
      exact (congrArg Prod.fst hs).symm
    have hafter : After limits.opens.store ⟨.close id, s.clock now⟩ handles (Handles.assign handles id .gone) := by
      intro id'
      by_cases hid : id' = id
      · subst hid
        exact .inr ⟨⟨entry, hlive⟩, Handles.assign_self _ _ _, .inl rfl⟩
      · exact .inl ⟨Handles.assign_other _ _ hid, .inl (hother id' hid)⟩
    exact ⟨_, hclosed ▸ .close id entry hlive, h.call hnow hperform rfl hafter rfl rfl hreserved h.parses⟩

/-- The id drawn for a parse stands for its workbook, and the others for what
they did. -/
theorem Inv.registered (h : Inv limits xs s handles) {now : Nat} (hnow : s.store.now ≤ now) {j : Nat} {p : Parsing}
    {entry : WorkbookEntry} {id : String} {store : Store} (hp : s.parses[j]? = some p) (hsize : entry.size = p.size)
    (hs : (s.clock now).perform limits.opens.store (.register j id) = some store) (id' : String) :
    Agree store ((id, entry) :: s.entries) id' (Handles.assign handles id (.live entry) id') := by
  obtain ⟨-, -, -, hunique'⟩ := h.perform hnow hs
  by_cases hid : id' = id
  · subst hid
    rw [Handles.assign_self]
    refine ⟨?_, List.lookup_cons_self⟩
    cases Store.perform_cases hs with
    | @register _ _ size _ hj =>
      have hsame : size = p.size := by
        have hmap : (s.parses.map (·.size))[j]? = some size := h.reserved ▸ hj
        rw [List.getElem?_map, hp] at hmap
        exact (Option.some.inj hmap).symm
      refine ⟨_, hunique'.entry (List.mem_append_right _ (List.mem_singleton.2 rfl)) rfl, ?_⟩
      rw [hsize, ← hsame]
      rfl
  · rw [Handles.assign_other _ _ hid]
    have hagree : Agree (s.clock now) s.entries id' (handles id') := h.agree id'
    have hdrawn : (⟨.register j id, s.clock now⟩ : Store.Event).drawn ≠ some id' :=
      fun heq => hid (Option.some.inj heq).symm
    have hkept := hagree.stays (e := ⟨.register j id, s.clock now⟩) hs hunique' hdrawn
      (not_closes rfl fun hcall => by cases hcall)
    have hlookup : ((id, entry) :: s.entries).lookup id' = s.entries.lookup id' := by
      rw [List.lookup_cons, beq_false_of_ne hid]
    cases hhandle : handles id' with
    | live entry' =>
      rw [hhandle] at hkept
      exact ⟨hkept.1, hlookup.trans hkept.2⟩
    | unused =>
      rw [hhandle] at hkept
      exact hkept
    | gone =>
      rw [hhandle] at hkept
      exact hkept

/-- A parse ends well. -/
theorem Inv.register (h : Inv limits xs s handles) {now : Nat} (hnow : s.store.now ≤ now) {j : Nat} {p : Parsing}
    {entry : WorkbookEntry} {id : String} {store : Store} (hp : s.parses[j]? = some p)
    (hparse : Store.parse limits.opens calamine p.bytes p.formatHint p.headerRow p.size = .ok entry)
    (hs : (s.clock now).perform limits.opens.store (.register j id) = some store)
    (hfresh : id ∉ xs.filterMap Exchange.drawn) :
    entry.bytes = p.bytes ∧ Handles.Step handles (.open id entry) (Handles.assign handles id (.live entry)) ∧
      Inv limits (xs ++ [.opened p.bytes (openResponse id entry)])
        { s with store := store, parses := s.parses.eraseIdx j, entries := (id, entry) :: s.entries }
        (Handles.assign handles id (.live entry)) := by
  obtain ⟨hruns, hrest, -, -⟩ := h.perform hnow hs
  have hok := h.parses p (List.mem_of_getElem? hp)
  obtain ⟨haccepts, ⟨hbytes, -⟩, hsize, -⟩ := Store.parse_ok hok.gate hparse
  refine ⟨hbytes, .open id entry (h.drawn id hfresh), hruns, hrest, ?_, ?_, h.registered hnow hp hsize hs, ?_, ?_⟩
  · cases Store.perform_cases hs with
    | register _ _ => exact h.erased j
  · exact fun q hq => h.parses q (List.mem_of_mem_eraseIdx hq)
  · intro id' hid'
    rw [List.filterMap_append, List.mem_append, not_or] at hid'
    have hne : id' ≠ id := by
      rintro rfl
      exact hid'.2 (by simp [Exchange.drawn, openResponse])
    rw [Handles.assign_other _ _ hne]
    exact h.drawn id' hid'.1
  · intro id' entry' hlive
    by_cases hid : id' = id
    · subst hid
      rw [Handles.assign_self] at hlive
      cases hlive
      exact ⟨haccepts, by rw [hsize, hok.sized, hbytes]⟩
    · rw [Handles.assign_other _ _ hid] at hlive
      exact h.entries id' entry' hlive

/-- A call nobody waits for, or one that takes room or gives it up. -/
theorem Inv.unnamed (h : Inv limits xs s handles) {now : Nat} (hnow : s.store.now ≤ now) {call : Store.Call}
    {store : Store} (hs : (s.clock now).perform limits.opens.store call = some store)
    (hdrawn : (⟨call, s.clock now⟩ : Store.Event).drawn = none) (x : Exchange) (s' : Server) (hstore : s'.store = store)
    (hentries : s'.entries = s.entries) (hreserved : store.reservations = s'.parses.map (·.size))
    (hparses : ∀ p ∈ s'.parses, p.Ok limits) :
    ∃ handles', Handles.Step handles .quiet handles' ∧ Inv limits (xs ++ [x]) s' handles' := by
  obtain ⟨handles', hafter⟩ := exists_after limits.opens.store ⟨call, s.clock now⟩ handles
  exact ⟨handles', .quiet hafter.expires, h.call hnow hs hdrawn hafter hstore hentries hreserved hparses⟩

theorem Inv.quiet (h : Inv limits xs s handles) {now : Nat} (hnow : s.store.now ≤ now) (x : Exchange) (s' : Server)
    (hstore : s'.store = s.clock now) (hparses : s'.parses = s.parses) (hentries : s'.entries = s.entries) :
    ∃ handles', Handles.Step handles .quiet handles' ∧ Inv limits (xs ++ [x]) s' handles' :=
  ⟨handles, .quiet fun _ => .inl rfl, h.idle hnow hstore hparses hentries⟩

/-- What `admitOpen` comes to is a call of `reserve`, or nothing. -/
theorem Inv.admitOpen (h : Inv limits xs s handles) {now : Nat} (hnow : s.store.now ≤ now) {bytes : List UInt8}
    {formatHint : Pb.WorkbookFormat} (headerRow : Option HeaderRow) {r : Except StoreError Footprint} {store : Store}
    (hcomes : (s.clock now).admitOpen limits.opens zip bytes formatHint = (r, store)) (x : Exchange)
    (uploads : List Receiving) :
    ∃ handles', Handles.Step handles .quiet handles' ∧
      (∀ e, r = .error e → Inv limits (xs ++ [x]) { s with store := store, uploads := uploads } handles') ∧
      ∀ size, r = .ok size →
        Inv limits (xs ++ [x]) { s with store := store, uploads := uploads,
                                        parses := s.parses ++ [⟨bytes, formatHint, headerRow, size⟩] } handles' := by
  have hstep : ∀ {size : Footprint} {res : Except LimitExceeded Unit} {store' : Store},
      (s.clock now).reserve limits.opens.store size = (res, store') →
        (s.clock now).perform limits.opens.store (.reserve size) = some store' := by
    intro size res store' hreserve
    rw [Store.perform, hreserve]
  rcases Store.admitOpen_cases limits.opens zip bytes formatHint (s.clock now) with
    ⟨e, hrefused⟩ | ⟨size, e, hreserve, hrefused⟩ | ⟨inflated, budget, hgate, -, -, hreserve, hok⟩
  · obtain ⟨rfl, rfl⟩ := Prod.mk.inj (hrefused.symm.trans hcomes)
    obtain ⟨handles', hquiet, hinv⟩ := h.quiet hnow x { s with store := s.clock now, uploads := uploads } rfl rfl rfl
    exact ⟨handles', hquiet, fun _ _ => hinv, fun _ hr => by cases hr⟩
  · obtain ⟨rfl, rfl⟩ := Prod.mk.inj (hrefused.symm.trans hcomes)
    have hreserved : ((s.clock now).sweep limits.opens.store).reservations = s.parses.map (·.size) := by
      rw [Store.sweep_reservations]
      exact h.reserved
    obtain ⟨handles', hquiet, hinv⟩ := h.unnamed hnow (hstep hreserve) rfl x
      { s with store := (s.clock now).sweep limits.opens.store, uploads := uploads } rfl rfl hreserved h.parses
    exact ⟨handles', hquiet, fun _ _ => hinv, fun _ hr => by cases hr⟩
  · obtain ⟨rfl, rfl⟩ := Prod.mk.inj (hok.symm.trans hcomes)
    have hreserved : (((s.clock now).sweep limits.opens.store).withReserved budget
        ⟨bytes.length, inflated.readerBytes⟩).reservations =
          (s.parses ++ [(⟨bytes, formatHint, headerRow, ⟨bytes.length, inflated.readerBytes⟩⟩ : Parsing)]).map (·.size) := by
      rw [List.map_append, ← h.reserved]
      show ((s.clock now).sweep limits.opens.store).reservations ++ _ = _
      rw [Store.sweep_reservations]
      rfl
    have hparses : ∀ p ∈ s.parses ++ [(⟨bytes, formatHint, headerRow, ⟨bytes.length, inflated.readerBytes⟩⟩ : Parsing)],
        p.Ok limits := by
      intro p hp
      rcases List.mem_append.1 hp with hp | hp
      · exact h.parses p hp
      · rw [List.mem_singleton.1 hp]
        exact ⟨hgate, rfl⟩
    obtain ⟨handles', hquiet, hinv⟩ := h.unnamed hnow (hstep hreserve) rfl x
      { s with store := _, uploads := uploads, parses := _ } rfl rfl hreserved hparses
    refine ⟨handles', hquiet, ?_, ?_⟩
    · intro e hr
      cases hr
    · intro size hr
      cases hr
      exact hinv

end inv

/-- A step of the server is one of a service of handles. -/
theorem Inv.step {xs : List Exchange} {s s' : Server} {handles : String → State WorkbookEntry} {x : Exchange}
    (h : Inv limits xs s handles) (hstep : Step limits zip calamine s x s')
    (hfresh : ∀ id, x.drawn = some id → id ∉ xs.filterMap Exchange.drawn) :
    ∃ op handles', x.Shows op ∧ Handles.Step handles op handles' ∧ Inv limits (xs ++ [x]) s' handles' := by
  have hsilent : ∀ {s' : Server}, x.Shows .quiet →
      (∃ handles', Handles.Step handles .quiet handles' ∧ Inv limits (xs ++ [x]) s' handles') →
        ∃ op handles', x.Shows op ∧ Handles.Step handles op handles' ∧ Inv limits (xs ++ [x]) s' handles' := by
    rintro s' hshow ⟨handles', hquiet, hinv⟩
    exact ⟨.quiet, handles', hshow, hquiet, hinv⟩
  have hidle : ∀ uploads : List Receiving, ∃ handles', Handles.Step handles .quiet handles' ∧
      Inv limits (xs ++ [x]) { s with uploads := uploads } handles' :=
    fun uploads => h.quiet (Nat.le_refl s.store.now) x _ rfl rfl rfl
  have habandoned : ∀ {now j : Nat} {store : Store}, s.store.now ≤ now →
      (s.clock now).perform limits.opens.store (.abandon j) = some store →
        ∃ handles', Handles.Step handles .quiet handles' ∧
          Inv limits (xs ++ [x]) { s with store := store, parses := s.parses.eraseIdx j } handles' := by
    intro now j store hnow hs
    refine h.unnamed hnow hs rfl x _ rfl rfl ?_ fun p hp => h.parses p (List.mem_of_mem_eraseIdx hp)
    cases Store.perform_cases hs with
    | abandon _ => exact h.erased j
  cases hstep with
  | begin | frame | leave => exact hsilent .quiet (hidle _)
  | turnAway | refuse | refuseEnd | deadline | panicInspect => exact hsilent (.refused _) (hidle _)
  | parse hnow _ _ hcomes =>
    obtain ⟨handles', hquiet, -, hinv⟩ := h.admitOpen hnow _ hcomes .quiet _
    exact hsilent .quiet ⟨handles', hquiet, hinv _ rfl⟩
  | refuseOpen hnow _ _ hcomes =>
    obtain ⟨handles', hquiet, hinv, -⟩ := h.admitOpen hnow none hcomes (.refused _) _
    exact hsilent (.refused _) ⟨handles', hquiet, hinv _ rfl⟩
  | register hnow hp hparse hs =>
    obtain ⟨hbytes, hopen, hinv⟩ := h.register hnow hp hparse hs (hfresh _ rfl)
    exact ⟨_, _, hbytes ▸ .opened _ _, hopen, hinv⟩
  | reject hnow _ _ hs => exact hsilent (.refused _) (habandoned hnow hs)
  | panic _ hnow _ hs => exact hsilent (.refused _) (habandoned hnow hs)
  | @background call now store hnow hback hs =>
    have hkept : (⟨call, s.clock now⟩ : Store.Event).drawn = none ∧ store.reservations = s.parses.map (·.size) := by
      cases Store.perform_cases hs with
      | evictIdle => exact ⟨rfl, (Store.sweep_reservations _ _).trans h.reserved⟩
      | fits _ => exact ⟨rfl, h.reserved⟩
      | swept _ => exact ⟨rfl, (Store.sweep_reservations _ _).trans h.reserved⟩
      | finish _ _ _ => exact ⟨rfl, h.reserved⟩
      | finishClosed _ _ _ _ => exact ⟨rfl, h.reserved⟩
      | reader _ _ => exact ⟨rfl, h.reserved⟩
      | vanish _ _ _ _ => exact ⟨rfl, h.reserved⟩
      | die _ => exact ⟨rfl, h.reserved⟩
      | _ => cases hback
    exact hsilent .quiet (h.unnamed hnow hs hkept.1 .quiet { s with store := store } rfl rfl hkept.2 h.parses)
  | close hnow hs =>
    obtain ⟨handles', hclose, hinv⟩ := h.close hnow hs _
    exact ⟨_, handles', .closed _ _, hclose, hinv⟩
  | uiInfo => exact hsilent .uiInfo (hidle s.uploads)
  | @metadata id now store hnow hid hs =>
    have hinv := h.get hnow hs (.metadata id (s.getMetadata id))
    rcases h.getEntry id with ⟨hdead, hget⟩ | ⟨entry, hlive, hget⟩
    · have hreply : s.getMetadata id = .error (unknownWorkbook id) := by
        rw [getMetadata, hid, hget]
        rfl
      exact ⟨_, handles, hreply ▸ .noMetadata id, .missed id hdead, hinv⟩
    · have hreply : s.getMetadata id = .ok (metadataResponse entry) := by
        rw [getMetadata, hid, hget]
        rfl
      exact ⟨_, handles, hreply ▸ .metadata id entry, .found id entry hlive, hinv⟩
  | @definedNames id now store hnow hs =>
    have hinv := h.get hnow hs (.definedNames id (s.getDefinedNames id))
    rcases h.getEntry id with ⟨hdead, hget⟩ | ⟨entry, hlive, hget⟩
    · have hreply : s.getDefinedNames id = .error (unknownWorkbook id) := by
        rw [getDefinedNames, hget]
        rfl
      exact ⟨_, handles, hreply ▸ .noDefinedNames id, .missed id hdead, hinv⟩
    · have hreply : s.getDefinedNames id = .ok entry.metadata.definedNames := by
        rw [getDefinedNames, hget]
        rfl
      exact ⟨_, handles, hreply ▸ .definedNames id entry, .found id entry hlive, hinv⟩
  | @stream id now store free hnow hs =>
    have hinv := h.get hnow hs (.stream id (s.startStream id free))
    rcases h.getEntry id with ⟨hdead, hget⟩ | ⟨entry, hlive, hget⟩
    · have hreply : s.startStream id free = .error (unknownWorkbook id) := by
        rw [startStream, hget]
        rfl
      exact ⟨_, handles, hreply ▸ .noStream id, .missed id hdead, hinv⟩
    · cases free with
      | zero =>
        have hreply : s.startStream id 0 = .error tooManyStreams := by
          rw [startStream, hget]
          rfl
        exact ⟨_, handles, hreply ▸ .streamFull id entry, .found id entry hlive, hinv⟩
      | succ free =>
        have hreply : s.startStream id (free + 1) = .ok entry := by
          rw [startStream, hget]
          rfl
        exact ⟨_, handles, hreply ▸ .stream id entry, .found id entry hlive, hinv⟩

/-- A run of the server is one of a service of handles. -/
theorem runs_handles {xs : List Exchange} {s : Server} (h : Runs limits zip calamine xs s)
    (hdrawn : (xs.filterMap Exchange.drawn).Nodup) :
    ∃ ops handles, List.Forall₂ Exchange.Shows xs ops ∧ Handles.Runs ops handles ∧ Inv limits xs s handles := by
  induction h with
  | start => exact ⟨[], _, .nil, .start, inv_start limits⟩
  | @step xs s x s' _ hstep ih =>
    rw [List.filterMap_append] at hdrawn
    obtain ⟨ops, handles, hshows, hruns, hinv⟩ := ih hdrawn.of_append_left
    have hfresh : ∀ id, x.drawn = some id → id ∉ xs.filterMap Exchange.drawn := by
      intro id hid hmem
      exact (List.nodup_append.1 hdrawn).2.2 id hmem id (List.mem_filterMap.2 ⟨x, List.mem_singleton.2 rfl, hid⟩) rfl
    obtain ⟨op, handles', hshow, hop, hinv'⟩ := hinv.step hstep hfresh
    exact ⟨ops ++ [op], handles', List.rel_append hshows (.cons hshow .nil), hruns.step hop, hinv'⟩

end Server

/-! ## A handle's life -/

namespace Exchange

/-- The handle an exchange is about. -/
def about : Exchange → Option String
  | .opened _ response => some response.workbookId
  | .closed id _ | .definedNames id _ | .stream id _ => some id
  | .metadata id _ => if id.isEmpty then none else some id
  | .refused _ | .quiet => none

/-- There is no such workbook. -/
inductive Unknown (id : String) : Exchange → Prop where
  | closed : Unknown id (.closed id false)
  | metadata : Unknown id (.metadata id (.error (unknownWorkbook id)))
  | definedNames : Unknown id (.definedNames id (.error (unknownWorkbook id)))
  | stream : Unknown id (.stream id (.error (unknownWorkbook id)))

/-- What is answered about `entry`, or set going on it. -/
inductive Tells (id : String) (entry : WorkbookEntry) : Exchange → Prop where
  | metadata : Tells id entry (.metadata id (.ok (metadataResponse entry)))
  | definedNames : Tells id entry (.definedNames id (.ok entry.metadata.definedNames))
  | stream : Tells id entry (.stream id (.ok entry))
  | full : Tells id entry (.stream id (.error tooManyStreams))

/-- The exchanges about a handle, and what it stands for after them. -/
inductive Life (id : String) : List Exchange → Except Status WorkbookEntry → Prop where
  | unopened {xs} : (∀ x ∈ xs, x.about = some id → x.Unknown id) → Life id xs (.error (unknownWorkbook id))
  | open {before since entry} : (∀ x ∈ before, x.about = some id → x.Unknown id) →
      (∀ x ∈ since, x.about = some id → x.Tells id entry) →
      Life id (before ++ .opened entry.bytes (openResponse id entry) :: since) (.ok entry)
  /-- Closed by name, or swept. -/
  | ended {before since rest tail entry} : (∀ x ∈ before, x.about = some id → x.Unknown id) →
      (∀ x ∈ since, x.about = some id → x.Tells id entry) → (rest = tail ∨ rest = .closed id true :: tail) →
      (∀ x ∈ tail, x.about = some id → x.Unknown id) →
      Life id (before ++ .opened entry.bytes (openResponse id entry) :: (since ++ rest)) (.error (unknownWorkbook id))

section shows

variable {x : Exchange} {op : Op String WorkbookEntry} {id : String} {xs : List Exchange}
  {ops : List (Op String WorkbookEntry)}

theorem Shows.key (h : x.Shows op) (hid : x.about = some id) : op.key = some id := by
  cases h with
  | metadata id' _ | noMetadata id' =>
    simp only [about] at hid
    split at hid
    · cases hid
    · exact hid
  | uiInfo | refused _ | quiet => cases hid
  | _ => exact hid

theorem Shows.unknown (h : x.Shows op) (hop : op.Misses id) (hid : x.about = some id) : x.Unknown id := by
  rcases hop (h.key hid) with rfl | rfl
  · cases h with
    | noMetadata => exact .metadata
    | noDefinedNames => exact .definedNames
    | noStream => exact .stream
  · cases h with
    | closed => exact .closed

theorem Shows.tells {entry : WorkbookEntry} (h : x.Shows op) (hop : op.Finds id entry) (hid : x.about = some id) :
    x.Tells id entry := by
  obtain rfl := hop (h.key hid)
  cases h with
  | metadata => exact .metadata
  | definedNames => exact .definedNames
  | stream => exact .stream
  | streamFull => exact .full

theorem forall_of_shows {P : Exchange → Prop} {Q : Op String WorkbookEntry → Prop} (h : List.Forall₂ Shows xs ops)
    (hall : ∀ op ∈ ops, Q op) (hone : ∀ x op, x.Shows op → Q op → P x) : ∀ x ∈ xs, P x := by
  induction h with
  | nil => exact fun _ hx => absurd hx List.not_mem_nil
  | cons hshow _ ih =>
    intro x hx
    rcases List.mem_cons.1 hx with rfl | hx
    · exact hone _ _ hshow (hall _ List.mem_cons_self)
    · exact ih (fun op hop => hall op (List.mem_cons_of_mem _ hop)) x hx

theorem unknown_of_shows (h : List.Forall₂ Shows xs ops) (hmisses : ∀ op ∈ ops, op.Misses id) :
    ∀ x ∈ xs, x.about = some id → x.Unknown id := forall_of_shows h hmisses fun _ _ => Shows.unknown

theorem tells_of_shows {entry : WorkbookEntry} (h : List.Forall₂ Shows xs ops) (hfinds : ∀ op ∈ ops, op.Finds id entry) :
    ∀ x ∈ xs, x.about = some id → x.Tells id entry := forall_of_shows h hfinds fun _ _ => Shows.tells

/-- What is shown by a list is shown piece by piece. -/
theorem shows_append {ops' : List (Op String WorkbookEntry)} (h : List.Forall₂ Shows xs (ops ++ ops')) :
    ∃ ys ys', xs = ys ++ ys' ∧ List.Forall₂ Shows ys ops ∧ List.Forall₂ Shows ys' ops' :=
  ⟨xs.take ops.length, xs.drop ops.length, (List.take_append_drop _ _).symm, List.forall₂_take_append _ _ _ h,
    List.forall₂_drop_append _ _ _ h⟩

end shows

theorem Life.of_shows {xs : List Exchange} {ops : List (Op String WorkbookEntry)} {id : String}
    {handle : State WorkbookEntry} (h : List.Forall₂ Shows xs ops) (hlife : Handles.Life id ops handle) :
    (handle.Dead → Life id xs (.error (unknownWorkbook id))) ∧
      ∀ entry, handle = .live entry → Life id xs (.ok entry) := by
  cases hlife with
  | unused hmisses => exact ⟨fun _ => .unopened (unknown_of_shows h hmisses), fun _ hlive => by cases hlive⟩
  | live hmisses hfinds =>
    obtain ⟨before, ys, rfl, hbefore, hys⟩ := shows_append h
    cases hys with
    | cons hshow hsince =>
      cases hshow with
      | opened _ entry =>
        refine ⟨fun hdead => absurd rfl (hdead _), ?_⟩
        rintro _ ⟨⟩
        exact .open (unknown_of_shows hbefore hmisses) (tells_of_shows hsince hfinds)
  | gone hmisses hfinds hover =>
    obtain ⟨before, ys, rfl, hbefore, hys⟩ := shows_append h
    cases hys with
    | cons hshow hys =>
      obtain ⟨since, rest, rfl, hsince, hrest⟩ := shows_append hys
      cases hshow with
      | opened _ entry =>
        refine ⟨fun _ => ?_, fun _ hlive => by cases hlive⟩
        obtain ⟨tail, rfl | rfl, htail⟩ := hover
        · exact .ended (unknown_of_shows hbefore hmisses) (tells_of_shows hsince hfinds) (.inl rfl)
            (unknown_of_shows hrest htail)
        · cases hrest with
          | cons hshow hrest =>
            cases hshow with
            | closed =>
              exact .ended (unknown_of_shows hbefore hmisses) (tells_of_shows hsince hfinds) (.inr rfl)
                (unknown_of_shows hrest htail)

end Exchange

namespace Server

/-- Whatever the server does at a time, what it answers about one id is one
life: unknown, then the workbook opened from the bytes of the one upload that
drew it and nothing else, then, once it is closed or swept, unknown for good. -/
theorem answers_tell_one_life {limits : ServerLimits} {zip : List UInt8 → Option (List (Option Entry))}
    {calamine : Calamine.Opener} {xs : List Exchange} {s : Server} (h : Runs limits zip calamine xs s)
    (hdrawn : (xs.filterMap Exchange.drawn).Nodup) (id : String) :
    Exchange.Life id xs (s.getEntry id) ∧
      ∀ entry, s.getEntry id = .ok entry → limits.opens.formats.accepts entry.format = true := by
  obtain ⟨ops, handles, hshows, hruns, hinv⟩ := runs_handles h hdrawn
  obtain ⟨hdead, hlive⟩ := Exchange.Life.of_shows hshows (Handles.runs_life hruns id)
  rcases hinv.getEntry id with ⟨hnone, hget⟩ | ⟨entry, hsome, hget⟩
  · rw [hget]
    exact ⟨hdead hnone, fun _ hok => by cases hok⟩
  · rw [hget]
    refine ⟨hlive entry hsome, ?_⟩
    rintro _ ⟨⟩
    exact (hinv.entries id entry hsome).accepted

/-- A server of xlsx workbooks only. -/
def xlsxServer : ServerLimits := ⟨⟨100, "30s", none, ⟨fun _ => true⟩⟩, Store.xlsxOnly⟩

/-- What the zip reader finds in any upload: a picture of two bytes. -/
def onePicture : List UInt8 → Option (List (Option Entry)) := fun _ =>
  some [some ⟨"a.png", [.ok [1, 2]], fun _ h => by cases List.mem_singleton.1 h; decide⟩]

/-- The store once three bytes are open under an id, whose readers keep two. -/
def openedStore : Store :=
  { Store.withLimits Store.xlsxOnly.store with
    budget := ⟨5, 100⟩, registered := 1, workbooks := [.ofOpen "a" 0 ⟨3, 2⟩ 0] }

/-- A client uploads three bytes. -/
theorem runs_opened : ∃ entry, entry.bytes = [1, 2, 3] ∧ entry.size = ⟨3, 2⟩ ∧
    Runs xlsxServer onePicture Store.opensAsXlsx
      [.quiet, .quiet, .quiet, .quiet, .opened [1, 2, 3] (openResponse "a" entry)]
      ⟨openedStore, [], [], [("a", entry)]⟩ := by
  obtain ⟨entry, hparse⟩ : ∃ entry,
      Store.parse Store.xlsxOnly Store.opensAsXlsx [1, 2, 3] .xlsx none ⟨3, 2⟩ = .ok entry := ⟨_, rfl⟩
  have hentry : entry.bytes = [1, 2, 3] ∧ entry.size = ⟨3, 2⟩ := by
    cases hparse
    exact ⟨rfl, rfl⟩
  let empty := Store.withLimits Store.xlsxOnly.store
  let reserved : Store := { empty with budget := ⟨5, 100⟩, pending := 1, reservations := [⟨3, 2⟩] }
  have h₁ : Runs xlsxServer onePicture Store.opensAsXlsx [.quiet] ⟨empty, [.options], [], []⟩ := .step .start .begin
  have h₂ : Runs xlsxServer onePicture Store.opensAsXlsx [.quiet, .quiet]
      ⟨empty, [.chunks (.xlsx, none) []], [], []⟩ :=
    h₁.step (@Step.frame _ _ _ _ 0 _ _ ⟨.frame ⟨some (.options ⟨2, none⟩)⟩, _⟩ 0 (Nat.le_refl 0) rfl (fun _ => rfl) rfl)
  have h₃ : Runs xlsxServer onePicture Store.opensAsXlsx [.quiet, .quiet, .quiet]
      ⟨empty, [.chunks (.xlsx, none) [1, 2, 3]], [], []⟩ :=
    h₂.step (@Step.frame _ _ _ _ 0 _ _ ⟨.frame ⟨some (.chunk [1, 2, 3])⟩, _⟩ 0 (Nat.le_refl 0) rfl (fun _ => rfl) rfl)
  have h₄ : Runs xlsxServer onePicture Store.opensAsXlsx [.quiet, .quiet, .quiet, .quiet]
      ⟨reserved, [], [⟨[1, 2, 3], .xlsx, none, ⟨3, 2⟩⟩], []⟩ :=
    h₃.step (@Step.parse _ _ _ _ 0 _ (.xlsx, none) [1, 2, 3] 0 ⟨3, 2⟩ reserved (Nat.le_refl 0) rfl rfl rfl)
  exact ⟨entry, hentry.1, hentry.2, h₄.step (@Step.register _ _ _ _ 0 ⟨[1, 2, 3], .xlsx, none, ⟨3, 2⟩⟩ entry 0 "a"
    openedStore (Nat.le_refl 0) rfl hparse rfl)⟩

/-- The client asks about the workbook, closes it and asks again. -/
theorem answers_tell_one_life_closed : ∃ entry, entry.bytes = [1, 2, 3] ∧
    Exchange.Life "a" [.quiet, .quiet, .quiet, .quiet, .opened [1, 2, 3] (openResponse "a" entry),
      .metadata "a" (.ok (metadataResponse entry)), .closed "a" true, .metadata "a" (.error (unknownWorkbook "a"))]
      (.error (unknownWorkbook "a")) := by
  obtain ⟨entry, hbytes, -, hopened⟩ := runs_opened
  have hasked := hopened.step (@Step.metadata _ _ _ _ "a" 0 _ (Nat.le_refl 0) rfl rfl)
  have hclosed := hasked.step (@Step.close _ _ _ _ "a" 0 _ _ (Nat.le_refl 0) rfl)
  have hgone := hclosed.step (@Step.metadata _ _ _ _ "a" 0 _ (Nat.le_refl 0) rfl rfl)
  exact ⟨entry, hbytes, (answers_tell_one_life hgone (List.nodup_singleton "a") "a").1⟩

end Server

end GrpcCalamine
