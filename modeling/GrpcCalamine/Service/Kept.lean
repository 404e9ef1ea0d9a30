import GrpcCalamine.Service.Answers
import Mathlib.Algebra.Order.BigOperators.Group.List
/-!
# What the server keeps in memory

The uploads the server keeps are those registered and those being parsed. The
store's budget holds just what these are charged (`Inv.held`), and the charge of
each covers its bytes, so `max_store_bytes` bounds the bytes themselves.
-/

namespace GrpcCalamine

namespace Server

/-- What was registered of the workbooks that are open. -/
def kept (s : Server) : List WorkbookEntry := s.store.entries.filterMap fun w => w.id.bind fun id => s.entries.lookup id

/-- The charges of the readers there are beyond the first of each workbook:
being opened, out, or about to be given back. -/
def charges (s : Server) : List Charge := s.store.workbooks.flatMap Workbook.charges

/-- Elements that are all found are mapped as what they were found by. -/
theorem map_filterMap {α β γ : Type} {f : α → Option β} {g : β → γ} {k : α → γ} {l : List α}
    (h : ∀ a ∈ l, ∃ b, f a = some b ∧ g b = k a) : (l.filterMap f).map g = l.map k := by
  induction l with
  | nil => rfl
  | cons a l ih =>
    obtain ⟨b, hb, hsame⟩ := h a List.mem_cons_self
    rw [List.filterMap_cons_some hb, List.map_cons, List.map_cons, hsame,
      ih fun a' ha' => h a' (List.mem_cons_of_mem _ ha')]

section kept

variable {limits : ServerLimits} {xs : List Exchange} {s : Server} {handles : String → Handles.State WorkbookEntry}

/-- What is registered in the store is what an id stands for. -/
theorem Inv.live (h : Inv limits xs s handles) {w : Workbook} {id : String} (hw : w ∈ s.store.workbooks)
    (hid : w.id = some id) : ∃ entry, s.entries.lookup id = some entry ∧ entry.size = w.size ∧ entry.Ok limits := by
  obtain ⟨effects, hruns⟩ := h.runs
  have hentry := (Store.runs_unique hruns).entry hw hid
  have hagree := h.agree id
  rcases dead_or_live (handles id) with hdead | ⟨entry, hlive⟩
  · rw [hagree.dead hdead] at hentry
    cases hentry
  · rw [hlive] at hagree
    obtain ⟨⟨v, hv, hsize⟩, hlookup⟩ := hagree
    obtain rfl := Option.some.inj (hentry.symm.trans hv)
    exact ⟨entry, hlookup, hsize.symm, h.entries id entry hlive⟩

theorem Inv.kept_size (h : Inv limits xs s handles) : s.kept.map (·.size) = s.store.entries.map (·.size) := by
  refine map_filterMap fun w hw => ?_
  obtain ⟨hmem, hsome⟩ := List.mem_filter.1 hw
  obtain ⟨id, hid⟩ := Option.isSome_iff_exists.1 hsome
  obtain ⟨entry, hlookup, hsize, -⟩ := h.live hmem hid
  exact ⟨entry, by rw [hid, Option.bind_some, hlookup], hsize⟩

theorem Inv.mem_kept (h : Inv limits xs s handles) {entry : WorkbookEntry} :
    entry ∈ s.kept ↔ ∃ id, s.getEntry id = .ok entry := by
  constructor
  · intro hentry
    obtain ⟨w, hw, hfound⟩ := List.mem_filterMap.1 hentry
    obtain ⟨hmem, hsome⟩ := List.mem_filter.1 hw
    obtain ⟨id, hid⟩ := Option.isSome_iff_exists.1 hsome
    obtain ⟨effects, hruns⟩ := h.runs
    rw [hid, Option.bind_some] at hfound
    exact ⟨id, by rw [Server.getEntry, (Store.runs_unique hruns).entry hmem hid, hfound]⟩
  · rintro ⟨id, hget⟩
    rw [Server.getEntry] at hget
    split at hget
    · next w found hentry hlookup =>
      cases hget
      obtain ⟨hw, hid⟩ := Store.entry_spec hentry
      refine List.mem_filterMap.2 ⟨w, List.mem_filter.2 ⟨hw, ?_⟩, ?_⟩
      · rw [hid]
        rfl
      · rw [hid, Option.bind_some, hlookup]
    · cases hget

theorem Inv.kept_ok (h : Inv limits xs s handles) : ∀ entry ∈ s.kept, entry.Ok limits := by
  intro entry hentry
  obtain ⟨id, hget⟩ := h.mem_kept.1 hentry
  rcases h.getEntry id with ⟨-, hnone⟩ | ⟨entry', hlive, hget'⟩
  · rw [hnone] at hget
    cases hget
  · rw [hget'] at hget
    cases hget
    exact h.entries id entry hlive

/-- What dies with its workbook is charged nothing. -/
theorem chargedBytes_eq {store : Store} (hinv : Store.Inv limits.opens.store store) :
    store.chargedBytes = ((store.workbooks.flatMap Workbook.charges).map Charge.bytes).sum := by
  have hdying : (store.dying.map chargeBytes).sum = 0 := by
    refine List.sum_eq_zero fun bytes hbytes => ?_
    obtain ⟨reader, hreader, rfl⟩ := List.mem_map.1 hbytes
    rw [chargeBytes, hinv.dying reader hreader]
    rfl
  rw [Store.chargedBytes, hdying, Nat.add_zero]
  induction store.workbooks with
  | nil => rfl
  | cons w ws ih => rw [List.map_cons, List.sum_cons, ih, List.flatMap_cons, List.map_append, List.sum_append]; rfl

theorem Inv.held (hmax : limits.opens.store.maxStoreBytes < U64_MAX) (h : Inv limits xs s handles) :
    s.store.budget.held = (s.kept.map (·.size.heldBytes)).sum + (s.parses.map (·.size.heldBytes)).sum +
      (s.charges.map Charge.bytes).sum := by
  obtain ⟨effects, hruns⟩ := h.runs
  have hbalanced := Store.runs_balanced hmax hruns
  have hregistered : s.store.registeredBytes = (s.kept.map (·.size.heldBytes)).sum := by
    have hsizes := congrArg (List.map Footprint.heldBytes) h.kept_size
    rw [List.map_map, List.map_map] at hsizes
    exact congrArg List.sum hsizes.symm
  have hreserved : s.store.reservedBytes = (s.parses.map (·.size.heldBytes)).sum := by
    rw [Store.reservedBytes, h.reserved, List.map_map]
    rfl
  have hrest : s.store.writer = none := h.rest
  rw [hbalanced.held, Store.owed, hregistered, hreserved, chargedBytes_eq hbalanced.inv, Store.transit, hrest]
  rfl

end kept

/-- Charges that do not pass the budget cover the uploads. -/
theorem sum_upload_le {α : Type} (size : α → Footprint) {l : List α} {held : Nat}
    (hle : (l.map fun a => (size a).heldBytes).sum ≤ held) (hheld : held < U64_MAX) :
    (l.map fun a => (size a).upload).sum ≤ (l.map fun a => (size a).heldBytes).sum := by
  refine List.sum_le_sum fun a ha => ?_
  have hone : (size a).heldBytes ≤ held := (List.le_sum_of_mem (List.mem_map_of_mem ha)).trans hle
  have hfits : (size a).upload + (size a).readerBytes ≤ held := (satAdd_le_iff hheld).1 hone
  rw [Footprint.heldBytes, satAdd_eq (hfits.trans hheld.le)]
  exact Nat.le_add_right _ _

/-- Whatever the server does at a time, and however its opens end, its budget
holds just the charges of the workbooks that are open, of the uploads being
parsed, and of the readers beyond a workbook's first; the bytes of them all,
every upload kept whole, are within `max_store_bytes`, and the workbooks and
uploads are no more than `max_open_workbooks`. -/
theorem kept_within_limits {limits : ServerLimits} {zip : List UInt8 → Option (List (Option Entry))}
    {calamine : Calamine.Opener} {xs : List Exchange} {s : Server}
    (hmax : limits.opens.store.maxStoreBytes < U64_MAX) (h : Runs limits zip calamine xs s)
    (hdrawn : (xs.filterMap Exchange.drawn).Nodup) :
    s.store.budget.held = (s.kept.map (·.size.heldBytes)).sum + (s.parses.map (·.size.heldBytes)).sum +
        (s.charges.map Charge.bytes).sum ∧
      (∀ w ∈ s.store.workbooks, ∀ charge ∈ w.charges, charge.bytes = w.size.readerBytes) ∧
      (s.kept.map (·.bytes.length)).sum + (s.parses.map (·.bytes.length)).sum + (s.charges.map Charge.bytes).sum ≤
        limits.opens.store.maxStoreBytes ∧
      s.kept.length + s.parses.length ≤ limits.opens.store.maxOpenWorkbooks ∧
      ∀ entry, entry ∈ s.kept ↔ ∃ id, s.getEntry id = .ok entry := by
  obtain ⟨-, handles, -, -, hinv⟩ := runs_handles h hdrawn
  obtain ⟨effects, hruns⟩ := hinv.runs
  have hbalanced := Store.runs_balanced hmax hruns
  have hheld := hinv.held hmax
  refine ⟨hheld, fun w hw => (hbalanced.inv.covered w hw).own, ?_, ?_, fun _ => hinv.mem_kept⟩
  · have hlt : s.store.budget.held < U64_MAX := hbalanced.bounded.trans_lt hmax
    have hkeptHeld : (s.kept.map (·.size.heldBytes)).sum ≤ s.store.budget.held := by omega
    have hparsesHeld : (s.parses.map (·.size.heldBytes)).sum ≤ s.store.budget.held := by omega
    have hkept := sum_upload_le (fun entry : WorkbookEntry => entry.size) hkeptHeld hlt
    have hparses := sum_upload_le (fun p : Parsing => p.size) hparsesHeld hlt
    rw [List.map_congr_left fun entry hentry => (hinv.kept_ok entry hentry).sized] at hkept
    rw [List.map_congr_left fun p hp => (hinv.parses p hp).sized] at hparses
    have hbounded := hbalanced.bounded
    omega
  · have hkept : s.kept.length = s.store.entries.length := by
      have hlength := congrArg List.length hinv.kept_size
      rwa [List.length_map, List.length_map] at hlength
    have hparses : s.store.pending = s.parses.length := by
      rw [hbalanced.inv.pending, hinv.reserved, List.length_map]
    rw [hkept, ← hparses]
    exact hbalanced.inv.room

/-- Three bytes are open, and two streams read them at once: the second reader
is charged. -/
theorem kept_within_limits_read : ∃ (entry : WorkbookEntry) (s : Server),
    entry.bytes = [1, 2, 3] ∧ s.kept = [entry] ∧ s.charges = [⟨2⟩] ∧
    7 = ([entry].map (·.size.heldBytes)).sum + (s.parses.map (·.size.heldBytes)).sum +
      (s.charges.map Charge.bytes).sum := by
  obtain ⟨entry, hbytes, hsize, hopened⟩ := runs_opened
  have hturn : ∀ {s : Server} {xs : List Exchange} (turn : Turn) (store : Store),
      Runs xlsxServer onePicture Store.opensAsXlsx xs s → s.store.now = 0 →
      (s.clock 0).perform xlsxServer.opens.store (.reader 0 turn) = some store →
      Runs xlsxServer onePicture Store.opensAsXlsx (xs ++ [.quiet]) { s with store := store } :=
    fun turn store hruns hnow hs =>
      hruns.step (@Step.background _ _ _ _ (.reader 0 turn) 0 store (Nat.le_of_eq hnow) trivial hs)
  have hfirst := hturn .look _ hopened rfl rfl
  have hasked := hturn .look _ hfirst rfl rfl
  have hcharged := hturn (.charge 1) _ hasked rfl rfl
  have hread := hturn (.reopen 1 true) _ hcharged rfl rfl
  exact ⟨entry, _, hbytes, rfl, rfl, (kept_within_limits (by decide) hread (List.nodup_singleton "a")).1⟩

end Server

end GrpcCalamine
