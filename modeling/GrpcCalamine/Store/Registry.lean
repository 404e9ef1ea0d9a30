import GrpcCalamine.Store.Pool
import GrpcCalamine.Lib.Transition
/-!
# The store and its critical sections

`WorkbookStore` of `src/store.rs`, used by any number of threads at once. The
registry's write lock is held across several steps (`Writer`), and in between
readers take from the budget and give back to it under the budget's own lock.
A critical section that changes nothing (a refused `close`, the first check of
`admits`) is no step.

The clock and who calls what are free; so is the outcome of parsing.
-/

namespace GrpcCalamine

/-- What a thread holding the registry's write lock sweeps for. -/
inductive Goal where
  | evictIdle
  | admits (bytes : Nat)
  | reserve (size : Footprint)

/-- Where the holder of the registry's write lock is: closing idle workbooks
as of `now`, of which `todo` are left to look at and `freed` is to be given
back; done sweeping; about to take a reservation's bytes; or about to give
back the bytes of what it removed. -/
inductive Writer where
  | sweeping (now : Nat) (todo : List String) (freed : Nat) (goal : Goal)
  | swept (goal : Goal)
  | taking (size : Footprint)
  | giving (bytes : Nat)

namespace Workbook

/-- `Arc::strong_count(entry) > 1`: someone besides the registry has it. -/
def busy (w : Workbook) : Bool := 0 < w.holders

/-- What a sweep as of `now` makes of a registered workbook: it is in use, or
not idle for long enough, or closed. -/
def sweep (ttl now : Nat) (w : Workbook) : Workbook :=
  if w.busy then { w with lastUsed := now }
  else if now - w.lastUsed < ttl then w
  else { w with id := none }

/-- The bytes the sweep adds to those it gives back. -/
def freed (ttl now : Nat) (w : Workbook) : Nat :=
  if (w.sweep ttl now).id = none then w.size.heldBytes else 0

end Workbook

structure Store where
  budget : Budget
  workbooks : List Workbook
  /-- Workbooks registered so far. -/
  registered : Nat
  /-- Opens admitted but not yet registered, as the registry counts them. -/
  pending : Nat
  /-- What they reserved. -/
  reservations : List Footprint
  /-- Readers of workbooks nobody holds any more, on their way out. -/
  dying : List ParkedReader
  writer : Option Writer
  now : Nat

namespace Store

def withLimits (limits : StoreLimits) : Store :=
  { budget := ⟨0, limits.maxStoreBytes⟩, workbooks := [], registered := 0, pending := 0, reservations := [], dying := [],
    writer := none, now := 0 }

/-- The registered workbooks. -/
def entries (s : Store) : List Workbook := s.workbooks.filter (·.id.isSome)

/-- The steps of the store's threads. -/
inductive Step (limits : StoreLimits) : Store → Effect → Store → Prop where
  | tick {s now} : s.now ≤ now → Step limits s .quiet { s with now := now }
  /-- `evict_idle`, `admits` that the first check refused, or `reserve` takes
  the write lock and starts to sweep. -/
  | lock {s todo} (goal : Goal) : s.writer = none → todo.Perm (s.entries.filterMap (·.id)) →
      Step limits s .quiet
        { s with writer := some (if limits.idleTtl = 0 then .swept goal else .sweeping s.now todo 0 goal) }
  /-- One call of the closure that `sweep` retains by. -/
  | sweepEntry {s now id todo freed goal pre w post} : s.writer = some (.sweeping now (id :: todo) freed goal) →
      s.workbooks = pre ++ w :: post → w.id = some id →
      Step limits s .quiet
        { s with workbooks := pre ++ w.sweep limits.idleTtl now :: post,
                 writer := some (.sweeping now todo ((freed + w.freed limits.idleTtl now) % 2 ^ 64) goal) }
  | sweepDone {s now freed goal budget} : s.writer = some (.sweeping now [] freed goal) →
      (Effect.gave freed).On s.budget budget →
      Step limits s (.gave freed) { s with budget := budget, writer := some (.swept goal) }
  /-- `evict_idle` and `admits` are through; `reserve` is, if nothing fits. -/
  | unlock {s goal} : s.writer = some (.swept goal) →
      (∀ size, goal = .reserve size →
        ∃ e, fits limits s.entries.length s.pending s.budget size.heldBytes = .error e) →
      Step limits s .quiet { s with writer := none }
  | fits {s size} : s.writer = some (.swept (.reserve size)) →
      fits limits s.entries.length s.pending s.budget size.heldBytes = .ok () →
      Step limits s .quiet { s with writer := some (.taking size) }
  | reserve {s size budget} : s.writer = some (.taking size) → (Effect.took size.heldBytes).On s.budget budget →
      Step limits s (.took size.heldBytes)
        { s with budget := budget, pending := s.pending + 1, reservations := s.reservations ++ [size], writer := none }
  /-- Readers took the room between the check and the take. -/
  | outrun {s size budget} : s.writer = some (.taking size) → (Effect.denied size.heldBytes).On s.budget budget →
      Step limits s (.denied size.heldBytes) { s with budget := budget, writer := none }
  /-- `Reservation::register`, under a fresh id. -/
  | register {s pre size post openedAt} (id : String) : s.writer = none → s.reservations = pre ++ size :: post →
      (∀ w ∈ s.workbooks, w.id ≠ some id) → openedAt ≤ s.now →
      Step limits s .unpended
        { s with pending := s.pending - 1, reservations := pre ++ post, registered := s.registered + 1,
                 workbooks := s.workbooks ++ [.ofOpen id s.registered size openedAt] }
  /-- `Reservation::drop`: the parse failed or panicked. -/
  | abandon {s pre size post} : s.writer = none → s.reservations = pre ++ size :: post →
      Step limits s .unpended
        { s with pending := s.pending - 1, reservations := pre ++ post, writer := some (.giving size.heldBytes) }
  /-- `close` of a registered workbook. -/
  | close {s pre w post} (id : String) : s.writer = none → s.workbooks = pre ++ w :: post → w.id = some id →
      Step limits s .quiet
        { s with workbooks := pre ++ { w with id := none } :: post, writer := some (.giving w.size.heldBytes) }
  /-- `close` and `Reservation::drop` give back, and release the lock. -/
  | give {s bytes budget} : s.writer = some (.giving bytes) → (Effect.gave bytes).On s.budget budget →
      Step limits s (.gave bytes) { s with budget := budget, writer := none }
  | get {s pre w post} (id : String) : s.writer = none → s.workbooks = pre ++ w :: post → w.id = some id →
      Step limits s .quiet { s with workbooks := pre ++ { w with holders := w.holders + 1 } :: post }
  /-- `get` records the use, the lock released. -/
  | touch {s pre w post usedAt} : s.workbooks = pre ++ w :: post → 0 < w.holders → usedAt ≤ s.now →
      Step limits s .quiet { s with workbooks := pre ++ { w with lastUsed := usedAt } :: post }
  | reader {s pre w w' post e budget} : s.workbooks = pre ++ w :: post → w.ReaderStep e w' → e.On s.budget budget →
      Step limits s e { s with budget := budget, workbooks := pre ++ w' :: post }
  /-- Nobody has the workbook any more: its pool goes. -/
  | vanish {s pre w post} : s.workbooks = pre ++ w :: post → w.id = none → w.holders = 0 → w.hands = [] →
      Step limits s .quiet { s with workbooks := pre ++ post, dying := s.dying ++ w.pool.free }
  | die {s pre reader post budget} (e : Effect) : s.dying = pre ++ reader :: post →
      e = (match reader.2 with | some charge => .gave charge.bytes | none => .quiet) → e.On s.budget budget →
      Step limits s e { s with budget := budget, dying := pre ++ post }

/-- A run of a store with `limits`, from its creation. -/
abbrev Runs (limits : StoreLimits) (es : List Effect) (s : Store) : Prop :=
  Transition.Run (Step limits) (withLimits limits) es s

variable {limits : StoreLimits} {es : List Effect} {s : Store}

/-! ## Runs of one thread -/

/-- An open that nothing interrupts, with nothing to sweep. -/
theorem runs_open (httl : limits.idleTtl = 0) (h : Runs limits es s) (hw : s.writer = none) (size : Footprint)
    (hroom : s.entries.length + s.pending < limits.maxOpenWorkbooks)
    (hmax : s.budget.max = limits.maxStoreBytes)
    (hfit : satAdd s.budget.held size.heldBytes ≤ limits.maxStoreBytes) (id : String)
    (hfresh : ∀ w ∈ s.workbooks, w.id ≠ some id) :
    ∃ es', Runs limits es' { s with budget := ⟨(s.budget.held + size.heldBytes) % 2 ^ 64, s.budget.max⟩,
                                    registered := s.registered + 1,
                                    workbooks := s.workbooks ++ [.ofOpen id s.registered size s.now] } := by
  obtain ⟨budget, workbooks, registered, pending, reservations, dying, writer, now⟩ := s
  obtain rfl : writer = none := hw
  have hlock := Transition.Run.step h (.lock (.reserve size) rfl (.refl _))
  rw [if_pos httl] at hlock
  have hfits := hlock.step (.fits rfl ((if_neg (Nat.not_le.2 hroom)).trans (if_neg (Nat.not_lt.2 hfit))))
  have hreserve := hfits.step (.reserve rfl (if_neg (hmax ▸ Nat.not_lt.2 hfit)))
  have hregister := hreserve.step (.register id rfl rfl hfresh (Nat.le_refl _))
  exact ⟨_, by simpa using hregister⟩

/-- The first open of a store. -/
theorem runs_first (limits : StoreLimits) (size : Footprint) (httl : limits.idleTtl = 0)
    (hroom : 0 < limits.maxOpenWorkbooks) (hfit : satAdd 0 size.heldBytes ≤ limits.maxStoreBytes) (id : String) :
    ∃ es, Runs limits es { withLimits limits with budget := ⟨(0 + size.heldBytes) % 2 ^ 64, limits.maxStoreBytes⟩,
                                                  registered := 1, workbooks := [.ofOpen id 0 size 0] } :=
  runs_open httl .start rfl size hroom rfl hfit id nofun

/-- A call of `reader` that finds one parked. -/
theorem runs_reuse (h : Runs limits es s) (pre post : List Workbook) {w : Workbook}
    (hwb : s.workbooks = pre ++ w :: post) (hheld : 0 < w.holders) {reader : ParkedReader} {pool : ReaderPool}
    (htake : w.pool.take = some (reader, pool)) :
    ∃ es', Runs limits es'
      { s with workbooks := pre ++ { w with pool := pool, hands := w.hands ++ [.out reader] } :: post } :=
  ⟨_, Transition.Run.step h (.reader hwb (.reuse hheld htake) rfl)⟩

/-- A close that nothing interrupts. -/
theorem runs_close (h : Runs limits es s) (hw : s.writer = none) (pre post : List Workbook) {w : Workbook}
    (hwb : s.workbooks = pre ++ w :: post) (id : String) (hid : w.id = some id) :
    ∃ es', Runs limits es' { s with budget := s.budget.give w.size.heldBytes,
                                    workbooks := pre ++ { w with id := none } :: post } := by
  obtain ⟨held, workbooks, registered, pending, reservations, dying, writer, now⟩ := s
  obtain rfl : writer = none := hw
  exact ⟨_, (Transition.Run.step h (.close id rfl hwb hid)).step (.give rfl rfl)⟩

end Store

end GrpcCalamine
