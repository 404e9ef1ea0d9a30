import GrpcCalamine.Store.Coverage
/-!
# Turns of a workbook's readers

The steps of `Workbook.ReaderStep` as a function: what a call of `reader`, the
reader it gave out, or the drop of that reader does next, against the budget it
finds. Each turn is a step (`turn_step`), and touches nothing of the workbook
but its pool and who has readers of it (`turn_frame`).
-/

namespace GrpcCalamine

/-- What is done next, `i` being whose turn it is among the workbook's
hands. -/
inductive Turn where
  /-- `ReaderPool::take`. -/
  | look
  /-- `Budget::take`, the pool being empty. -/
  | charge (i : Nat)
  /-- `open_as` is through: calamine opens the bytes again, or it fails or
  panics. -/
  | reopen (i : Nat) (readable : Bool)
  /-- `PooledReader::drop`. -/
  | putBack (i : Nat)
  /-- The drop of a reader that is not kept, and of its charge. -/
  | discard (i : Nat)
  deriving DecidableEq

/-- A list around its `i`th element. -/
theorem split_getElem? {α : Type} {l : List α} {i : Nat} {x : α} (h : l[i]? = some x) :
    l = l.take i ++ x :: l.drop (i + 1) ∧ l.eraseIdx i = l.take i ++ l.drop (i + 1) ∧
      ∀ y, l.set i y = l.take i ++ y :: l.drop (i + 1) := by
  obtain ⟨hi, rfl⟩ := List.getElem?_eq_some_iff.1 h
  refine ⟨?_, List.eraseIdx_eq_take_drop_succ _ _, fun y => List.set_eq_take_append_cons_drop.trans (if_pos hi)⟩
  rw [List.getElem_cons_drop, List.take_append_drop]

namespace Workbook

/-- The workbook and the budget after a turn, where it can be taken. -/
def turn (w : Workbook) (budget : Budget) : Turn → Option (Workbook × Budget)
  | .look =>
    if w.holders = 0 then none
    else match w.pool.take with
      | some (reader, pool) => some ({ w with pool := pool, hands := w.hands ++ [.out reader] }, budget)
      | none => some ({ w with hands := w.hands ++ [.asking] }, budget)
  | .charge i =>
    match w.hands[i]? with
    | some .asking => match budget.take w.size.readerBytes with
      | .ok budget => some ({ w with hands := w.hands.set i (.opening ⟨w.size.readerBytes⟩) }, budget)
      | .error _ => some ({ w with hands := w.hands.eraseIdx i }, budget)
    | _ => none
  | .reopen i readable =>
    match w.hands[i]? with
    | some (.opening charge) =>
      if readable then
        some ({ w with hands := w.hands.set i (.out (⟨w.opened⟩, some charge)), opened := w.opened + 1 }, budget)
      else some ({ w with hands := w.hands.eraseIdx i }, budget.give charge.bytes)
    | _ => none
  | .putBack i =>
    match w.hands[i]? with
    | some (.out reader) =>
      let dropped := ((w.pool.park reader).2.map Hand.dropping).toList
      some ({ w with pool := (w.pool.park reader).1, hands := w.hands.take i ++ (dropped ++ w.hands.drop (i + 1)) },
        budget)
    | _ => none
  | .discard i =>
    match w.hands[i]? with
    | some (.dropping (_, charge)) =>
      some ({ w with hands := w.hands.eraseIdx i }, match charge with
        | some charge => budget.give charge.bytes
        | none => budget)
    | _ => none

/-- An RPC that holds the workbook can end: another does, or no call of
`reader` is running. -/
def releasable (w : Workbook) : Bool := 1 < w.holders || w.hands.all fun hand => !hand.calling

variable {w w' : Workbook} {budget budget' : Budget} {t : Turn}

/-- A turn is a step of the workbook's readers. -/
theorem turn_step (h : w.turn budget t = some (w', budget')) : ∃ e, w.ReaderStep e w' ∧ e.On budget budget' := by
  cases t with
  | look =>
    simp only [turn] at h
    split at h
    · cases h
    · rename_i hheld
      have hpos : 0 < w.holders := Nat.pos_of_ne_zero hheld
      split at h
      · cases h
        exact ⟨.quiet, .reuse hpos (by assumption), rfl⟩
      · cases h
        exact ⟨.quiet, .ask hpos (by assumption), rfl⟩
  | charge i =>
    simp only [turn] at h
    split at h
    · rename_i hi
      obtain ⟨hhands, herase, hset⟩ := split_getElem? hi
      split at h
      · rename_i hok
        cases h
        rw [hset]
        exact ⟨_, .charge hhands, hok⟩
      · rename_i held herror
        cases h
        rw [herase]
        exact ⟨_, .refused hhands, Budget.take_error herror ▸ herror, rfl⟩
    · cases h
  | reopen i readable =>
    simp only [turn] at h
    split at h
    · rename_i charge hi
      obtain ⟨hhands, herase, hset⟩ := split_getElem? hi
      split at h
      · cases h
        rw [hset]
        exact ⟨.quiet, .reopened hhands, rfl⟩
      · cases h
        rw [herase]
        exact ⟨_, .unreadable hhands, rfl⟩
    · cases h
  | putBack i =>
    simp only [turn] at h
    split at h
    · rename_i reader hi
      obtain ⟨hhands, -, -⟩ := split_getElem? hi
      cases h
      exact ⟨.quiet, .putBack hhands, rfl⟩
    · cases h
  | discard i =>
    simp only [turn] at h
    split at h
    · rename_i reader charge hi
      obtain ⟨hhands, herase, -⟩ := split_getElem? hi
      cases h
      rw [herase]
      cases charge with
      | some charge => exact ⟨_, .discard hhands, rfl⟩
      | none => exact ⟨.quiet, .forget hhands, rfl⟩
    · cases h

/-- What a turn leaves alone. -/
theorem turn_frame (h : w.turn budget t = some (w', budget')) :
    w'.id = w.id ∧ w'.identity = w.identity ∧ w'.lastUsed = w.lastUsed ∧ w'.holders = w.holders := by
  cases t with
  | look =>
    simp only [turn] at h
    split at h
    · cases h
    split at h <;> cases h <;> exact ⟨rfl, rfl, rfl, rfl⟩
  | charge i | reopen i readable =>
    simp only [turn] at h
    split at h
    · split at h <;> cases h <;> exact ⟨rfl, rfl, rfl, rfl⟩
    · cases h
  | putBack i | discard i =>
    simp only [turn] at h
    split at h
    · cases h
      exact ⟨rfl, rfl, rfl, rfl⟩
    · cases h

/-- A workbook whose RPC can end. -/
theorem releasable_iff : w.releasable = true ↔ 1 < w.holders ∨ ∀ hand ∈ w.hands, hand.calling = false := by
  simp [releasable]

end Workbook

end GrpcCalamine
