import GrpcCalamine.Lib.Saturating
/-!
# The byte budget

`Budget`, `StoreLimits` and `WorkbookStore::fits` of `src/store.rs`. Byte
counts are `u64`s: an addition the source leaves unchecked wraps.
-/

namespace GrpcCalamine

/-- Bounds on what the store holds, and for how long. -/
structure StoreLimits where
  maxOpenWorkbooks : Nat
  maxStoreBytes : Nat
  idleTtl : Nat

/-- A configured limit that opening a workbook would pass. -/
inductive LimitExceeded where
  | openWorkbooks (max : Nat)
  | readerBytes (needed held max : Nat)
  | storeBytes (needed held max : Nat)
  | picture (name : String) (max : Nat)
  | pictureTotal (max : Nat)
  | sharedStrings (name : String) (max : Nat)
  deriving DecidableEq

/-- The byte budget the open workbooks and their extra readers share. -/
structure Budget where
  held : Nat
  max : Nat
  deriving DecidableEq

namespace Budget

/-- Take `bytes` if they fit, or return what is already held. -/
def take (b : Budget) (bytes : Nat) : Except Nat Budget :=
  if satAdd b.held bytes > b.max then .error b.held else .ok { b with held := (b.held + bytes) % 2 ^ 64 }

def give (b : Budget) (bytes : Nat) : Budget := { b with held := b.held - bytes }

@[simp] theorem give_max (b : Budget) (bytes : Nat) : (b.give bytes).max = b.max := rfl

@[simp] theorem give_held (b : Budget) (bytes : Nat) : (b.give bytes).held = b.held - bytes := rfl

theorem take_max {b b' : Budget} {bytes : Nat} (h : b.take bytes = .ok b') : b'.max = b.max := by
  unfold take at h
  split at h
  · cases h
  · cases h
    rfl

/-- A refusal tells what is held. -/
theorem take_error {b : Budget} {bytes held : Nat} (h : b.take bytes = .error held) : held = b.held := by
  unfold take at h
  split at h <;> cases h
  rfl

/-- What is taken without a wrap fits. -/
theorem take_exact {b b' : Budget} {bytes : Nat} (hfit : b.held + bytes < 2 ^ 64) (h : b.take bytes = .ok b') :
    b'.held = b.held + bytes ∧ b.held + bytes ≤ b.max := by
  unfold take at h
  split at h
  · cases h
  · rename_i hle
    cases h
    rw [satAdd_eq (by unfold U64_MAX; omega)] at hle
    exact ⟨Nat.mod_eq_of_lt hfit, Nat.not_lt.1 hle⟩

/-- Below the largest `u64`, what is taken fits, and nothing wraps. -/
theorem take_held {b b' : Budget} {bytes : Nat} (hmax : b.max < U64_MAX) (h : b.take bytes = .ok b') :
    b'.held = b.held + bytes ∧ b.held + bytes ≤ b.max := by
  apply take_exact _ h
  unfold take at h
  split at h
  · cases h
  · rename_i hfit
    have hle := (satAdd_le_iff hmax).1 (Nat.not_lt.1 hfit)
    unfold U64_MAX at hmax
    omega

end Budget

/-- What one critical section does to the budget, or to the count of opens in
progress. -/
inductive Effect where
  | quiet
  | took (bytes : Nat)
  | denied (bytes : Nat)
  | gave (bytes : Nat)
  | unpended

namespace Effect

def On : Effect → Budget → Budget → Prop
  | took bytes, b, b' => b.take bytes = .ok b'
  | denied bytes, b, b' => b.take bytes = .error b.held ∧ b' = b
  | gave bytes, b, b' => b' = b.give bytes
  | quiet, b, b' | unpended, b, b' => b' = b

def takes : Effect → Nat
  | took bytes => bytes
  | _ => 0

def gives : Effect → Nat
  | gave bytes => bytes
  | _ => 0

theorem On.max {e : Effect} {b b' : Budget} (h : e.On b b') : b'.max = b.max := by
  cases e with
  | took bytes => exact Budget.take_max h
  | denied bytes => rw [h.2]
  | gave bytes => rw [h, Budget.give_max]
  | quiet => rw [h]
  | unpended => rw [h]

/-- What an effect does to the bytes held, when it wraps nothing and gives back
no more than that. -/
theorem On.held {e : Effect} {b b' : Budget} (hfit : b.held + e.takes < 2 ^ 64) (h : e.On b b') (hgive : e.gives ≤ b.held)
    (hle : b.held ≤ b.max) : b'.held + e.gives = b.held + e.takes ∧ b'.held ≤ b.max := by
  cases e with
  | took bytes =>
    obtain ⟨heq, hfit⟩ := Budget.take_exact hfit h
    exact ⟨heq, Nat.le_trans (Nat.le_of_eq heq) hfit⟩
  | denied bytes => rw [h.2]; exact ⟨rfl, hle⟩
  | gave bytes =>
    rw [h, Budget.give_held]
    exact ⟨Nat.sub_add_cancel hgive, Nat.le_trans (Nat.sub_le _ _) hle⟩
  | quiet => rw [h]; exact ⟨rfl, hle⟩
  | unpended => rw [h]; exact ⟨rfl, hle⟩

/-- Below the largest `u64` no effect wraps. -/
theorem On.fits {e : Effect} {b b' : Budget} (hmax : b.max < U64_MAX) (h : e.On b b') (hle : b.held ≤ b.max) :
    b.held + e.takes < 2 ^ 64 := by
  unfold U64_MAX at hmax
  cases e with
  | took bytes =>
    have hfit := (Budget.take_held hmax h).2
    simp only [takes]
    omega
  | _ =>
    simp only [takes]
    omega

/-- What was taken and not given back is at no time past the largest `u64`. -/
def Fit (es : List Effect) : Prop := ∀ past, past <+: es → (past.map takes).sum - (past.map gives).sum < 2 ^ 64

theorem Fit.past {es : List Effect} {e : Effect} (h : Fit (es ++ [e])) : Fit es :=
  fun _ hpast => h _ (hpast.trans (List.prefix_append _ _))

/-- What the last effect takes is within it, on top of what was held. -/
theorem Fit.takes {es : List Effect} {e : Effect} {held : Nat} (h : Fit (es ++ [e]))
    (hbal : (es.map Effect.takes).sum = (es.map Effect.gives).sum + held) : held + e.takes < 2 ^ 64 := by
  have hall := h _ (List.prefix_refl _)
  have hpast := h.past _ (List.prefix_refl _)
  simp only [List.map_append, List.sum_append, List.map_cons, List.map_nil, List.sum_singleton] at hall
  cases e with
  | took bytes =>
    simp only [Effect.takes, Effect.gives] at hall ⊢
    omega
  | _ =>
    simp only [Effect.takes]
    omega

end Effect

/-- What a workbook counts against the budget: its upload, and what one reader
of it keeps. -/
structure Footprint where
  upload : Nat
  readerBytes : Nat
  deriving DecidableEq

def Footprint.heldBytes (f : Footprint) : Nat := satAdd f.upload f.readerBytes

/-- Check that a workbook of `bytes` would fit beside the open ones. -/
def fits (limits : StoreLimits) (entries pending : Nat) (budget : Budget) (bytes : Nat) :
    Except LimitExceeded Unit :=
  if entries + pending ≥ limits.maxOpenWorkbooks then .error (.openWorkbooks limits.maxOpenWorkbooks)
  else if satAdd budget.held bytes > limits.maxStoreBytes then
    .error (.storeBytes bytes budget.held limits.maxStoreBytes)
  else .ok ()

theorem room_of_fits {limits : StoreLimits} {entries pending : Nat} {budget : Budget} {bytes : Nat} {u : Unit}
    (h : fits limits entries pending budget bytes = .ok u) : entries + pending < limits.maxOpenWorkbooks := by
  unfold fits at h
  split at h
  · cases h
  · omega

end GrpcCalamine
