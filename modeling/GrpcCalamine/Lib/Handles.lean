import GrpcCalamine.Lib.Transition
/-!
# A service of handles

What a service that hands out keys for what it keeps should look like from
outside: a key is drawn once, reads give what was put under it until it is
closed or given up, and it stands for nothing ever after (`Step`). What a run of
such a service does with a key is one `Life`: the key is missed, opened, found,
and missed again (`runs_life`).
-/

namespace Handles

variable {K C : Type}

/-- What is done with a key. -/
inductive Op (K C : Type) where
  | open (k : K) (c : C)
  | read (k : K) (found : Option C)
  | close (k : K) (was : Bool)
  | quiet

/-- What a key stands for. -/
inductive State (C : Type) where
  | unused
  | live (c : C)
  | gone

/-- There is nothing under the key, yet or any more. -/
def State.Dead (s : State C) : Prop := ∀ c, s ≠ .live c

/-- The key it is about. -/
def Op.key : Op K C → Option K
  | .open k _ | .read k _ | .close k _ => some k
  | .quiet => none

/-! ## A key's life -/

/-- It is about another key, or finds nothing under this one. -/
def Op.Misses (k : K) (op : Op K C) : Prop := op.key = some k → op = .read k none ∨ op = .close k false

/-- It is about another key, or finds `c` under this one. -/
def Op.Finds (k : K) (c : C) (op : Op K C) : Prop := op.key = some k → op = .read k (some c)

/-- Closed by name or given up, and nothing found after. -/
def Over (k : K) (ops : List (Op K C)) : Prop :=
  ∃ tail, (ops = tail ∨ ops = .close k true :: tail) ∧ ∀ op ∈ tail, op.Misses k

/-- What a key's state says of the operations so far. -/
inductive Life (k : K) : List (Op K C) → State C → Prop where
  | unused {ops} : (∀ op ∈ ops, op.Misses k) → Life k ops .unused
  | live {pre post c} : (∀ op ∈ pre, op.Misses k) → (∀ op ∈ post, op.Finds k c) →
      Life k (pre ++ .open k c :: post) (.live c)
  | gone {pre post rest c} : (∀ op ∈ pre, op.Misses k) → (∀ op ∈ post, op.Finds k c) → Over k rest →
      Life k (pre ++ .open k c :: (post ++ rest)) .gone

theorem forall_mem_concat {P : Op K C → Prop} {ops : List (Op K C)} {op : Op K C} (h : ∀ x ∈ ops, P x) (hop : P op) :
    ∀ x ∈ ops ++ [op], P x := by
  intro x hx
  rcases List.mem_append.1 hx with hx | hx
  · exact h x hx
  · exact List.mem_singleton.1 hx ▸ hop

section life

variable {k : K} {ops : List (Op K C)} {s : State C} {op : Op K C} {c : C}

theorem Over.concat {rest : List (Op K C)} (h : Over k rest) (hop : op.Misses k) : Over k (rest ++ [op]) := by
  obtain ⟨tail, hrest, htail⟩ := h
  refine ⟨tail ++ [op], ?_, forall_mem_concat htail hop⟩
  rcases hrest with rfl | rfl
  · exact .inl rfl
  · exact .inr rfl

/-- A key with something under it is read. -/
theorem Life.read (h : Life k ops (.live c)) (hop : op.Finds k c) : Life k (ops ++ [op]) (.live c) := by
  cases h with
  | live hpre hpost =>
    rw [List.append_assoc, List.cons_append]
    exact .live hpre (forall_mem_concat hpost hop)

/-- A key with nothing under it is tried. -/
theorem Life.miss (h : Life k ops s) (hdead : s.Dead) (hop : op.Misses k) : Life k (ops ++ [op]) s := by
  cases h with
  | unused hnone => exact .unused (forall_mem_concat hnone hop)
  | live _ _ => exact absurd rfl (hdead _)
  | gone hpre hpost hover =>
    rw [List.append_assoc, List.cons_append, List.append_assoc]
    exact .gone hpre hpost (hover.concat hop)

/-- An operation on another key, or none. -/
theorem Life.other (h : Life k ops s) (hkey : op.key ≠ some k) : Life k (ops ++ [op]) s := by
  cases s with
  | unused => exact h.miss (fun _ hc => by cases hc) fun hk => absurd hk hkey
  | live c => exact h.read fun hk => absurd hk hkey
  | gone => exact h.miss (fun _ hc => by cases hc) fun hk => absurd hk hkey

theorem Life.ended (h : Life k ops (.live c)) (hover : Over k [op]) : Life k (ops ++ [op]) .gone := by
  cases h with
  | live hpre hpost =>
    rw [List.append_assoc, List.cons_append]
    exact .gone hpre hpost hover

theorem Life.opened (h : Life k ops .unused) : Life k (ops ++ [.open k c]) (.live c) := by
  cases h with
  | unused hnone => exact .live hnone fun _ hx => absurd hx List.not_mem_nil

end life

/-! ## Runs -/

variable [DecidableEq K]

/-- One key's state replaced. -/
def assign (h : K → State C) (k : K) (s : State C) : K → State C := fun k' => if k' = k then s else h k'

/-- Some keys are given up, and nothing else happens. -/
def Expires (h h' : K → State C) : Prop := ∀ k, h' k = h k ∨ (∃ c, h k = .live c) ∧ h' k = .gone

inductive Step : (K → State C) → Op K C → (K → State C) → Prop where
  | open {h : K → State C} (k : K) (c : C) : h k = .unused → Step h (.open k c) (assign h k (.live c))
  | found {h : K → State C} (k : K) (c : C) : h k = .live c → Step h (.read k (some c)) h
  | missed {h : K → State C} (k : K) : (h k).Dead → Step h (.read k none) h
  | close {h : K → State C} (k : K) (c : C) : h k = .live c → Step h (.close k true) (assign h k .gone)
  | closeDead {h : K → State C} (k : K) : (h k).Dead → Step h (.close k false) h
  | quiet {h h' : K → State C} : Expires h h' → Step h .quiet h'

/-- A run from where no key is used. -/
abbrev Runs (ops : List (Op K C)) (h : K → State C) : Prop := Transition.Run Step (fun _ => .unused) ops h

theorem assign_other (h : K → State C) {k k' : K} (s : State C) (hne : k ≠ k') : assign h k' s k = h k := if_neg hne

@[simp] theorem assign_self (h : K → State C) (k : K) (s : State C) : assign h k s k = s := if_pos rfl

theorem life_step {k : K} {ops : List (Op K C)} {op : Op K C} {h h' : K → State C} (hlife : Life k ops (h k))
    (hstep : Step h op h') : Life k (ops ++ [op]) (h' k) := by
  have hkey : ∀ {k' : K}, k ≠ k' → some k' ≠ some k := fun hne heq => hne (Option.some.inj heq).symm
  cases hstep with
  | «open» k' c hunused =>
    by_cases hk : k = k'
    · subst hk
      rw [hunused] at hlife
      rw [assign_self]
      exact hlife.opened
    · rw [assign_other h _ hk]
      exact hlife.other (hkey hk)
  | found k' c hlive =>
    by_cases hk : k = k'
    · subst hk
      rw [hlive] at hlife ⊢
      exact hlife.read fun _ => rfl
    · exact hlife.other (hkey hk)
  | missed k' hdead =>
    by_cases hk : k = k'
    · subst hk
      exact hlife.miss hdead fun _ => .inl rfl
    · exact hlife.other (hkey hk)
  | close k' c hlive =>
    by_cases hk : k = k'
    · subst hk
      rw [hlive] at hlife
      rw [assign_self]
      exact hlife.ended ⟨[], .inr rfl, fun _ hx => absurd hx List.not_mem_nil⟩
    · rw [assign_other h _ hk]
      exact hlife.other (hkey hk)
  | closeDead k' hdead =>
    by_cases hk : k = k'
    · subst hk
      exact hlife.miss hdead fun _ => .inr rfl
    · exact hlife.other (hkey hk)
  | quiet hexpires =>
    have hnone : (Op.quiet : Op K C).key ≠ some k := fun heq => by cases heq
    rcases hexpires k with hsame | ⟨⟨c, hlive⟩, hgone⟩
    · rw [hsame]
      exact hlife.other hnone
    · rw [hgone]
      rw [hlive] at hlife
      refine hlife.ended ⟨[.quiet], .inl rfl, ?_⟩
      intro op hop hk
      exact absurd (List.mem_singleton.1 hop ▸ hk) hnone

/-- What a run does with a key is one life of it. -/
theorem runs_life {ops : List (Op K C)} {h : K → State C} (hrun : Runs ops h) (k : K) : Life k ops (h k) := by
  induction hrun with
  | start => exact .unused fun _ hx => absurd hx List.not_mem_nil
  | step _ hstep ih => exact life_step ih hstep

end Handles
