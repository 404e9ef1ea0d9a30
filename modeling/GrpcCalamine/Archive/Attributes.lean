import GrpcCalamine.Archive.Scan
/-!
# What the attribute reader finds

`attr_u64` returns the number of the first place in a tag that spells the
attribute (`attrU64_eq_some_iff`). A place that spells it need not be the
attribute: it may lie in a value, or be the tail of a longer name. The tag that
`declared_unique_count` reads is what stands from the first `<sst` to the next
`>` (`declaredUniqueCount_eq`).
-/

namespace GrpcCalamine

open Search

variable {tag name : List UInt8}

/-- At index `i` of the tag stands the attribute's name, after no letter or
digit, and what follows reads as the number `v`. -/
structure Spells (tag name : List UInt8) (i v : Nat) : Prop where
  occurs : name <+: tag.drop i
  whole : i = 0 ∨ (tag[i - 1]?).any isAsciiAlphanumeric = false
  number : quotedNumber (tag.drop (i + name.length)) = some v

/-- The first place from `start` on that spells the attribute spells `v`. -/
def FirstSpells (tag name : List UInt8) (start v : Nat) : Prop :=
  ∃ i, start ≤ i ∧ Spells tag name i v ∧ ∀ j, start ≤ j → j < i → ∀ v', ¬ Spells tag name j v'

theorem find_eq_position (hne : name ≠ []) : find tag name = position name tag := by
  unfold find
  rw [List.isEmpty_eq_false_iff.2 hne, Bool.false_or]
  split
  · rename_i hlen
    refine ((position_eq_none_iff hne).2 fun i hi => ?_).symm
    have := hi.length_le
    simp only [decide_eq_true_eq, List.length_drop] at hlen this
    omega
  · rfl

/-- Nothing is lost by going on past places that do not spell the attribute. -/
theorem firstSpells_skip {start next v : Nat} (hle : start ≤ next)
    (hskip : ∀ j, start ≤ j → j < next → ∀ v', ¬ Spells tag name j v') :
    FirstSpells tag name next v ↔ FirstSpells tag name start v := by
  constructor
  · rintro ⟨i, hi, hspells, hfirst⟩
    refine ⟨i, Nat.le_trans hle hi, hspells, fun j hj hji => ?_⟩
    by_cases hnext : j < next
    · exact hskip j hj hnext
    · exact hfirst j (Nat.not_lt.1 hnext) hji
  · rintro ⟨i, hi, hspells, hfirst⟩
    have hnext : next ≤ i := Nat.not_lt.1 fun hlt => hskip i hi hlt v hspells
    exact ⟨i, hnext, hspells, fun j hj hji => hfirst j (Nat.le_trans hle hj) hji⟩

theorem attrU64Loop_eq_some_iff (hne : name ≠ [])
    (hword : ∀ k, 0 < k → k < name.length → ¬ name.drop k <+: name) {fuel start v : Nat}
    (hfuel : tag.length < fuel + start) : attrU64Loop tag name fuel start = some v ↔ FirstSpells tag name start v := by
  have hpos := List.length_pos_iff.2 hne
  induction fuel generalizing start with
  | zero =>
    -- the search starts past the tag, where nothing is spelled
    refine ⟨nofun, fun ⟨i, hi, hspells, _⟩ => ?_⟩
    have := hspells.occurs.length_le
    rw [List.length_drop] at this
    omega
  | succ fuel ih =>
    unfold attrU64Loop
    rw [find_eq_position hne]
    cases hpos' : position name (tag.drop start) with
    | none =>
      refine ⟨nofun, fun ⟨i, hi, hspells, _⟩ => ?_⟩
      refine absurd hspells.occurs ?_
      have := (position_eq_none_iff hne).1 hpos' (i - start)
      rwa [List.drop_drop, show start + (i - start) = i by omega] at this
    | some rel =>
      obtain ⟨hrel, hbefore⟩ := (position_eq_some_iff hne).1 hpos'
      rw [List.drop_drop] at hrel
      -- up to the next turn only this occurrence can spell the attribute
      have honly : ∀ j, start ≤ j → j < start + rel + name.length → ∀ v', Spells tag name j v' → j = start + rel := by
        intro j hj hlt v' hspells
        rcases Nat.lt_trichotomy j (start + rel) with hlt' | heq | hgt
        · have := hbefore (j - start) (by omega)
          rw [List.drop_drop, show start + (j - start) = j by omega] at this
          exact absurd hspells.occurs this
        · exact heq
        · exact absurd hspells.occurs (not_prefix_between hword hrel hgt hlt)
      have hnext : (∀ v', ¬ Spells tag name (start + rel) v') →
          (attrU64Loop tag name fuel (start + rel + name.length) = some v ↔ FirstSpells tag name start v) := by
        intro hnot
        have hgo := @ih (start + rel + name.length) (by omega)
        refine hgo.trans (firstSpells_skip (by omega) fun j hj hlt v' hspells => ?_)
        exact hnot v' (honly j hj hlt v' hspells ▸ hspells)
      simp only []
      split
      · -- the tail of a longer name
        rename_i hblocked
        refine hnext fun v' hspells => ?_
        simp only [Bool.and_eq_true, decide_eq_true_eq] at hblocked
        rcases hspells.whole with h0 | hwhole
        · omega
        · rw [hblocked.2] at hwhole
          cases hwhole
      rename_i hopen
      cases hnumber : quotedNumber (tag.drop (start + rel + name.length)) with
      | none =>
        -- the name alone, with no number after it
        refine hnext fun v' hspells => ?_
        rw [hspells.number] at hnumber
        cases hnumber
      | some value =>
        have hwhole : start + rel = 0 ∨ (tag[start + rel - 1]?).any isAsciiAlphanumeric = false := by
          simpa [Nat.pos_iff_ne_zero, -Nat.add_eq_zero_iff, or_iff_not_imp_left] using hopen
        have hspells : Spells tag name (start + rel) value := ⟨hrel, hwhole, hnumber⟩
        constructor
        · intro h
          cases h
          exact ⟨start + rel, by omega, hspells, fun j hj hlt v' hs =>
            absurd (honly j hj (by omega) v' hs) (by omega)⟩
        · rintro ⟨i, hi, hs, hfirst⟩
          have hle : i ≤ start + rel := Nat.not_lt.1 fun hlt => hfirst (start + rel) (by omega) hlt value hspells
          obtain rfl := honly i hi (by omega) v hs
          exact hs.number ▸ hnumber.symm ▸ rfl

/-- `attr_u64` reads the first place of the tag that spells the attribute. -/
theorem attrU64_eq_some_iff (hne : name ≠ []) (hword : ∀ k, 0 < k → k < name.length → ¬ name.drop k <+: name)
    {v : Nat} : attrU64 tag name = some v ↔ FirstSpells tag name 0 v :=
  attrU64Loop_eq_some_iff hne hword (Nat.lt_succ_self _)

/-! ## A quoted number -/

/-- The number a string of digits spells. -/
def decimalValue (digits : List UInt8) : Nat := digits.foldl (fun value b => value * 10 + (b - 0x30).toNat) 0

theorem foldl_saturating (digits : List UInt8) (value : Nat) :
    digits.foldl (fun value b => satAdd (satMul value 10) (b - 0x30).toNat) (min value U64_MAX) =
      min (digits.foldl (fun value b => value * 10 + (b - 0x30).toNat) value) U64_MAX := by
  induction digits generalizing value with
  | nil => rfl
  | cons b digits ih =>
    have hstep : satAdd (satMul (min value U64_MAX) 10) (b - 0x30).toNat =
        min (value * 10 + (b - 0x30).toNat) U64_MAX := by
      unfold satAdd satMul
      omega
    rw [List.foldl_cons, List.foldl_cons, hstep, ih]

theorem digitsValue_of_digits {digits : List UInt8} (hne : digits ≠ [])
    (hdigits : ∀ b ∈ digits, isAsciiDigit b = true) :
    digitsValue digits = some (min (decimalValue digits) U64_MAX) := by
  have hany : digits.any isAsciiDigit = true := by
    obtain ⟨b, rest, rfl⟩ := List.exists_cons_of_ne_nil hne
    simp [hdigits b List.mem_cons_self]
  rw [digitsValue, if_pos hany, List.filter_eq_self.2 hdigits, decimalValue, ← foldl_saturating, Nat.zero_min]

/-- A number in quotes, with whitespace around its `=`, reads as that number,
whatever comes after. -/
theorem quotedNumber_of_digits {beforeEq afterEq digits rest : List UInt8} {quote : UInt8}
    (hbefore : ∀ b ∈ beforeEq, isAsciiWhitespace b = true) (hafter : ∀ b ∈ afterEq, isAsciiWhitespace b = true)
    (hquote : quote = 0x22 ∨ quote = 0x27) (hne : digits ≠ []) (hdigits : ∀ b ∈ digits, isAsciiDigit b = true) :
    quotedNumber (beforeEq ++ 0x3D :: (afterEq ++ quote :: (digits ++ quote :: rest))) =
      some (min (decimalValue digits) U64_MAX) := by
  have hnot : ∀ b ∈ digits, b ≠ quote := by
    rintro b hb rfl
    have := hdigits b hb
    rcases hquote with rfl | rfl <;> revert this <;> decide
  have hspace : isAsciiWhitespace quote = false := by rcases hquote with rfl | rfl <;> rfl
  have hvalue : (digits ++ quote :: rest).takeWhile (fun b => b ≠ quote) = digits := by
    rw [List.takeWhile_append_of_pos (by simpa using hnot)]
    simp
  unfold quotedNumber
  rw [List.dropWhile_append_of_pos hbefore, List.dropWhile_cons_of_neg (by decide)]
  simp only []
  rw [List.dropWhile_append_of_pos hafter, List.dropWhile_cons_of_neg (by simp [hspace])]
  simp only []
  rw [hvalue, if_pos (by rcases hquote with rfl | rfl <;> rfl), digitsValue_of_digits hne hdigits]

/-! ## The tag it is read off -/

/-- The count is read off the first `<sst`, if its name ends there, up to the
next `>`. -/
theorem declaredUniqueCount_eq (head : List UInt8) :
    declaredUniqueCount head = (position (ascii "<sst") head).bind fun i =>
      if (head[i + 4]?).any (fun after => after = 0x3E || after = 0x2F || isAsciiWhitespace after) ∧
          0x3E ∈ head.drop (i + 4) then
        attrU64 (ascii "<sst" ++ upTo 0x3E (head.drop (i + 4))) (ascii "uniqueCount")
      else none := by
  unfold declaredUniqueCount
  rw [find_eq_position (by decide)]
  cases hopening : position (ascii "<sst") head with
  | none => rfl
  | some i =>
    have hstart : head.drop i = ascii "<sst" ++ head.drop (i + 4) := by
      obtain ⟨rest, hrest⟩ := ((position_eq_some_iff (by decide)).1 hopening).1
      rw [← List.drop_drop, ← hrest]
      rfl
    simp only [Option.bind_eq_bind, Option.bind_some, find_eq_position (List.cons_ne_nil _ _)]
    cases head[i + 4]? with
    | none => simp
    | some after =>
      simp only [Option.bind_some, Option.any_some]
      rcases Bool.eq_false_or_eq_true (decide (after = 0x3E) || decide (after = 0x2F) || isAsciiWhitespace after)
        with hends | hends
      · simp only [hends, Bool.not_true, Bool.false_eq_true, if_false, true_and]
        cases hclose : position [0x3E] (head.drop (i + 4)) with
        | none =>
          have hnone : 0x3E ∉ head.drop (i + 4) := by
            intro hmem
            rw [position_singleton, if_pos hmem] at hclose
            cases hclose
          simp [hnone]
        | some close =>
          have hmem : 0x3E ∈ head.drop (i + 4) := by
            by_contra hnone
            rw [position_singleton, if_neg hnone] at hclose
            cases hclose
          -- the slice the source takes is `<sst` and what follows it up to the `>`
          have htake : (head.drop i).take (4 + close + 1) = ascii "<sst" ++ upTo 0x3E (head.drop (i + 4)) := by
            rw [hstart, show 4 + close + 1 = (ascii "<sst").length + (close + 1) by simp [ascii]; omega,
              List.take_length_add_append, take_position hclose]
          simp [hmem, htake]
      · simp only [hends, Bool.not_false, if_true, Bool.false_eq_true, false_and, if_false]

end GrpcCalamine
