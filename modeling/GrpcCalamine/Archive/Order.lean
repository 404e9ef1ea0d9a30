import GrpcCalamine.Archive.Inspect
/-!
# The archive decides, not the order of its entries

`Passes` says what the limits ask of an archive, and `measured` what is in it;
neither depends on the order of the entries. `inspect` accepts the archives
that pass, and returns what is measured (`inspectFrom_ok_iff`).
-/

namespace GrpcCalamine

/-- The bytes of an entry, up to its end or its first hard error. -/
def Entry.bytes (e : Entry) : List UInt8 := delivered e.reads

def Entry.binary (e : Entry) : Bool := ".bin".toList.isSuffixOf (normalize e.name)

/-- The entries of one kind. -/
def partsOf (part : Part) (entries : List (Option Entry)) : List Entry :=
  (entries.filterMap id).filter fun e => classify e.name = some part

/-- What the pictures of an archive add up to. -/
def pictureSum (entries : List (Option Entry)) : Nat :=
  ((partsOf .picture entries).map fun e => byteCount e.bytes).sum

def estimateSum (entries : List (Option Entry)) : Nat :=
  ((partsOf .sharedStrings entries).map fun e => tableEstimate e.binary e.bytes).sum

/-- A table within its byte limit that could hold what it declares. -/
structure TablePasses (limits : InflateLimits) (e : Entry) : Prop where
  size : byteCount e.bytes ≤ limits.maxSharedStringsBytes
  count : ∀ declared, declaredCount e.bytes = some declared → declared ≤ byteCount e.bytes / MIN_SI_BYTES

/-- What the limits ask of an archive. -/
structure Passes (limits : InflateLimits) (entries : List (Option Entry)) : Prop where
  picture : ∀ e ∈ partsOf .picture entries, byteCount e.bytes ≤ limits.maxPictureBytes
  total : pictureSum entries ≤ limits.maxPictureTotalBytes
  table : ∀ e ∈ partsOf .sharedStrings entries, TablePasses limits e

/-- What is in an archive. -/
def measured (entries : List (Option Entry)) : Inflated := ⟨pictureSum entries, min (estimateSum entries) U64_MAX⟩

/-! ## The order is not in it -/

section Permuted

variable {entries entries' : List (Option Entry)} (h : entries.Perm entries')

include h

theorem partsOf_perm (part : Part) : (partsOf part entries).Perm (partsOf part entries') :=
  (h.filterMap id).filter _

theorem pictureSum_perm : pictureSum entries = pictureSum entries' :=
  ((partsOf_perm h .picture).map _).sum_nat

theorem estimateSum_perm : estimateSum entries = estimateSum entries' :=
  ((partsOf_perm h .sharedStrings).map _).sum_nat

theorem measured_perm : measured entries = measured entries' := by
  rw [measured, measured, pictureSum_perm h, estimateSum_perm h]

theorem Passes.perm {limits : InflateLimits} (hp : Passes limits entries) : Passes limits entries' := by
  constructor
  · intro e he
    exact hp.picture e ((partsOf_perm h .picture).mem_iff.2 he)
  · rw [← pictureSum_perm h]
    exact hp.total
  · intro e he
    exact hp.table e ((partsOf_perm h .sharedStrings).mem_iff.2 he)

end Permuted

/-! ## One entry -/

theorem overDeclared_eq_none_iff (bytes : List UInt8) :
    overDeclared bytes = none ↔
      ∀ declared, declaredCount bytes = some declared → declared ≤ byteCount bytes / MIN_SI_BYTES := by
  simp [overDeclared, Option.filter_eq_none_iff]

theorem tableVerdict_ok_iff {limits : InflateLimits} {e : Entry} {name : String} {parsed : Nat} :
    tableVerdict name e.binary limits e.bytes = .ok parsed ↔
      TablePasses limits e ∧ parsed = tableEstimate e.binary e.bytes := by
  unfold tableVerdict
  split
  · rename_i hmore
    exact ⟨nofun, fun h => absurd h.1.size (Nat.not_le.2 hmore)⟩
  · rename_i hsize
    cases hover : overDeclared e.bytes with
    | some declared =>
      refine ⟨nofun, fun h => ?_⟩
      rw [(overDeclared_eq_none_iff e.bytes).2 h.1.count] at hover
      cases hover
    | none =>
      have hcount := (overDeclared_eq_none_iff e.bytes).1 hover
      constructor
      · intro h
        cases h
        exact ⟨⟨Nat.not_lt.1 hsize, hcount⟩, rfl⟩
      · rintro ⟨-, rfl⟩
        rfl

theorem tableVerdict_error {limits : InflateLimits} {name : String} {binary : Bool} {bytes : List UInt8} {r : Rejected}
    (h : tableVerdict name binary limits bytes = .error r) :
    (∃ max, r = .limit (.sharedStrings name max)) ∨ ∃ detail, r = .malformed name detail := by
  unfold tableVerdict at h
  split at h
  · cases h
    exact .inl ⟨_, rfl⟩
  · split at h
    · cases h
      exact .inr ⟨_, rfl⟩
    · cases h

variable {limits : InflateLimits} {sum : Inflated} {e : Entry}

/-- A picture is taken where its limit and what is left of the total allow
it. -/
theorem inspectEntry_picture (hclass : classify e.name = some .picture) :
    inspectEntry limits sum e =
      if byteCount e.bytes ≤ pictureLimit limits sum.pictureBytes then
        .ok { sum with pictureBytes := satAdd sum.pictureBytes (byteCount e.bytes) }
      else if pictureLimit limits sum.pictureBytes = limits.maxPictureBytes then
        .error (.limit (.picture (quoted e.name) limits.maxPictureBytes))
      else .error (.limit (.pictureTotal limits.maxPictureTotalBytes)) := by
  have hlimit : pictureLimit limits sum.pictureBytes ≤ U64_MAX := (Nat.min_le_left _ _).trans limits.picture_le
  have hsize : inflatedSize e.reads (pictureLimit limits sum.pictureBytes) =
      if byteCount e.bytes ≤ pictureLimit limits sum.pictureBytes then some (byteCount e.bytes) else none :=
    inflatedSize_eq hlimit e.reads
  simp only [inspectEntry, hclass, hsize]
  by_cases hfits : byteCount e.bytes ≤ pictureLimit limits sum.pictureBytes
  · rw [if_pos hfits, if_pos hfits]
  · rw [if_neg hfits, if_neg hfits]

theorem inspectEntry_sharedStrings (hclass : classify e.name = some .sharedStrings) :
    inspectEntry limits sum e =
      (tableVerdict (quoted e.name) e.binary limits e.bytes).map fun parsed =>
        { sum with sharedStringsBytes := satAdd sum.sharedStringsBytes parsed } := by
  simp only [inspectEntry, hclass, scanSharedStrings_eq]
  rfl

theorem inspectEntry_other (hclass : classify e.name = none) : inspectEntry limits sum e = .ok sum := by
  simp only [inspectEntry, hclass]

/-! ## The whole archive -/

variable {entries : List (Option Entry)}

@[simp] theorem partsOf_skip (part : Part) : partsOf part (none :: entries) = partsOf part entries := rfl

theorem partsOf_cons_of {part : Part} (h : classify e.name = some part) :
    partsOf part (some e :: entries) = e :: partsOf part entries := by
  simp [partsOf, h]

theorem partsOf_cons_not {part : Part} (h : classify e.name ≠ some part) :
    partsOf part (some e :: entries) = partsOf part entries := by
  simp [partsOf, h]

/-- A picture adds to the pictures and to nothing else. -/
theorem picture_head (hclass : classify e.name = some .picture) :
    partsOf .picture (some e :: entries) = e :: partsOf .picture entries ∧
      partsOf .sharedStrings (some e :: entries) = partsOf .sharedStrings entries ∧
      pictureSum (some e :: entries) = byteCount e.bytes + pictureSum entries := by
  have hparts : partsOf .picture (some e :: entries) = e :: partsOf .picture entries := partsOf_cons_of hclass
  refine ⟨hparts, partsOf_cons_not (by rw [hclass]; decide), ?_⟩
  rw [pictureSum, hparts, List.map_cons, List.sum_cons, pictureSum]

/-- A table adds to the tables and to nothing else. -/
theorem table_head (hclass : classify e.name = some .sharedStrings) :
    partsOf .sharedStrings (some e :: entries) = e :: partsOf .sharedStrings entries ∧
      partsOf .picture (some e :: entries) = partsOf .picture entries ∧
      pictureSum (some e :: entries) = pictureSum entries := by
  have hparts : partsOf .picture (some e :: entries) = partsOf .picture entries :=
    partsOf_cons_not (by rw [hclass]; decide)
  refine ⟨partsOf_cons_of hclass, hparts, ?_⟩
  rw [pictureSum, hparts, pictureSum]

/-- What the limits ask of the entries to come, with `used` bytes of pictures
measured. -/
structure PassesFrom (limits : InflateLimits) (used : Nat) (entries : List (Option Entry)) : Prop where
  picture : ∀ e ∈ partsOf .picture entries, byteCount e.bytes ≤ limits.maxPictureBytes
  total : used + pictureSum entries ≤ limits.maxPictureTotalBytes
  table : ∀ e ∈ partsOf .sharedStrings entries, TablePasses limits e

theorem passesFrom_zero : PassesFrom limits 0 entries ↔ Passes limits entries := by
  constructor
  · rintro ⟨hpicture, htotal, htable⟩
    exact ⟨hpicture, (Nat.zero_add _).symm.trans_le htotal, htable⟩
  · rintro ⟨hpicture, htotal, htable⟩
    exact ⟨hpicture, (Nat.zero_add _).trans_le htotal, htable⟩

theorem passesFrom_skip {used : Nat} : PassesFrom limits used (none :: entries) ↔ PassesFrom limits used entries :=
  ⟨fun h => ⟨h.picture, h.total, h.table⟩, fun h => ⟨h.picture, h.total, h.table⟩⟩

theorem passesFrom_picture (hclass : classify e.name = some .picture) {used : Nat} :
    PassesFrom limits used (some e :: entries) ↔
      byteCount e.bytes ≤ limits.maxPictureBytes ∧ PassesFrom limits (used + byteCount e.bytes) entries := by
  obtain ⟨hparts, htables, hsum⟩ := @picture_head e entries hclass
  constructor
  · rintro ⟨hpicture, htotal, htable⟩
    rw [hparts] at hpicture
    rw [htables] at htable
    rw [hsum, ← Nat.add_assoc] at htotal
    exact ⟨hpicture e List.mem_cons_self, fun e' he' => hpicture e' (List.mem_cons_of_mem e he'), htotal, htable⟩
  · rintro ⟨hsize, hpicture, htotal, htable⟩
    constructor
    · rw [hparts]
      exact List.forall_mem_cons.2 ⟨hsize, hpicture⟩
    · rw [hsum, ← Nat.add_assoc]
      exact htotal
    · rw [htables]
      exact htable

theorem passesFrom_sharedStrings (hclass : classify e.name = some .sharedStrings) {used : Nat} :
    PassesFrom limits used (some e :: entries) ↔ TablePasses limits e ∧ PassesFrom limits used entries := by
  obtain ⟨htables, hparts, hsum⟩ := @table_head e entries hclass
  constructor
  · rintro ⟨hpicture, htotal, htable⟩
    rw [htables] at htable
    exact ⟨htable e List.mem_cons_self, hparts ▸ hpicture, hsum ▸ htotal,
      fun e' he' => htable e' (List.mem_cons_of_mem e he')⟩
  · rintro ⟨hpasses, hpicture, htotal, htable⟩
    constructor
    · rw [hparts]
      exact hpicture
    · rw [hsum]
      exact htotal
    · rw [htables]
      exact List.forall_mem_cons.2 ⟨hpasses, htable⟩

theorem partsOf_other (hclass : classify e.name = none) (part : Part) :
    partsOf part (some e :: entries) = partsOf part entries :=
  partsOf_cons_not (by rw [hclass]; exact nofun)

theorem passesFrom_other (hclass : classify e.name = none) {used : Nat} :
    PassesFrom limits used (some e :: entries) ↔ PassesFrom limits used entries := by
  have hsum : pictureSum (some e :: entries) = pictureSum entries := by
    rw [pictureSum, partsOf_other hclass, pictureSum]
  constructor
  · rintro ⟨hpicture, htotal, htable⟩
    rw [partsOf_other hclass] at hpicture htable
    exact ⟨hpicture, hsum ▸ htotal, htable⟩
  · rintro ⟨hpicture, htotal, htable⟩
    constructor
    · rw [partsOf_other hclass]
      exact hpicture
    · rw [hsum]
      exact htotal
    · rw [partsOf_other hclass]
      exact htable

/-- What is measured, and what is to come. -/
def Inflated.plus (sum : Inflated) (entries : List (Option Entry)) : Inflated :=
  ⟨sum.pictureBytes + pictureSum entries, min (sum.sharedStringsBytes + estimateSum entries) U64_MAX⟩

/-- What the loop of `inspect` has measured is within the limits. -/
structure Measuring (limits : InflateLimits) (sum : Inflated) : Prop where
  pictures : sum.pictureBytes ≤ limits.maxPictureTotalBytes
  tables : sum.sharedStringsBytes ≤ U64_MAX

/-- A picture whose limit is not passed leaves the total within its own. -/
theorem le_pictureLimit_iff {n used : Nat} (hused : used ≤ limits.maxPictureTotalBytes) :
    n ≤ pictureLimit limits used ↔ n ≤ limits.maxPictureBytes ∧ used + n ≤ limits.maxPictureTotalBytes := by
  unfold pictureLimit
  omega

/-- A picture that fits leaves the sum within the limits, and does not
saturate it. -/
theorem Measuring.picture (hsum : Measuring limits sum)
    (hfits : byteCount e.bytes ≤ pictureLimit limits sum.pictureBytes) :
    satAdd sum.pictureBytes (byteCount e.bytes) = sum.pictureBytes + byteCount e.bytes ∧
      Measuring limits ⟨sum.pictureBytes + byteCount e.bytes, sum.sharedStringsBytes⟩ := by
  have hle := (le_pictureLimit_iff hsum.pictures).1 hfits
  exact ⟨satAdd_eq (hle.2.trans limits.pictureTotal_le), hle.2, hsum.tables⟩

/-- A table leaves the sum within the limits: it saturates. -/
theorem Measuring.table (hsum : Measuring limits sum) (parsed : Nat) :
    Measuring limits ⟨sum.pictureBytes, satAdd sum.sharedStringsBytes parsed⟩ :=
  ⟨hsum.pictures, satAdd_le _ _⟩

theorem plus_picture (hclass : classify e.name = some .picture) :
    Inflated.plus ⟨sum.pictureBytes + byteCount e.bytes, sum.sharedStringsBytes⟩ entries =
      sum.plus (some e :: entries) := by
  obtain ⟨-, htables, hsum⟩ := @picture_head e entries hclass
  simp only [Inflated.plus, estimateSum, htables, hsum, Nat.add_assoc]

theorem plus_table (hclass : classify e.name = some .sharedStrings) :
    Inflated.plus ⟨sum.pictureBytes, satAdd sum.sharedStringsBytes (tableEstimate e.binary e.bytes)⟩ entries =
      sum.plus (some e :: entries) := by
  obtain ⟨htables, -, hsum⟩ := @table_head e entries hclass
  simp only [Inflated.plus, estimateSum, htables, hsum, List.map_cons, List.sum_cons, satAdd, Inflated.mk.injEq,
    true_and]
  omega

theorem plus_nil (hsum : Measuring limits sum) : sum.plus [] = sum := by
  simp [Inflated.plus, pictureSum, estimateSum, partsOf, Nat.min_eq_left hsum.tables]

/-- From any sum on, `inspect` accepts what passes and adds up what it
measures. -/
theorem inspectFrom_ok_iff (hsum : Measuring limits sum) {r : Inflated} :
    inspectFrom limits sum entries = .ok r ↔ PassesFrom limits sum.pictureBytes entries ∧ r = sum.plus entries := by
  induction entries generalizing sum with
  | nil =>
    have hpasses : PassesFrom limits sum.pictureBytes [] := ⟨nofun, hsum.pictures, nofun⟩
    rw [plus_nil hsum, inspectFrom, Except.ok.injEq]
    exact ⟨fun h => ⟨hpasses, h.symm⟩, fun h => h.2.symm⟩
  | cons entry entries ih =>
    cases entry with
    | none =>
      rw [passesFrom_skip]
      exact ih hsum
    | some e =>
      rw [inspectFrom]
      cases hclass : classify e.name with
      | none =>
        have hplus : sum.plus (some e :: entries) = sum.plus entries := by
          simp only [Inflated.plus, pictureSum, estimateSum, partsOf_other hclass]
        rw [inspectEntry_other hclass, passesFrom_other hclass, hplus]
        exact ih hsum
      | some part =>
        cases part with
        | picture =>
          rw [inspectEntry_picture hclass, passesFrom_picture hclass]
          by_cases hfits : byteCount e.bytes ≤ pictureLimit limits sum.pictureBytes
          · obtain ⟨hadd, hnext⟩ := hsum.picture hfits
            rw [if_pos hfits, hadd]
            refine (ih hnext).trans ?_
            rw [plus_picture hclass]
            exact and_congr_left' (iff_and_self.2 fun _ => ((le_pictureLimit_iff hsum.pictures).1 hfits).1)
          · -- its own limit or the total is passed, and either is asked of the archive
            rw [if_neg hfits]
            refine ⟨fun h => ?_, fun h => absurd ?_ hfits⟩
            · split at h <;> cases h
            · exact (le_pictureLimit_iff hsum.pictures).2 ⟨h.1.1, (Nat.le_add_right _ _).trans h.1.2.total⟩
        | sharedStrings =>
          rw [inspectEntry_sharedStrings hclass, passesFrom_sharedStrings hclass]
          cases hverdict : tableVerdict (quoted e.name) e.binary limits e.bytes with
          | error r' =>
            refine ⟨fun h => (by cases h), fun h => ?_⟩
            rw [tableVerdict_ok_iff.2 ⟨h.1.1, rfl⟩] at hverdict
            cases hverdict
          | ok parsed =>
            obtain ⟨hpasses, rfl⟩ := tableVerdict_ok_iff.1 hverdict
            refine (ih (hsum.table _)).trans ?_
            rw [plus_table hclass]
            exact and_congr_left' (iff_and_self.2 fun _ => hpasses)

/-- A refusal of a picture is of one too large; of the pictures together, of
too many bytes. -/
theorem inspectFrom_refusal (hsum : Measuring limits sum) :
    (∀ name max, inspectFrom limits sum entries = .error (.limit (.picture name max)) →
      max = limits.maxPictureBytes ∧ ∃ e ∈ partsOf .picture entries, name = quoted e.name ∧ max < e.bytes.length) ∧
    (∀ max, inspectFrom limits sum entries = .error (.limit (.pictureTotal max)) →
      max = limits.maxPictureTotalBytes ∧ max < sum.pictureBytes + pictureSum entries) := by
  induction entries generalizing sum with
  | nil => exact ⟨nofun, nofun⟩
  | cons entry entries ih =>
    cases entry with
    | none => exact ih hsum
    | some e =>
      rw [inspectFrom]
      cases hclass : classify e.name with
      | none =>
        rw [inspectEntry_other hclass, partsOf_other hclass, pictureSum, partsOf_other hclass]
        exact ih hsum
      | some part =>
        cases part with
        | sharedStrings =>
          obtain ⟨-, hpictures, hsame⟩ := @table_head e entries hclass
          rw [inspectEntry_sharedStrings hclass, hpictures, hsame]
          cases hverdict : tableVerdict (quoted e.name) e.binary limits e.bytes with
          | error r =>
            rcases tableVerdict_error hverdict with ⟨max, rfl⟩ | ⟨detail, rfl⟩ <;> exact ⟨nofun, nofun⟩
          | ok parsed => exact ih (hsum.table parsed)
        | picture =>
          have hsize : byteCount e.bytes ≤ e.bytes.length := Nat.min_le_left _ _
          obtain ⟨hpictures, -, htotal⟩ := @picture_head e entries hclass
          rw [inspectEntry_picture hclass, hpictures, htotal]
          split
          · rename_i hfits
            obtain ⟨hadd, hnext⟩ := hsum.picture hfits
            rw [hadd]
            constructor
            · intro name max h
              obtain ⟨hmax, e', he', hname⟩ := (ih hnext).1 name max h
              exact ⟨hmax, e', List.mem_cons_of_mem e he', hname⟩
            · intro max h
              obtain ⟨hmax, hlt⟩ := (ih hnext).2 max h
              rw [← Nat.add_assoc]
              exact ⟨hmax, hlt⟩
          · rename_i hmore
            have hgt := Nat.not_le.1 hmore
            split
            -- the picture's own limit bound the count, also where the two are equal
            · rename_i hown
              refine ⟨fun name max h => ?_, nofun⟩
              cases h
              exact ⟨rfl, e, List.mem_cons_self, rfl, by omega⟩
            · rename_i hroom
              refine ⟨nofun, fun max h => ?_⟩
              cases h
              have hleft : pictureLimit limits sum.pictureBytes = limits.maxPictureTotalBytes - sum.pictureBytes := by
                unfold pictureLimit at hroom ⊢
                omega
              exact ⟨rfl, by omega⟩

theorem measuring_default : Measuring limits .default := ⟨Nat.zero_le _, Nat.zero_le _⟩

theorem default_plus (entries : List (Option Entry)) : Inflated.default.plus entries = measured entries := by
  simp [Inflated.plus, Inflated.default, measured]

theorem inspect_ok_iff {r : Inflated} :
    inspect limits (some entries) = .ok r ↔ Passes limits entries ∧ r = measured entries := by
  rw [inspect, inspectFrom_ok_iff measuring_default, default_plus, ← passesFrom_zero]
  rfl

/-- `inspect` accepts an archive exactly when its pictures and its tables pass
the limits, whatever their order, and answers what they add up to; what it
refuses a picture or the pictures for is so. -/
theorem inspect_decides_by_archive (limits : InflateLimits) (entries : List (Option Entry)) :
    ((∃ r, inspect limits (some entries) = .ok r) ↔ Passes limits entries) ∧
    (∀ r, inspect limits (some entries) = .ok r → r = measured entries) ∧
    (∀ entries', entries.Perm entries' →
      ∀ r, inspect limits (some entries) = .ok r ↔ inspect limits (some entries') = .ok r) ∧
    (∀ name max, inspect limits (some entries) = .error (.limit (.picture name max)) →
      max = limits.maxPictureBytes ∧ ∃ e ∈ partsOf .picture entries, name = quoted e.name ∧ max < e.bytes.length) ∧
    (∀ max, inspect limits (some entries) = .error (.limit (.pictureTotal max)) →
      max = limits.maxPictureTotalBytes ∧ max < pictureSum entries) := by
  obtain ⟨hpicture, htotal⟩ := @inspectFrom_refusal limits .default entries measuring_default
  refine ⟨?_, fun r hr => (inspect_ok_iff.1 hr).2, fun entries' hperm r => ?_, hpicture, fun max h => ?_⟩
  · constructor
    · rintro ⟨r, hr⟩
      exact (inspect_ok_iff.1 hr).1
    · intro hp
      exact ⟨measured entries, inspect_ok_iff.2 ⟨hp, rfl⟩⟩
  · rw [inspect_ok_iff, inspect_ok_iff, measured_perm hperm]
    exact and_congr_left' ⟨fun hp => hp.perm hperm, fun hp => hp.perm hperm.symm⟩
  · obtain ⟨hmax, hlt⟩ := htotal max h
    exact ⟨hmax, by simpa [Inflated.default] using hlt⟩

end GrpcCalamine
