import GrpcCalamine.Archive.Order
import GrpcCalamine.Archive.Attributes
import Mathlib.Algebra.Order.BigOperators.Group.List
/-!
# What an inspection reads

Of a start of the archive that passes the limits an inspection reads all that
its pictures and tables inflate to (`inspectReadsFrom_append`), and of the part
after it what comes up to the read past its allowance (`firstReads_le_iff`), no
more than a buffer further (`pulled_le`). The pictures share one allowance;
every table has an allowance of its own, so how much is read is up to what the
tables of the archive add up to (`InflatesWithin`).
-/

namespace GrpcCalamine

variable {limits : InflateLimits}

/-- What the parts of one kind inflate to. -/
def partBytes (part : Part) (entries : List (Option Entry)) : Nat :=
  ((partsOf part entries).map fun e => e.bytes.length).sum

/-- What the pictures and the tables inflate to. -/
def inflatedBytes (entries : List (Option Entry)) : Nat := partBytes .picture entries + partBytes .sharedStrings entries

/-- What a part may inflate to after some entries: of the pictures together, what
they have left. -/
def allowance (limits : InflateLimits) (before : List (Option Entry)) : Part → Nat
  | .picture => min limits.maxPictureBytes (limits.maxPictureTotalBytes - pictureSum before)
  | .sharedStrings => limits.maxSharedStringsBytes

/-- The last of these reads is the first that can be past `allowed`. -/
def UpTo (allowed : Nat) (reads : List ReadResult) : Prop :=
  ∀ earlier last, reads = earlier ++ [last] → byteCount (delivered earlier) ≤ allowed

/-- The first reads of what follows some entries: none, or those of a part, as
far as its allowance goes. -/
inductive FirstReads (limits : InflateLimits) (before : List (Option Entry)) :
    (after : List (Option Entry)) → List ReadResult → Prop where
  | none (after : List (Option Entry)) : FirstReads limits before after []
  | part {e : Entry} {part : Part} {after : List (Option Entry)} {reads : List ReadResult}
      (hclass : classify e.name = some part) (hfirst : reads <+: e.reads)
      (hupTo : UpTo (allowance limits before part) reads) : FirstReads limits before (some e :: after) reads

/-- The limits, with a buffer for each of the two kinds. -/
def InflateLimits.work (limits : InflateLimits) : Nat :=
  limits.maxPictureTotalBytes + limits.maxSharedStringsBytes + 2 * READ_BUFFER

/-- The scan reads no more than its limits allow. -/
def WorkBounded (limits : InflateLimits) (entries : List (Option Entry)) : Prop :=
  inspectReads limits (some entries) ≤ limits.work

/-- As far as the archive passes, and a read past that, its parts inflate to no
more than the limits allow. -/
def InflatesWithin (limits : InflateLimits) (entries : List (Option Entry)) : Prop :=
  ∀ before after reads, entries = before ++ after → Passes limits before → FirstReads limits before after reads →
    inflatedBytes before + (delivered reads).length ≤ limits.work

/-! ## Parts of an archive cut in two -/

section Cut

variable (before after : List (Option Entry))

theorem partsOf_append (part : Part) : partsOf part (before ++ after) = partsOf part before ++ partsOf part after := by
  simp [partsOf, List.filterMap_append]

theorem partBytes_append (part : Part) : partBytes part (before ++ after) = partBytes part before + partBytes part after := by
  simp only [partBytes, partsOf_append, List.map_append, List.sum_append_nat]

theorem inflatedBytes_append : inflatedBytes (before ++ after) = inflatedBytes before + inflatedBytes after := by
  simp only [inflatedBytes, partBytes_append]
  omega

end Cut

/-- One part adds its bytes to those of its kind. -/
theorem inflatedBytes_one (e : Entry) : inflatedBytes [some e] = if (classify e.name).isSome then e.bytes.length else 0 := by
  unfold inflatedBytes partBytes partsOf
  cases hclass : classify e.name with
  | none => simp [hclass]
  | some part => cases part <;> simp [hclass]

theorem inflatedBytes_nil : inflatedBytes [] = 0 := rfl

theorem inflatedBytes_cons (e : Entry) (entries : List (Option Entry)) :
    inflatedBytes (some e :: entries) = (if (classify e.name).isSome then e.bytes.length else 0) + inflatedBytes entries := by
  rw [← List.singleton_append, inflatedBytes_append, inflatedBytes_one]

theorem Passes.skip_last {entries : List (Option Entry)} (h : Passes limits entries) : Passes limits (entries ++ [none]) := by
  have hparts : ∀ part, partsOf part (entries ++ [none]) = partsOf part entries := fun part => by simp [partsOf]
  exact ⟨by rw [hparts]; exact h.picture, by rw [pictureSum, hparts]; exact h.total, by rw [hparts]; exact h.table⟩

/-- An archive passes, or there is the first entry at which it no longer
does. -/
theorem passes_or_first (limits : InflateLimits) (entries : List (Option Entry)) :
    Passes limits entries ∨ ∃ before e after, entries = before ++ some e :: after ∧ Passes limits before ∧
      ¬ Passes limits (before ++ [some e]) := by
  induction entries using List.reverseRecOn with
  | nil => exact .inl ⟨nofun, Nat.zero_le _, nofun⟩
  | append_singleton entries entry ih =>
    rcases ih with hpasses | ⟨before, e, after, rfl, hbefore, hnot⟩
    · by_cases hall : Passes limits (entries ++ [entry])
      · exact .inl hall
      · cases entry with
        | none => exact absurd hpasses.skip_last hall
        | some e => exact .inr ⟨entries, e, [], rfl, hpasses, hall⟩
    · exact .inr ⟨before, e, after ++ [entry], by simp, hbefore, hnot⟩

/-! ## A start that passes -/

variable {sum : Inflated} {before after entries : List (Option Entry)}

/-- All of a start that passes is read, and then what follows it. -/
theorem inspectReadsFrom_append (hsum : Measuring limits sum) (h : PassesFrom limits sum.pictureBytes before) :
    inspectReadsFrom limits sum (before ++ after) =
      inflatedBytes before + inspectReadsFrom limits (sum.plus before) after := by
  induction before generalizing sum with
  | nil => rw [plus_nil hsum, List.nil_append, inflatedBytes_nil, Nat.zero_add]
  | cons entry before ih =>
    cases entry with
    | none => exact ih hsum (passesFrom_skip.1 h)
    | some e =>
      rw [List.cons_append, inspectReadsFrom, inflatedBytes_cons, entryReads]
      cases hclass : classify e.name with
      | none =>
        have hplus : sum.plus (some e :: before) = sum.plus before := by
          simp only [Inflated.plus, pictureSum, estimateSum, partsOf_other hclass]
        rw [inspectEntry_other hclass, hplus]
        simpa using ih hsum ((passesFrom_other hclass).1 h)
      | some part =>
        cases part with
        | picture =>
          obtain ⟨hsize, hrest⟩ := (passesFrom_picture hclass).1 h
          have hfits : byteCount e.bytes ≤ pictureLimit limits sum.pictureBytes :=
            (le_pictureLimit_iff hsum.pictures).2 ⟨hsize, (Nat.le_add_right _ _).trans hrest.total⟩
          have hpulled : pulled (pictureLimit limits sum.pictureBytes) e.reads = e.bytes.length := pulled_eq hfits
          obtain ⟨hadd, hnext⟩ := hsum.picture hfits
          rw [inspectEntry_picture hclass, if_pos hfits, hadd]
          simp only [hpulled, ih hnext hrest, plus_picture hclass, Option.isSome_some, if_true, Nat.add_assoc]
        | sharedStrings =>
          obtain ⟨hpasses, hrest⟩ := (passesFrom_sharedStrings hclass).1 h
          have hpulled : pulled limits.maxSharedStringsBytes e.reads = e.bytes.length := pulled_eq hpasses.size
          rw [inspectEntry_sharedStrings hclass, tableVerdict_ok_iff.2 ⟨hpasses, rfl⟩]
          simp only [Except.map, hpulled, ih (hsum.table _) hrest, plus_table hclass, Option.isSome_some, if_true,
            Nat.add_assoc]

theorem inspectReads_append (h : Passes limits before) :
    inspectReads limits (some (before ++ after)) =
      inflatedBytes before + inspectReadsFrom limits (measured before) after := by
  rw [inspectReads, inspectReadsFrom_append measuring_default (passesFrom_zero.2 h), default_plus]

/-- Of an archive that passes all is read. -/
theorem inspectReads_passes (h : Passes limits entries) : inspectReads limits (some entries) = inflatedBytes entries := by
  simpa [inspectReadsFrom] using @inspectReads_append limits entries [] h

theorem inspectFrom_append : inspectFrom limits sum (before ++ after) =
    (inspectFrom limits sum before).bind fun sum => inspectFrom limits sum after := by
  induction before generalizing sum with
  | nil => rfl
  | cons entry before ih =>
    cases entry with
    | none => exact ih
    | some e =>
      rw [List.cons_append, inspectFrom, inspectFrom]
      cases inspectEntry limits sum e with
      | error r => rfl
      | ok sum' => exact ih

/-- The first entry that does not pass ends the inspection. -/
theorem inspectEntry_first {e : Entry} (hbefore : Passes limits before) (hnot : ¬ Passes limits (before ++ [some e])) :
    ∃ r, inspectEntry limits (measured before) e = .error r := by
  cases hentry : inspectEntry limits (measured before) e with
  | error r => exact ⟨r, rfl⟩
  | ok sum =>
    have hstart : inspectFrom limits .default before = .ok (measured before) := inspect_ok_iff.2 ⟨hbefore, rfl⟩
    have hok : inspect limits (some (before ++ [some e])) = .ok sum := by
      rw [inspect, inspectFrom_append, hstart, Except.bind, inspectFrom, hentry]
      rfl
    exact absurd (inspect_ok_iff.1 hok).1 hnot

/-! ## As far as an allowance goes -/

section Prefix

variable {limit total : Nat}

/-- A read loop has all that comes up to the read past its limit. -/
theorem delivered_le_pulledFrom {reads all : List ReadResult} (hfirst : reads <+: all)
    (h : ∀ earlier last, reads = earlier ++ [last] → satAdd total (delivered earlier).length ≤ limit) :
    (delivered reads).length ≤ pulledFrom limit total all := by
  induction all generalizing total reads with
  | nil =>
    rw [List.prefix_nil.1 hfirst]
    exact Nat.zero_le _
  | cons read all ih =>
    cases reads with
    | nil => exact Nat.zero_le _
    | cons first reads =>
      obtain ⟨rfl, hrest⟩ := List.cons_prefix_cons.1 hfirst
      have htail : ∀ earlier last, reads = earlier ++ [last] →
          satAdd total (delivered (first :: earlier)).length ≤ limit := by
        rintro earlier last rfl
        exact h (first :: earlier) last rfl
      cases first with
      | failed => exact Nat.zero_le _
      | interrupted =>
        show (delivered reads).length ≤ pulledFrom limit total all
        exact ih hrest htail
      | ok bytes =>
        cases bytes with
        | nil => exact Nat.zero_le _
        | cons b bytes =>
          have hmore : ∀ earlier last, reads = earlier ++ [last] →
              satAdd (satAdd total (b :: bytes).length) (delivered earlier).length ≤ limit := by
            intro earlier last heq
            have := htail earlier last heq
            rwa [delivered, List.length_append, ← satAdd_assoc] at this
          rw [delivered, List.length_append, pulledFrom]
          split
          · -- the loop stops here, and so do the reads
            rename_i hpast
            rcases List.eq_nil_or_concat reads with rfl | ⟨earlier, last, rfl⟩
            · exact Nat.le_refl _
            · have hle := hmore earlier last (by simp)
              have hmono := le_satAdd (satAdd_le total (b :: bytes).length) (delivered earlier).length
              omega
          · exact Nat.add_le_add_left (ih hrest hmore) _

/-- And no more than some such reads have. -/
theorem exists_reads_pulledFrom (htotal : total ≤ limit) (all : List ReadResult) :
    ∃ reads, reads <+: all ∧
      (∀ earlier last, reads = earlier ++ [last] → satAdd total (delivered earlier).length ≤ limit) ∧
      (delivered reads).length = pulledFrom limit total all := by
  have hstart : satAdd total (delivered []).length ≤ limit := (Nat.min_le_left _ _).trans htotal
  have hnone : ∀ earlier last, ([] : List ReadResult) = earlier ++ [last] →
      satAdd total (delivered earlier).length ≤ limit := by simp
  induction all generalizing total with
  | nil => exact ⟨[], List.nil_prefix, hnone, rfl⟩
  | cons read all ih =>
    cases read with
    | failed => exact ⟨[], List.nil_prefix, hnone, rfl⟩
    | interrupted =>
      obtain ⟨reads, hfirst, hupTo, hlength⟩ := ih htotal hstart hnone
      refine ⟨.interrupted :: reads, List.cons_prefix_cons.2 ⟨rfl, hfirst⟩, fun earlier last heq => ?_, hlength⟩
      cases earlier with
      | nil => exact hstart
      | cons first earlier =>
        obtain ⟨rfl, rfl⟩ := List.cons.inj heq
        exact hupTo earlier last rfl
    | ok bytes =>
      cases bytes with
      | nil => exact ⟨[], List.nil_prefix, hnone, rfl⟩
      | cons b bytes =>
        rw [pulledFrom]
        by_cases hpast : satAdd total (b :: bytes).length > limit
        · refine ⟨[.ok (b :: bytes)], List.cons_prefix_cons.2 ⟨rfl, List.nil_prefix⟩, fun earlier last heq => ?_, ?_⟩
          · cases earlier with
            | nil => exact hstart
            | cons first earlier => simp at heq
          · simp only [if_pos hpast, delivered, List.append_nil, Nat.add_zero]
        · have hle := Nat.not_lt.1 hpast
          have hagain : satAdd (satAdd total (b :: bytes).length) (delivered []).length ≤ limit :=
            (Nat.min_le_left _ _).trans hle
          obtain ⟨reads, hfirst, hupTo, hlength⟩ := ih hle hagain (by simp)
          refine ⟨.ok (b :: bytes) :: reads, List.cons_prefix_cons.2 ⟨rfl, hfirst⟩, fun earlier last heq => ?_, ?_⟩
          · cases earlier with
            | nil => exact hstart
            | cons first earlier =>
              obtain ⟨rfl, rfl⟩ := List.cons.inj heq
              rw [delivered, List.length_append, ← satAdd_assoc]
              exact hupTo earlier last rfl
          · simp only [if_neg hpast, delivered, List.length_append, hlength]

end Prefix

/-- The reads up to an allowance have at most `n` bytes exactly where the read
loop has. -/
theorem pulled_le_iff {limit n : Nat} {all : List ReadResult} :
    pulled limit all ≤ n ↔ ∀ reads, reads <+: all → UpTo limit reads → (delivered reads).length ≤ n := by
  have hcount : ∀ bytes : List UInt8, satAdd 0 bytes.length = byteCount bytes := fun bytes => by
    rw [satAdd, Nat.zero_add, byteCount]
  constructor
  · intro h reads hfirst hupTo
    refine (delivered_le_pulledFrom hfirst fun earlier last heq => ?_).trans h
    rw [hcount]
    exact hupTo earlier last heq
  · intro h
    obtain ⟨reads, hfirst, hupTo, hlength⟩ := exists_reads_pulledFrom (Nat.zero_le limit) all
    rw [pulled, ← hlength]
    refine h reads hfirst fun earlier last heq => ?_
    rw [← hcount]
    exact hupTo earlier last heq

/-- What a turn of the loop of `inspect` reads is what the allowance lets
through. -/
theorem firstReads_le_iff {n : Nat} {e : Entry} :
    entryReads limits (measured before) e ≤ n ↔
      ∀ reads, FirstReads limits before (some e :: after) reads → (delivered reads).length ≤ n := by
  have hentry : entryReads limits (measured before) e =
      match classify e.name with
      | some part => pulled (allowance limits before part) e.reads
      | none => 0 := by
    unfold entryReads
    cases classify e.name with
    | none => rfl
    | some part => cases part <;> rfl
  rw [hentry]
  constructor
  · intro h reads hreads
    cases hreads with
    | none => exact Nat.zero_le _
    | part hclass hfirst hupTo =>
      rw [hclass] at h
      exact pulled_le_iff.1 h reads hfirst hupTo
  · intro h
    cases hclass : classify e.name with
    | none => exact Nat.zero_le _
    | some part => exact pulled_le_iff.2 fun reads hfirst hupTo => h reads (.part hclass hfirst hupTo)

theorem workBounded_iff (limits : InflateLimits) (entries : List (Option Entry)) :
    WorkBounded limits entries ↔ InflatesWithin limits entries := by
  constructor
  · rintro h before after reads rfl hpasses hreads
    have hnext : (delivered reads).length ≤ inspectReadsFrom limits (measured before) after := by
      cases hreads with
      | none => exact Nat.zero_le _
      | @part e part after reads hclass hfirst hupTo =>
        have hentry := (@firstReads_le_iff _ _ after _ _).1 (Nat.le_refl (entryReads limits (measured before) e)) reads
          (.part hclass hfirst hupTo)
        rw [inspectReadsFrom]
        omega
    rw [WorkBounded, inspectReads_append hpasses] at h
    omega
  · intro h
    rcases passes_or_first limits entries with hpasses | ⟨before, e, after, rfl, hbefore, hnot⟩
    · have hall := h entries [] [] (List.append_nil _).symm hpasses (.none [])
      rw [WorkBounded, inspectReads_passes hpasses]
      exact (Nat.le_add_right _ _).trans hall
    · -- what is read past the start that passes is of the entry that ends the inspection
      obtain ⟨r, hentry⟩ := inspectEntry_first hbefore hnot
      have hstart := h before (some e :: after) [] rfl hbefore (.none _)
      have hnext : entryReads limits (measured before) e ≤ limits.work - inflatedBytes before := by
        refine (@firstReads_le_iff _ _ after _ _).2 fun reads hreads => ?_
        have := h before (some e :: after) reads rfl hbefore hreads
        omega
      rw [WorkBounded, inspectReads_append hbefore, inspectReadsFrom, hentry]
      have hle : inflatedBytes before ≤ limits.work := (Nat.le_add_right _ _).trans hstart
      simp only [Nat.add_zero]
      omega

/-! ## Where the tables are few or small -/

/-- A read loop stops within a buffer of its limit. -/
theorem pulledFrom_le {limit : Nat} (hlimit : limit < U64_MAX) {total : Nat} (htotal : total ≤ limit)
    {reads : List ReadResult} (hreads : ∀ bytes, .ok bytes ∈ reads → bytes.length ≤ READ_BUFFER) :
    total + pulledFrom limit total reads ≤ limit + READ_BUFFER := by
  induction reads generalizing total with
  | nil => exact htotal.trans (Nat.le_add_right _ _)
  | cons read reads ih =>
    have hrest : ∀ bytes, .ok bytes ∈ reads → bytes.length ≤ READ_BUFFER := fun bytes h =>
      hreads bytes (List.mem_cons_of_mem _ h)
    cases read with
    | failed => exact htotal.trans (Nat.le_add_right _ _)
    | interrupted => exact ih htotal hrest
    | ok bytes =>
      cases bytes with
      | nil => exact htotal.trans (Nat.le_add_right _ _)
      | cons b bytes =>
        have hchunk := hreads _ List.mem_cons_self
        rw [pulledFrom]
        split
        · -- the read that passes the limit is the last one
          omega
        · rename_i hwithin
          have hle := Nat.not_lt.1 hwithin
          have hadd : satAdd total (b :: bytes).length = total + (b :: bytes).length := by
            unfold satAdd at hle ⊢
            omega
          have := ih hle hrest
          omega

theorem pulled_le {limit : Nat} (hlimit : limit < U64_MAX) (e : Entry) : pulled limit e.reads ≤ limit + READ_BUFFER := by
  have := pulledFrom_le hlimit (Nat.zero_le limit) e.reads_le
  rwa [Nat.zero_add] at this

theorem pulledFrom_le_length (limit total : Nat) (reads : List ReadResult) :
    pulledFrom limit total reads ≤ (delivered reads).length := by
  induction reads generalizing total with
  | nil => exact Nat.le_refl _
  | cons read reads ih =>
    cases read with
    | failed => exact Nat.zero_le _
    | interrupted => exact ih total
    | ok bytes =>
      cases bytes with
      | nil => exact Nat.zero_le _
      | cons b bytes =>
        have hrest := ih (satAdd total (b :: bytes).length)
        rw [pulledFrom, delivered, List.length_append]
        split <;> omega

theorem length_of_byteCount_le {bytes : List UInt8} {n : Nat} (h : byteCount bytes ≤ n) (hn : n < U64_MAX) :
    byteCount bytes = bytes.length := by
  unfold byteCount at h ⊢
  omega

theorem partBytes_picture (hmax : limits.maxPictureTotalBytes < U64_MAX) (h : Passes limits entries) :
    partBytes .picture entries = pictureSum entries := by
  unfold partBytes pictureSum
  refine congrArg List.sum (List.map_congr_left fun e he => ?_)
  have hle : byteCount e.bytes ≤ pictureSum entries :=
    List.le_sum_of_mem (List.mem_map_of_mem he)
  exact (length_of_byteCount_le (hle.trans h.total) hmax).symm

/-- The tables are within the limit of one: there is no second table, or they
are together no more than that and a buffer. -/
def FewTables (limits : InflateLimits) (entries : List (Option Entry)) : Prop :=
  (partsOf .sharedStrings entries).length ≤ 1 ∨
    partBytes .sharedStrings entries ≤ limits.maxSharedStringsBytes + READ_BUFFER

theorem partBytes_tables (htables : limits.maxSharedStringsBytes < U64_MAX) (hpasses : Passes limits before)
    (h : FewTables limits (before ++ after)) :
    partBytes .sharedStrings before ≤ limits.maxSharedStringsBytes + READ_BUFFER := by
  rcases h with hone | hsum
  · rw [partsOf_append, List.length_append] at hone
    unfold partBytes
    cases hparts : partsOf .sharedStrings before with
    | nil => exact Nat.zero_le _
    | cons e rest =>
      rw [hparts, List.length_cons] at hone
      obtain rfl : rest = [] := List.eq_nil_of_length_eq_zero (by omega)
      have hsize := (hpasses.table e (hparts ▸ List.mem_singleton_self e)).size
      rw [List.map_cons, List.map_nil, List.sum_singleton, ← length_of_byteCount_le hsize htables]
      exact hsize.trans (Nat.le_add_right _ _)
  · rw [partBytes_append] at hsum
    omega

theorem nextTable_le (htables : limits.maxSharedStringsBytes < U64_MAX) {e : Entry}
    (hclass : classify e.name = some .sharedStrings) (h : FewTables limits (before ++ some e :: after)) :
    partBytes .sharedStrings before + pulled limits.maxSharedStringsBytes e.reads ≤
      limits.maxSharedStringsBytes + READ_BUFFER := by
  rcases h with hone | hsum
  · rw [partsOf_append, partsOf_cons_of hclass, List.length_append, List.length_cons] at hone
    have hnone : partsOf .sharedStrings before = [] := List.eq_nil_of_length_eq_zero (by omega)
    rw [partBytes, hnone, List.map_nil, List.sum_nil, Nat.zero_add]
    exact pulled_le htables e
  · have hpart : partBytes .sharedStrings (some e :: after) = e.bytes.length + partBytes .sharedStrings after := by
      simp only [partBytes, partsOf_cons_of hclass, List.map_cons, List.sum_cons]
    have hpulled : pulled limits.maxSharedStringsBytes e.reads ≤ e.bytes.length := pulledFrom_le_length _ _ _
    rw [partBytes_append, hpart] at hsum
    omega

/-- The pictures share their allowance. -/
theorem inflatesWithin_of_few (hpictures : limits.maxPictureTotalBytes < U64_MAX)
    (htables : limits.maxSharedStringsBytes < U64_MAX) (h : FewTables limits entries) : InflatesWithin limits entries := by
  rintro before after reads rfl hpasses hreads
  have hpicture : partBytes .picture before = pictureSum before := partBytes_picture hpictures hpasses
  have htotal := hpasses.total
  have htable := partBytes_tables htables hpasses h
  unfold inflatedBytes InflateLimits.work
  cases hreads with
  | none =>
    simp only [delivered, List.length_nil]
    omega
  | @part e part after reads hclass hfirst hupTo =>
    have hnext := pulled_le_iff.1 (Nat.le_refl (pulled (allowance limits before part) e.reads)) reads hfirst hupTo
    cases part with
    | picture =>
      have hlimit : allowance limits before .picture ≤ limits.maxPictureTotalBytes - pictureSum before :=
        Nat.min_le_right _ _
      have hpulled := @pulled_le (allowance limits before .picture) (by omega) e
      omega
    | sharedStrings =>
      have hpulled : partBytes .sharedStrings before + pulled (allowance limits before .sharedStrings) e.reads ≤
          limits.maxSharedStringsBytes + READ_BUFFER := nextTable_le htables hclass h
      omega

/-- The scan keeps within its limits exactly where the parts of the archive, as
far as it passes, inflate to no more; for an archive that passes that is all
of them. One table, or tables together within a buffer of the limit of one,
always do. -/
theorem inspect_work_bounded_iff (limits : InflateLimits) (entries : List (Option Entry)) :
    (WorkBounded limits entries ↔ InflatesWithin limits entries) ∧
    (Passes limits entries → (WorkBounded limits entries ↔ inflatedBytes entries ≤ limits.work)) ∧
    (limits.maxPictureTotalBytes < U64_MAX → limits.maxSharedStringsBytes < U64_MAX → FewTables limits entries →
      WorkBounded limits entries) := by
  refine ⟨workBounded_iff limits entries, fun hpasses => ?_, fun hpictures htables hfew => ?_⟩
  · rw [WorkBounded, inspectReads_passes hpasses]
  · exact (workBounded_iff limits entries).2 (inflatesWithin_of_few hpictures htables hfew)

/-! ## Tables of blanks -/

/-- A table of as many blanks as a buffer holds. -/
def blankTable (name : String) : Entry where
  name := name
  reads := [.ok (List.replicate READ_BUFFER 0x20)]
  reads_le := by
    intro bytes hbytes
    obtain rfl : bytes = List.replicate READ_BUFFER 0x20 := by simpa using hbytes
    exact (List.length_replicate ..).le

/-- No picture, and tables of one buffer. -/
def oneBuffer : InflateLimits where
  maxPictureBytes := 0
  maxPictureTotalBytes := 0
  maxSharedStringsBytes := READ_BUFFER
  picture_le := Nat.zero_le _
  pictureTotal_le := Nat.zero_le _
  sharedStrings_le := by decide

def blankTables (names : List String) : List (Option Entry) := names.map fun name => some (blankTable name)

theorem blankTable_bytes (name : String) : (blankTable name).bytes = List.replicate READ_BUFFER 0x20 :=
  delivered_one _

theorem blankTable_passes (name : String) : TablePasses oneBuffer (blankTable name) := by
  constructor
  · rw [blankTable_bytes, byteCount, List.length_replicate]
    exact Nat.min_le_left _ _
  · intro declared h
    have habsent : ¬ ascii "<sst" <:+: List.replicate (min SST_HEAD_SCAN READ_BUFFER) 0x20 := by
      intro hin
      have hmem := hin.subset (show 0x3C ∈ ascii "<sst" by decide)
      rw [List.mem_replicate] at hmem
      exact absurd hmem.2 (by decide)
    rw [blankTable_bytes, declaredCount, List.take_replicate, declaredUniqueCount_eq,
      (Search.position_eq_none_iff_absent (by decide)).2 habsent] at h
    cases h

/-- Each of them is read in full, however many there are. -/
theorem blankTables_read {names : List String} (hnames : ∀ name ∈ names, classify name = some .sharedStrings)
    (sum : Inflated) : inspectReadsFrom oneBuffer sum (blankTables names) = names.length * READ_BUFFER := by
  induction names generalizing sum with
  | nil => exact (Nat.zero_mul _).symm
  | cons name names ih =>
    have hclass : classify (blankTable name).name = some .sharedStrings := hnames name List.mem_cons_self
    have hverdict := (@tableVerdict_ok_iff _ _ (quoted name) _).2 ⟨blankTable_passes name, rfl⟩
    have hreads : entryReads oneBuffer sum (blankTable name) = READ_BUFFER := by
      have hwithin : byteCount (delivered (blankTable name).reads) ≤ oneBuffer.maxSharedStringsBytes :=
        (blankTable_passes name).size
      have hbytes : delivered (blankTable name).reads = List.replicate READ_BUFFER 0x20 := blankTable_bytes name
      simp only [entryReads, hclass]
      rw [pulled_eq hwithin, hbytes, List.length_replicate]
    rw [blankTables, List.map_cons, inspectReadsFrom, hreads, inspectEntry_sharedStrings hclass,
      show (blankTable name).name = name from rfl, hverdict]
    simp only [Except.map]
    rw [show List.map (fun name => some (blankTable name)) names = blankTables names from rfl,
      ih (fun name hname => hnames name (List.mem_cons_of_mem _ hname)), List.length_cons, Nat.succ_mul, Nat.add_comm]

/-- Four tables, none of them past its limit, give more than the limits and two
buffers. -/
theorem four_tables_unbounded : ¬ WorkBounded oneBuffer (blankTables
    ["a/sharedStrings.xml", "b/sharedStrings.xml", "c/sharedStrings.xml", "d/sharedStrings.xml"]) := by
  have hnames : ∀ name ∈ ["a/sharedStrings.xml", "b/sharedStrings.xml", "c/sharedStrings.xml",
      "d/sharedStrings.xml"], classify name = some .sharedStrings := by decide +kernel
  rw [WorkBounded, inspectReads, blankTables_read hnames]
  decide

theorem partBytes_blankTables {names : List String} (hnames : ∀ name ∈ names, classify name = some .sharedStrings) :
    partBytes .sharedStrings (blankTables names) = names.length * READ_BUFFER := by
  unfold partBytes
  induction names with
  | nil => exact (Nat.zero_mul _).symm
  | cons name names ih =>
    have hclass : classify (blankTable name).name = some .sharedStrings := hnames name List.mem_cons_self
    have hrest := ih fun name hname => hnames name (List.mem_cons_of_mem _ hname)
    rw [blankTables] at hrest ⊢
    rw [List.map_cons, partsOf_cons_of hclass, List.map_cons, List.sum_cons, hrest, blankTable_bytes,
      List.length_replicate, List.length_cons, Nat.succ_mul, Nat.add_comm]

/-- Two of them are together a buffer past the limit of one. -/
theorem inspect_work_bounded_iff_two :
    WorkBounded oneBuffer (blankTables ["a/sharedStrings.xml", "b/sharedStrings.xml"]) := by
  have hnames : ∀ name ∈ ["a/sharedStrings.xml", "b/sharedStrings.xml"], classify name = some .sharedStrings := by
    decide +kernel
  exact (inspect_work_bounded_iff oneBuffer _).2.2 (by decide) (by decide)
    (.inr (partBytes_blankTables hnames ▸ (by decide)))

end GrpcCalamine
