import GrpcCalamine.Archive.Records
/-!
# A table's bytes decide

However a table is split into reads, `scan_shared_strings` answers what
`tableVerdict` says of its bytes (`scanSharedStrings_eq`).
-/

namespace GrpcCalamine

/-- A reader that gives its bytes at once. -/
theorem delivered_one (bytes : List UInt8) : delivered [.ok bytes] = bytes := by
  cases bytes with
  | nil => rfl
  | cons b bytes => simp [delivered]

/-- How many bytes there are, as a `u64` counts them. -/
def byteCount (bytes : List UInt8) : Nat := min bytes.length U64_MAX

theorem byteCount_of_le {bytes : List UInt8} {limits : InflateLimits}
    (h : bytes.length ≤ limits.maxSharedStringsBytes) : byteCount bytes = bytes.length :=
  Nat.min_eq_left (h.trans limits.sharedStrings_le)

/-- What the tags or the records of a table are charged. -/
def entriesCost (binary : Bool) (bytes : List UInt8) : Nat :=
  if binary then satMul (RecordCounter.default.feed bytes).records SHARED_STRING_RECORD_COST
  else satMul (bytes.countP (· = 0x3C)) SHARED_STRING_TAG_COST

/-- The count a table declares, as the scan reads it. -/
def declaredCount (bytes : List UInt8) : Option Nat := declaredUniqueCount (bytes.take SST_HEAD_SCAN)

/-- What a table is charged. -/
def tableEstimate (binary : Bool) (bytes : List UInt8) : Nat :=
  let parsed := satAdd (byteCount bytes) (entriesCost binary bytes)
  match declaredCount bytes with
  | none => parsed
  | some declared => max parsed (satMul declared SHARED_STRING_SLOT)

/-- The table could not hold the strings it declares. -/
def overDeclared (bytes : List UInt8) : Option Nat :=
  (declaredCount bytes).filter fun declared => byteCount bytes / MIN_SI_BYTES < declared

def tableVerdict (name : String) (binary : Bool) (limits : InflateLimits) (bytes : List UInt8) :
    Except Rejected Nat :=
  if byteCount bytes > limits.maxSharedStringsBytes then
    .error (.limit (.sharedStrings name limits.maxSharedStringsBytes))
  else
    match overDeclared bytes with
    | some declared =>
      .error (.malformed name (malformedCount declared (byteCount bytes) (byteCount bytes / MIN_SI_BYTES)))
    | none => .ok (tableEstimate binary bytes)

attribute [ext] SharedStringsScan

namespace SharedStringsScan

variable {s : SharedStringsScan}

theorem take_head {binary : Bool} {bytes : List UInt8} (hhead : s.head.length ≤ SST_HEAD_SCAN) :
    (s.take binary bytes).head = (s.head ++ bytes).take SST_HEAD_SCAN := by
  rw [List.take_append, List.take_of_length_le hhead]
  simp only [take]
  split
  · rfl
  · rw [show SST_HEAD_SCAN - s.head.length = 0 by omega, List.take_zero, List.append_nil]

theorem take_append_take (n : Nat) (l r : List UInt8) : (l.take n ++ r).take n = (l ++ r).take n := by
  rw [List.take_append, List.take_append, List.take_take, Nat.min_self, List.length_take]
  congr 2
  omega

/-- What the read loop keeps: a head no longer than it scans, a `u64` total, a
counter between bytes. -/
structure Ready (s : SharedStringsScan) : Prop where
  head : s.head.length ≤ SST_HEAD_SCAN
  total : s.total ≤ U64_MAX
  live : s.records.Live

theorem ready_start : start.Ready := ⟨Nat.zero_le _, Nat.zero_le _, RecordCounter.live_default⟩

theorem Ready.take (hs : s.Ready) (binary : Bool) (bytes : List UInt8) : (s.take binary bytes).Ready := by
  constructor
  · rw [take_head hs.head]
    exact List.length_take_le _ _
  · exact satAdd_le _ _
  · cases binary
    · exact hs.live
    · simp only [SharedStringsScan.take, if_true, RecordCounter.feed_eq hs.live]
      exact RecordCounter.live_foldl hs.live bytes

theorem take_nil (hs : s.Ready) (binary : Bool) : s.take binary [] = s := by
  obtain ⟨head, total, tags, records⟩ := s
  have htotal := satAdd_zero hs.total
  cases binary <;> simp [take, htotal, RecordCounter.feed]

theorem take_append (hs : s.Ready) (binary : Bool) (bytes more : List UInt8) :
    (s.take binary bytes).take binary more = s.take binary (bytes ++ more) := by
  have hhead : ((s.take binary bytes).take binary more).head = (s.take binary (bytes ++ more)).head := by
    rw [take_head (hs.take binary bytes).head, take_head hs.head, take_head hs.head, take_append_take,
      List.append_assoc]
  have htotal : satAdd (satAdd s.total bytes.length) more.length = satAdd s.total (bytes ++ more).length := by
    rw [List.length_append, satAdd_assoc]
  have htags : ((s.take binary bytes).take binary more).tags = (s.take binary (bytes ++ more)).tags := by
    cases binary
    · simp [take, List.countP_append, Nat.add_assoc]
    · rfl
  have hrecords : ((s.take binary bytes).take binary more).records = (s.take binary (bytes ++ more)).records := by
    cases binary
    · rfl
    · exact (RecordCounter.feed_append hs.live bytes more).symm
  exact SharedStringsScan.ext hhead htotal htags hrecords

theorem total_take_mono (hs : s.Ready) (binary : Bool) (bytes : List UInt8) :
    s.total ≤ (s.take binary bytes).total :=
  le_satAdd hs.total _

/-- The loop takes all the bytes its reader gives, or refuses them. -/
theorem readAll_eq (binary : Bool) (name : String) (limits : InflateLimits) (hs : s.Ready)
    (hlimit : s.total ≤ limits.maxSharedStringsBytes) (reads : List ReadResult) :
    readAll binary name limits s reads =
      if (s.take binary (delivered reads)).total > limits.maxSharedStringsBytes then
        .error (.limit (.sharedStrings name limits.maxSharedStringsBytes))
      else .ok (s.take binary (delivered reads)) := by
  have hstop : (if (s.take binary []).total > limits.maxSharedStringsBytes then
      (.error (.limit (.sharedStrings name limits.maxSharedStringsBytes)) : Except Rejected SharedStringsScan)
      else .ok (s.take binary [])) = .ok s := by
    rw [take_nil hs, if_neg (Nat.not_lt.2 hlimit)]
  induction reads generalizing s with
  | nil => exact hstop.symm
  | cons read reads ih =>
    cases read with
    | failed => exact hstop.symm
    | interrupted => exact ih hs hlimit hstop
    | ok bytes =>
      cases bytes with
      | nil => exact hstop.symm
      | cons b bytes =>
        have hready := hs.take binary (b :: bytes)
        have hmono := total_take_mono hready binary (delivered reads)
        rw [take_append hs] at hmono
        rw [readAll, delivered]
        split
        · -- further reads add to a total that is too much already
          rename_i hmore
          rw [if_pos (by omega)]
        · rename_i hwithin
          have hle := Nat.not_lt.1 hwithin
          rw [ih hready hle (by rw [take_nil hready, if_neg hwithin]), take_append hs]

end SharedStringsScan

/-- A table's bytes decide, however they are split into reads. -/
theorem scanSharedStrings_eq (reads : List ReadResult) (name : String) (binary : Bool) (limits : InflateLimits) :
    scanSharedStrings reads name binary limits = tableVerdict name binary limits (delivered reads) := by
  have htotal : (SharedStringsScan.start.take binary (delivered reads)).total = byteCount (delivered reads) := by
    simp [SharedStringsScan.take, SharedStringsScan.start, satAdd, byteCount]
  have hhead : (SharedStringsScan.start.take binary (delivered reads)).head =
      (delivered reads).take SST_HEAD_SCAN := by
    rw [SharedStringsScan.take_head SharedStringsScan.ready_start.head]
    rfl
  unfold scanSharedStrings tableVerdict
  rw [SharedStringsScan.readAll_eq binary name limits SharedStringsScan.ready_start (Nat.zero_le _), htotal]
  split
  · rfl
  · have hcost : (if binary then
        satMul (SharedStringsScan.start.take binary (delivered reads)).records.records SHARED_STRING_RECORD_COST
        else satMul (SharedStringsScan.start.take binary (delivered reads)).tags SHARED_STRING_TAG_COST) =
        entriesCost binary (delivered reads) := by
      cases binary <;> simp [SharedStringsScan.take, SharedStringsScan.start, entriesCost]
    simp only [bind, Except.bind, hhead, htotal, hcost, overDeclared, tableEstimate, declaredCount]
    cases declaredUniqueCount ((delivered reads).take SST_HEAD_SCAN) with
    | none => rfl
    | some declared =>
      by_cases hmore : byteCount (delivered reads) / MIN_SI_BYTES < declared
      · simp [Option.filter, hmore]
        rfl
      · simp [Option.filter, hmore]
        rfl

end GrpcCalamine
