import GrpcCalamine.Archive.Scan
import GrpcCalamine.Lib.Transition
/-!
# The record counter, byte by byte

`RecordCounter::feed` skips over a payload as far as its piece goes. One byte
at a time it comes to the same counter (`feed_eq`), so how a stream is cut
into pieces does not matter (`feed_append`), and a stream of records counts as
many as it has (`feed_records`).

`headers` reads the bytes in sequence instead, with no state to keep: a header,
its payload skipped, the next header. On any bytes the counter finds the
headers it finds (`feed_headers`).
-/

namespace GrpcCalamine

namespace RecordCounter

/-- The counter after one more byte. -/
def step (c : RecordCounter) (byte : UInt8) : RecordCounter := (c.turn byte []).1

/-- A payload has bytes left to skip. -/
def Live (c : RecordCounter) : Prop := c.state ≠ .payload 0

theorem live_default : default.Live := by
  intro h
  cases h

/-- A turn uses up a byte at least, and never leaves a payload of no bytes. -/
theorem live_turn {c : RecordCounter} (hc : c.Live) (byte : UInt8) (rest : List UInt8) :
    (c.turn byte rest).1.Live ∧ (c.turn byte rest).2.length < rest.length + 1 := by
  obtain ⟨records, state⟩ := c
  unfold Live
  cases state with
  | type =>
    refine ⟨?_, Nat.lt_succ_self _⟩
    simp only [turn]
    split <;> rintro ⟨⟩
  | typeSecond => exact ⟨by rintro ⟨⟩, Nat.lt_succ_self _⟩
  | length read len =>
    simp only [turn]
    split
    · exact ⟨by rintro ⟨⟩, Nat.lt_succ_self _⟩
    · refine ⟨?_, Nat.lt_succ_self _⟩
      simp only []
      split
      · rintro ⟨⟩
      · next hlen => exact fun h => hlen (RecordState.payload.inj h)
  | payload left =>
    have hpos : left ≠ 0 := fun h0 => hc (by rw [h0])
    simp only [turn, List.length_drop, List.length_cons]
    refine ⟨?_, by omega⟩
    split
    · rintro ⟨⟩
    · next hleft =>
      intro h
      have hzero := RecordState.payload.inj h
      omega

theorem live_step {c : RecordCounter} (hc : c.Live) (byte : UInt8) : (c.step byte).Live := (live_turn hc byte []).1

/-- Outside a payload a turn is a byte. -/
theorem turn_eq {c : RecordCounter} (byte : UInt8) (rest : List UInt8) (hc : ∀ left, c.state ≠ .payload left) :
    c.turn byte rest = (c.step byte, rest) := by
  obtain ⟨records, state⟩ := c
  cases state with
  | type => rfl
  | typeSecond => rfl
  | length read len =>
    simp only [step, turn]
    split <;> rfl
  | payload left => exact absurd rfl (hc left)

/-- A payload that goes on past the bytes at hand. -/
theorem feed_payload (records : Nat) {left : Nat} (bytes : List UInt8) (hlt : bytes.length < left) :
    feed ⟨records, .payload left⟩ bytes = ⟨records, .payload (left - bytes.length)⟩ := by
  cases bytes with
  | nil => rw [feed]; rfl
  | cons byte rest =>
    rw [List.length_cons] at hlt
    have hskip : min left (rest.length + 1) = rest.length + 1 := by omega
    have hturn : turn ⟨records, .payload left⟩ byte rest = (⟨records, .payload (left - (rest.length + 1))⟩, []) := by
      simp only [turn, hskip, if_neg (show left ≠ rest.length + 1 by omega), List.drop_succ_cons, List.drop_length]
    rw [feed, hturn]
    simp only []
    rw [feed, List.length_cons]

/-- A payload that ends among the bytes at hand. -/
theorem feed_payload_end (records : Nat) {left : Nat} (bytes : List UInt8) (hpos : 0 < left)
    (hle : left ≤ bytes.length) :
    feed ⟨records, .payload left⟩ bytes = feed ⟨records, .type⟩ (bytes.drop left) := by
  cases bytes with
  | nil => exact absurd hle (by simp; omega)
  | cons byte rest =>
    have hskip : min left (rest.length + 1) = left := Nat.min_eq_left hle
    rw [feed]
    simp only [turn, hskip, if_true]

theorem foldl_step_payload (records : Nat) {left : Nat} (bytes : List UInt8) (hpos : 0 < left) :
    bytes.foldl step ⟨records, .payload left⟩ =
      if bytes.length < left then ⟨records, .payload (left - bytes.length)⟩
      else (bytes.drop left).foldl step ⟨records, .type⟩ := by
  induction bytes generalizing left with
  | nil => simp [hpos]
  | cons byte rest ih =>
    rw [List.foldl_cons]
    by_cases hone : left = 1
    · subst hone
      have hstep : step ⟨records, .payload 1⟩ byte = ⟨records, .type⟩ := rfl
      simp [hstep]
    · obtain ⟨left, rfl⟩ : ∃ k, left = k + 1 := ⟨left - 1, by omega⟩
      have hstep : step ⟨records, .payload (left + 1)⟩ byte = ⟨records, .payload left⟩ := by
        have hskip : min (left + 1) 1 = 1 := by omega
        simp only [step, turn, List.length_nil, Nat.zero_add, hskip, if_neg hone, Nat.add_sub_cancel]
      rw [hstep, ih (by omega)]
      simp

/-- A piece fed at once or one byte at a time. -/
theorem feed_eq {c : RecordCounter} (hc : c.Live) (bytes : List UInt8) : c.feed bytes = bytes.foldl step c := by
  induction hn : bytes.length using Nat.strong_induction_on generalizing c bytes with
  | _ n ih =>
    obtain ⟨records, state⟩ := c
    cases bytes with
    | nil => rw [feed]; rfl
    | cons byte rest =>
      rw [List.length_cons] at hn
      by_cases hstate : ∃ left, state = .payload left
      · obtain ⟨left, rfl⟩ := hstate
        have hpos : 0 < left := Nat.pos_of_ne_zero fun h0 => hc (by rw [h0])
        rw [foldl_step_payload records _ hpos]
        split
        · rename_i hlt
          exact feed_payload records _ hlt
        · rename_i hle
          rw [feed_payload_end records _ hpos (Nat.not_lt.1 hle)]
          have hshort : ((byte :: rest).drop left).length < n := by
            rw [List.length_drop, List.length_cons]
            omega
          apply ih _ hshort ?_ _ rfl
          intro h
          cases h
      · rw [feed, turn_eq byte rest fun left h => hstate ⟨left, h⟩, List.foldl_cons]
        exact ih rest.length (by omega) (live_step hc byte) rest rfl

theorem live_foldl {c : RecordCounter} (hc : c.Live) (bytes : List UInt8) : (bytes.foldl step c).Live := by
  induction bytes generalizing c with
  | nil => exact hc
  | cons byte rest ih => exact ih (live_step hc byte)

/-- The pieces of a stream count as the stream. -/
theorem feed_append {c : RecordCounter} (hc : c.Live) (bytes more : List UInt8) :
    c.feed (bytes ++ more) = (c.feed bytes).feed more := by
  rw [feed_eq hc, List.foldl_append, feed_eq hc, feed_eq (live_foldl hc bytes)]

end RecordCounter

/-! ## Records -/

/-- The bytes of a length, `read` of them before: seven bits each, low bits
first, and a high bit on all but the last. A fourth byte is the last. -/
inductive LengthBytes : (read : Nat) → List UInt8 → Nat → Prop where
  | last {read : Nat} {b : UInt8} (h : b &&& 0x80 = 0 ∨ read = 3) : LengthBytes read [b] (b &&& 0x7F).toNat
  | more {read : Nat} {b : UInt8} {bytes : List UInt8} {n : Nat} (h : b &&& 0x80 ≠ 0) (hread : read < 3)
      (hrest : LengthBytes (read + 1) bytes n) : LengthBytes read (b :: bytes) ((b &&& 0x7F).toNat + 2 ^ 7 * n)

/-- A BIFF12 record: a type of one or two bytes, a length, and that many
bytes. -/
structure BiffRecord where
  type : List UInt8
  length : List UInt8
  payload : List UInt8
  type_ok : (∃ b, b &&& 0x80 = 0 ∧ type = [b]) ∨ ∃ b second, b &&& 0x80 ≠ 0 ∧ type = [b, second]
  length_ok : LengthBytes 0 length payload.length

def BiffRecord.bytes (r : BiffRecord) : List UInt8 := r.type ++ (r.length ++ r.payload)

namespace RecordCounter

/-- Where a counter is that has read a length. -/
def atPayload : (len : Nat) → RecordState
  | 0 => .type
  | len + 1 => .payload (len + 1)

theorem atPayload_eq (len : Nat) : (if len = 0 then .type else .payload len) = atPayload len := by
  cases len <;> rfl

/-- Seven more bits of a length. -/
theorem or_shift {read len : Nat} (hlen : len < 2 ^ (7 * read)) (bits : Nat) :
    len ||| bits <<< (7 * read) = len + 2 ^ (7 * read) * bits := by
  rw [Nat.shiftLeft_eq, Nat.mul_comm bits, Nat.or_comm, ← Nat.two_pow_add_eq_or_of_lt hlen, Nat.add_comm]

theorem low_bits_lt (b : UInt8) : (b &&& 0x7F).toNat < 2 ^ 7 := by
  rw [UInt8.toNat_and]
  exact Nat.lt_of_le_of_lt Nat.and_le_right (by decide)

/-- The bytes of a length are one record's header. -/
theorem foldl_length {read n : Nat} {bytes : List UInt8} (h : LengthBytes read bytes n) (records : Nat) {len : Nat}
    (hlen : len < 2 ^ (7 * read)) :
    bytes.foldl step ⟨records, .length read len⟩ = ⟨records + 1, atPayload (len + 2 ^ (7 * read) * n)⟩ := by
  induction h generalizing len with
  | @last read b hlast =>
    have hstop : (b &&& 0x80 ≠ 0 && decide (read < 3)) = false := by
      rcases hlast with h | h <;> simp [h]
    rw [List.foldl_cons, List.foldl_nil, step, turn]
    simp only [hstop, Bool.false_eq_true, if_false, or_shift hlen, atPayload_eq]
  | @more read b bytes n hmore hread hrest ih =>
    have hgo : (b &&& 0x80 ≠ 0 && decide (read < 3)) = true := by simp [hmore, hread]
    have hnext : len + 2 ^ (7 * read) * (b &&& 0x7F).toNat < 2 ^ (7 * (read + 1)) := by
      have hbits := low_bits_lt b
      calc len + 2 ^ (7 * read) * (b &&& 0x7F).toNat
          < 2 ^ (7 * read) + 2 ^ (7 * read) * (b &&& 0x7F).toNat := Nat.add_lt_add_right hlen _
        _ = 2 ^ (7 * read) * ((b &&& 0x7F).toNat + 1) := by rw [Nat.mul_succ, Nat.add_comm]
        _ ≤ 2 ^ (7 * read) * 2 ^ 7 := Nat.mul_le_mul_left _ hbits
        _ = 2 ^ (7 * (read + 1)) := by rw [← Nat.pow_add, Nat.mul_succ]
    have hstep : step ⟨records, .length read len⟩ b =
        ⟨records, .length (read + 1) (len + 2 ^ (7 * read) * (b &&& 0x7F).toNat)⟩ := by
      rw [step, turn]
      simp only [hgo, if_true, or_shift hlen]
    have hsum : len + 2 ^ (7 * read) * (b &&& 0x7F).toNat + 2 ^ (7 * (read + 1)) * n =
        len + 2 ^ (7 * read) * ((b &&& 0x7F).toNat + 2 ^ 7 * n) := by
      rw [Nat.mul_succ, Nat.pow_add, Nat.mul_add, Nat.mul_assoc, Nat.add_assoc]
    rw [List.foldl_cons, hstep, ih hnext, hsum]

theorem foldl_payload (records : Nat) (payload : List UInt8) :
    payload.foldl step ⟨records, atPayload payload.length⟩ = ⟨records, .type⟩ := by
  cases payload with
  | nil => rfl
  | cons b payload =>
    rw [List.length_cons, atPayload, foldl_step_payload records _ (Nat.succ_pos _), if_neg (by simp)]
    simp

theorem foldl_type {type : List UInt8}
    (h : (∃ b, b &&& 0x80 = 0 ∧ type = [b]) ∨ ∃ b second, b &&& 0x80 ≠ 0 ∧ type = [b, second]) (records : Nat) :
    type.foldl step ⟨records, .type⟩ = ⟨records, .length 0 0⟩ := by
  rcases h with ⟨b, hb, rfl⟩ | ⟨b, second, hb, rfl⟩ <;> simp [step, turn, hb]

/-- A record counts once. -/
theorem foldl_record (r : BiffRecord) (records : Nat) :
    r.bytes.foldl step ⟨records, .type⟩ = ⟨records + 1, .type⟩ := by
  have hlength := foldl_length r.length_ok records Nat.one_pos
  rw [Nat.zero_add, Nat.mul_zero, Nat.pow_zero, Nat.one_mul] at hlength
  rw [BiffRecord.bytes, List.foldl_append, foldl_type r.type_ok, List.foldl_append, hlength, foldl_payload]

/-- A stream of records counts as many as it has. -/
theorem feed_records (rs : List BiffRecord) :
    default.feed (rs.flatMap BiffRecord.bytes) = ⟨rs.length, .type⟩ := by
  have hfold : ∀ records, (rs.flatMap BiffRecord.bytes).foldl step ⟨records, .type⟩ = ⟨records + rs.length, .type⟩ := by
    induction rs with
    | nil => exact fun _ => rfl
    | cons r rs ih =>
      intro records
      rw [List.flatMap_cons, List.foldl_append, foldl_record, ih, List.length_cons, Nat.add_right_comm, Nat.add_assoc]
  rw [feed_eq live_default, default, hfold, Nat.zero_add]

end RecordCounter

/-! ## A sequential reading -/

/-- What follows a type: one byte, or two where the first has its high bit
set. -/
def readType : List UInt8 → Option (List UInt8)
  | [] => none
  | b :: rest => if b &&& 0x80 = 0 then some rest else rest.tail?

/-- A length and what follows it, `read` bytes of it before: seven bits in each
byte, and no more than four. -/
def readLength : (read : Nat) → List UInt8 → Option (Nat × List UInt8)
  | _, [] => none
  | read, b :: rest =>
    if b &&& 0x80 = 0 ∨ 3 ≤ read then some ((b &&& 0x7F).toNat, rest)
    else (readLength (read + 1) rest).map fun x => ((b &&& 0x7F).toNat + 2 ^ 7 * x.1, x.2)

def readHeader (bytes : List UInt8) : Option (Nat × List UInt8) := (readType bytes).bind (readLength 0)

theorem readLength_used {read n : Nat} {bytes rest : List UInt8} (hread : read ≤ 3)
    (h : readLength read bytes = some (n, rest)) : ∃ used, bytes = used ++ rest ∧ LengthBytes read used n := by
  induction bytes generalizing read n with
  | nil => cases h
  | cons b bytes ih =>
    rw [readLength] at h
    split at h
    · next hlast =>
      obtain ⟨rfl, rfl⟩ := Prod.mk.inj (Option.some.inj h)
      exact ⟨[b], rfl, .last (hlast.imp_right fun h3 => Nat.le_antisymm hread h3)⟩
    · next hmore =>
      obtain ⟨hbit, hlt⟩ := not_or.1 hmore
      obtain ⟨⟨n, rest⟩, hnext, he⟩ := Option.map_eq_some_iff.1 h
      obtain ⟨rfl, rfl⟩ := Prod.mk.inj he
      obtain ⟨used, rfl, hused⟩ := ih (Nat.not_le.1 hlt) hnext
      exact ⟨b :: used, rfl, .more hbit (Nat.not_le.1 hlt) hused⟩

theorem readType_used {bytes rest : List UInt8} (h : readType bytes = some rest) :
    ∃ type, bytes = type ++ rest ∧ type ≠ [] ∧
      ((∃ b, b &&& 0x80 = 0 ∧ type = [b]) ∨ ∃ b second, b &&& 0x80 ≠ 0 ∧ type = [b, second]) := by
  cases bytes with
  | nil => cases h
  | cons b bytes =>
    rw [readType] at h
    split at h
    · next hb =>
      obtain rfl := Option.some.inj h
      exact ⟨[b], rfl, List.cons_ne_nil _ _, .inl ⟨b, hb, rfl⟩⟩
    · next hb =>
      cases bytes with
      | nil => cases h
      | cons second bytes =>
        obtain rfl := Option.some.inj h
        exact ⟨[b, second], rfl, List.cons_ne_nil _ _, .inr ⟨b, second, hb, rfl⟩⟩

theorem readHeader_lt {bytes rest : List UInt8} {n : Nat} (h : readHeader bytes = some (n, rest)) :
    rest.length < bytes.length := by
  obtain ⟨after, htype, hlength⟩ := Option.bind_eq_some_iff.1 h
  obtain ⟨type, rfl, hne, -⟩ := readType_used htype
  obtain ⟨used, rfl, -⟩ := readLength_used (Nat.zero_le 3) hlength
  have := List.length_pos_iff.2 hne
  simp only [List.length_append]
  omega

/-- How many whole headers a sequential reading finds. -/
def headers (bytes : List UInt8) : Nat :=
  match h : readHeader bytes with
  | none => 0
  | some (len, rest) => headers (rest.drop len) + 1
termination_by bytes.length
decreasing_by
  have := readHeader_lt h
  simp only [List.length_drop]
  omega

namespace RecordCounter

/-- A length cut short counts no record. -/
theorem foldl_length_none {read : Nat} {bytes : List UInt8} (h : readLength read bytes = none) (records len : Nat) :
    (bytes.foldl step ⟨records, .length read len⟩).records = records := by
  induction bytes generalizing read len with
  | nil => rfl
  | cons b bytes ih =>
    rw [readLength] at h
    split at h
    · cases h
    · next hmore =>
      obtain ⟨hbit, hlt⟩ := not_or.1 hmore
      have hgo : (b &&& 0x80 ≠ 0 && decide (read < 3)) = true := by simp [hbit, Nat.not_le.1 hlt]
      rw [List.foldl_cons, step, turn]
      simp only [hgo, if_true]
      exact ih (Option.map_eq_none_iff.1 h) _

/-- The counter finds the headers a sequential reading finds. -/
theorem foldl_headers (bytes : List UInt8) (records : Nat) :
    (bytes.foldl step ⟨records, .type⟩).records = records + headers bytes := by
  induction hn : bytes.length using Nat.strong_induction_on generalizing bytes records with
  | _ n ih =>
    rw [headers]
    split
    · next hnone =>
      -- no whole header is left: the bytes end in a type or in a length
      cases htype : readType bytes with
      | none =>
        cases bytes with
        | nil => rfl
        | cons b bytes =>
          rw [readType] at htype
          split at htype
          · cases htype
          · next hb =>
            obtain rfl : bytes = [] := by
              cases bytes with
              | nil => rfl
              | cons second bytes => cases htype
            simp [step, turn, hb]
      | some after =>
        obtain ⟨type, rfl, -, hok⟩ := readType_used htype
        have hlength : readLength 0 after = none := by
          rw [readHeader, htype] at hnone
          exact hnone
        rw [List.foldl_append, foldl_type hok, foldl_length_none hlength]
        rfl
    · next len rest hsome =>
      have hlt := readHeader_lt hsome
      obtain ⟨after, htype, hlength⟩ := Option.bind_eq_some_iff.1 hsome
      obtain ⟨type, rfl, -, hok⟩ := readType_used htype
      obtain ⟨used, rfl, hused⟩ := readLength_used (Nat.zero_le 3) hlength
      have hcount := foldl_length hused records Nat.one_pos
      rw [Nat.zero_add, Nat.mul_zero, Nat.pow_zero, Nat.one_mul] at hcount
      rw [List.foldl_append, foldl_type hok, List.foldl_append, hcount]
      have hdrop : (rest.drop len).length < n := by
        rw [List.length_drop]
        omega
      cases len with
      | zero =>
        rw [List.drop_zero] at hdrop ⊢
        rw [atPayload, ih _ hdrop _ _ rfl]
        omega
      | succ len =>
        rw [atPayload, foldl_step_payload _ _ (Nat.succ_pos _)]
        split
        · next hshort =>
          rw [List.drop_of_length_le (Nat.le_of_lt hshort), headers]
          rfl
        · rw [ih _ hdrop _ _ rfl]
          omega

theorem feed_headers (bytes : List UInt8) : (default.feed bytes).records = headers bytes := by
  rw [feed_eq live_default, default, foldl_headers, Nat.zero_add]

/-- A stream cut into any pieces. -/
theorem foldl_feed (pieces : List (List UInt8)) {c : RecordCounter} (hc : c.Live) :
    pieces.foldl feed c = c.feed pieces.flatten := by
  induction pieces generalizing c with
  | nil =>
    rw [List.flatten_nil, feed]
    rfl
  | cons piece pieces ih =>
    have hfed : (c.feed piece).Live := by
      rw [feed_eq hc]
      exact live_foldl hc piece
    rw [List.foldl_cons, ih hfed, List.flatten_cons, feed_append hc]

/-! ## The loop -/

/-- A turn of the loop of `feed`, from a counter and the bytes it has left. -/
inductive Turn : RecordCounter × List UInt8 → RecordCounter × List UInt8 → Prop where
  | turn (c : RecordCounter) (byte : UInt8) (rest : List UInt8) : Turn (c, byte :: rest) (c.turn byte rest)

/-- A turn, or the next piece once the one at hand has been used up. -/
inductive Feeds : RecordCounter × List UInt8 → RecordCounter × List UInt8 → Prop where
  | turn {s s' : RecordCounter × List UInt8} (h : Turn s s') : Feeds s s'
  | piece (c : RecordCounter) (bytes : List UInt8) : Feeds (c, []) (c, bytes)

theorem live_feeds {s : RecordCounter × List UInt8} (h : Relation.ReflTransGen Feeds (default, []) s) : s.1.Live := by
  apply Transition.invariant (I := fun s => s.1.Live) live_default _ h
  intro s s' hs hstep
  rcases hstep with ⟨⟨c, byte, rest⟩⟩ | ⟨c, bytes⟩
  · exact (live_turn hs byte rest).1
  · exact hs

/-- The turns of `feed` end where the bytes do. -/
theorem feed_turns (c : RecordCounter) (bytes : List UInt8) :
    Relation.ReflTransGen Turn (c, bytes) (c.feed bytes, []) := by
  induction c, bytes using feed.induct with
  | case1 c => rw [feed]
  | case2 c byte rest ih =>
    rw [feed]
    exact .head (.turn c byte rest) ih

end RecordCounter

/-! ## Encoding -/

/-- Seven bits as the last byte of a length, and as one before the last. -/
theorem group_bytes :
    ∀ bits : Fin 128, (UInt8.ofNat bits &&& 0x80 = 0 ∧ (UInt8.ofNat bits &&& 0x7F).toNat = bits) ∧
      UInt8.ofNat (bits + 128) &&& 0x80 ≠ 0 ∧ (UInt8.ofNat (bits + 128) &&& 0x7F).toNat = bits := by
  decide

/-- A length that the groups left have room for can be written. -/
theorem exists_lengthBytes (left : Nat) {read n : Nat} (hread : read + left = 3) (hn : n < 2 ^ (7 * (left + 1))) :
    ∃ bytes, LengthBytes read bytes n := by
  induction left generalizing read n with
  | zero =>
    obtain ⟨⟨-, hval⟩, -⟩ := group_bytes ⟨n, hn⟩
    have hlast := LengthBytes.last (b := UInt8.ofNat n) (.inr hread)
    rw [hval] at hlast
    exact ⟨_, hlast⟩
  | succ left ih =>
    have hmod : n % 128 < 128 := Nat.mod_lt _ (by decide)
    have hdiv : n / 128 < 2 ^ (7 * (left + 1)) := by
      rw [Nat.div_lt_iff_lt_mul (by decide)]
      calc n < 2 ^ (7 * (left + 1 + 1)) := hn
        _ = 2 ^ (7 * (left + 1)) * 128 := by rw [Nat.mul_succ, Nat.pow_add]
    obtain ⟨bytes, hbytes⟩ := ih (by omega : read + 1 + left = 3) hdiv
    obtain ⟨-, hmore, hval⟩ := group_bytes ⟨n % 128, hmod⟩
    have hlength := LengthBytes.more hmore (by omega : read < 3) hbytes
    have hsum : n % 128 + 2 ^ 7 * (n / 128) = n := Nat.mod_add_div n 128
    rw [hval, hsum] at hlength
    exact ⟨_, hlength⟩

theorem exists_record {type : List UInt8}
    (htype : (∃ b, b &&& 0x80 = 0 ∧ type = [b]) ∨ ∃ b second, b &&& 0x80 ≠ 0 ∧ type = [b, second])
    {payload : List UInt8} (hlen : payload.length < 2 ^ 28) :
    ∃ r : BiffRecord, r.type = type ∧ r.payload = payload := by
  obtain ⟨length, hlength⟩ := exists_lengthBytes 3 (Nat.zero_add 3) hlen
  exact ⟨⟨type, length, payload, htype, hlength⟩, rfl, rfl⟩

/-- The counter counts exactly the records of a stream, whatever the pieces it
is fed the stream in, and each turn of its loop uses up a byte. -/
theorem record_counting_exact :
    (∀ pieces : List (List UInt8), pieces.foldl RecordCounter.feed .default =
        RecordCounter.default.feed pieces.flatten) ∧
      (∀ bytes, (RecordCounter.default.feed bytes).records = headers bytes) ∧
      (∀ type payload,
        ((∃ b, b &&& 0x80 = 0 ∧ type = [b]) ∨ ∃ b second, b &&& 0x80 ≠ 0 ∧ type = [b, second]) →
          payload.length < 2 ^ 28 → ∃ r : BiffRecord, r.type = type ∧ r.payload = payload) ∧
      (∀ rs : List BiffRecord, RecordCounter.default.feed (rs.flatMap BiffRecord.bytes) = ⟨rs.length, .type⟩) ∧
      ∀ c bytes, Relation.ReflTransGen RecordCounter.Feeds (.default, []) (c, bytes) →
        c.state ≠ .payload 0 ∧
          (∀ s, RecordCounter.Turn (c, bytes) s → s.2.length < bytes.length) ∧
          Relation.ReflTransGen RecordCounter.Turn (c, bytes) (c.feed bytes, []) := by
  refine ⟨fun pieces => RecordCounter.foldl_feed pieces RecordCounter.live_default, RecordCounter.feed_headers,
    fun type payload htype hlen => exists_record htype hlen, RecordCounter.feed_records, fun c bytes hfed => ?_⟩
  have hlive := RecordCounter.live_feeds hfed
  refine ⟨hlive, fun s hturn => ?_, RecordCounter.feed_turns c bytes⟩
  rcases hturn with ⟨c, byte, more⟩
  exact (RecordCounter.live_turn hlive byte more).2

end GrpcCalamine
