import GrpcCalamine.Archive.SstTable
import GrpcCalamine.Archive.Verdict
/-!
# When the count guard reads the root's count

Where the attribute is visible the scan sees it at its place (`spells_place`),
so the scan reads it unless an earlier place spells it too
(`declaredUniqueCount_eq_iff`). A scan that knows the declared count refuses
what the table cannot hold and charges what calamine reserves
(`scanSharedStrings_of_declared`).
-/

namespace GrpcCalamine

open Search

/-- The attribute's name does not overlap itself. -/
theorem uniqueCount_word (k : Nat) (hpos : 0 < k) (hlt : k < (ascii "uniqueCount").length) :
    ¬ (ascii "uniqueCount").drop k <+: ascii "uniqueCount" := by
  have hall : ∀ k < (ascii "uniqueCount").length, 0 < k → ¬ (ascii "uniqueCount").drop k <+: ascii "uniqueCount" := by
    decide
  exact hall k hlt hpos

namespace SstHead

variable (t : SstHead)

theorem close_not_mem_count : 0x3E ∉ t.count.bytes := by
  rw [close_mem_attribute]
  intro hmem
  have := t.count_digits.2 _ hmem
  cases this

theorem close_not_mem_earlier : 0x3E ∉ t.earlier ↔ ∀ a ∈ t.before, 0x3E ∉ a.value := by
  simp [earlier, close_mem_attribute]

/-- The scan takes the visible attribute's start tag for the root's, up to
some `>` after the attribute. -/
theorem taken_visible (h : t.Visible) :
    t.taken = ascii "<sst" ++ (t.earlier ++ (t.count.bytes ++ upTo 0x3E t.later)) := by
  have hdrop : t.bytes.drop (t.prologBytes.length + 4) = t.root := by
    rw [bytes, ← List.drop_drop, List.drop_left]
    rfl
  rw [taken, t.visible_opening h.1, hdrop, root, upTo_append_of_not_mem (t.close_not_mem_earlier.2 h.2),
    upTo_append_of_not_mem t.close_not_mem_count]

/-- An attribute begins with whitespace. -/
theorem attribute_head (a : Attribute) (r : List UInt8) :
    ∃ b, (a.bytes ++ r).head? = some b ∧ isAsciiWhitespace b = true := by
  obtain ⟨b, space, hspace⟩ := List.exists_cons_of_ne_nil a.space_ok.1
  refine ⟨b, by simp [Attribute.bytes, hspace], isAsciiWhitespace_of_isXmlSpace (a.space_ok.2 b ?_)⟩
  rw [hspace]
  exact List.mem_cons_self

theorem root_head : ∃ b, t.root.head? = some b ∧ isAsciiWhitespace b = true := by
  rw [root, earlier]
  cases t.before with
  | nil => exact attribute_head t.count _
  | cons a before =>
    rw [List.flatMap_cons, List.append_assoc]
    exact attribute_head a _

theorem rootLike_visible (h : t.Visible) : t.rootLike = true := by
  obtain ⟨b, hb, hspace⟩ := t.root_head
  have hget : t.bytes[t.prologBytes.length + 4]? = some b := by
    rw [bytes, List.getElem?_append_right (by omega), Nat.add_sub_cancel_left,
      List.getElem?_append_right (by simp [ascii])]
    rw [← hb, List.head?_eq_getElem?]
    rfl
  rw [rootLike, t.visible_opening h.1, hget]
  simp [hspace]

/-- The visible attribute spells its own number. -/
theorem spells_place (h : t.Visible) :
    Spells t.taken (ascii "uniqueCount") t.place (min t.declared U64_MAX) := by
  obtain ⟨init, last, hspace⟩ := List.eq_nil_or_concat' t.count.space |>.resolve_left t.count.space_ok.1
  have hlast : isXmlSpace last = true := t.count.space_ok.2 last (by simp [hspace])
  have htaken : ∃ r, t.taken = (ascii "<sst" ++ (t.earlier ++ t.count.space)) ++ (ascii "uniqueCount" ++
      (t.count.beforeEq ++ 0x3D :: (t.count.afterEq ++ t.count.quote :: (t.count.value ++ t.count.quote :: r)))) :=
    ⟨upTo 0x3E t.later, by rw [t.taken_visible h]; simp [Attribute.bytes, t.count_name]⟩
  obtain ⟨r, htaken⟩ := htaken
  have hplace : t.place = (ascii "<sst" ++ (t.earlier ++ t.count.space)).length := by
    simp [place, ascii]
    omega
  have hdrop : t.taken.drop t.place = ascii "uniqueCount" ++ (t.count.beforeEq ++
      0x3D :: (t.count.afterEq ++ t.count.quote :: (t.count.value ++ t.count.quote :: r))) := by
    rw [htaken, hplace, List.drop_left]
  refine ⟨⟨_, hdrop.symm⟩, .inr ?_, ?_⟩
  · -- before the name stands the last of its own whitespace
    have hlen : t.place - 1 = (ascii "<sst" ++ (t.earlier ++ init)).length := by
      rw [hplace, hspace]
      simp
      omega
    have hget : t.taken[t.place - 1]? = some last := by
      rw [hlen, htaken, hspace]
      simp
    rw [hget]
    simp only [isXmlSpace, Bool.or_eq_true, decide_eq_true_eq] at hlast
    rcases hlast with ((rfl | rfl) | rfl) | rfl <;> rfl
  · rw [← List.drop_drop, hdrop, List.drop_left]
    exact quotedNumber_of_digits (fun b hb => isAsciiWhitespace_of_isXmlSpace (t.count.eq_ok.1 b hb))
      (fun b hb => isAsciiWhitespace_of_isXmlSpace (t.count.eq_ok.2 b hb)) t.count.quote_ok t.count_digits.1
      t.count_digits.2

/-- The scan reads the declared count exactly where nothing before the
attribute is mistaken for it, or what is spells the same number. -/
theorem declaredUniqueCount_eq_iff (more : List UInt8) :
    declaredUniqueCount (t.bytes ++ more) = some (min t.declared U64_MAX) ↔
      t.Clear ∨ t.MistakenFor (min t.declared U64_MAX) := by
  have hfirst : declaredUniqueCount (t.bytes ++ more) = some (min t.declared U64_MAX) ↔
      t.rootLike = true ∧ FirstSpells t.taken (ascii "uniqueCount") 0 (min t.declared U64_MAX) := by
    rw [t.declaredUniqueCount_append more, ← attrU64_eq_some_iff (by decide) uniqueCount_word]
    cases t.rootLike <;> simp
  rw [hfirst]
  constructor
  · rintro ⟨hroot, i, -, hspells, hbefore⟩
    by_cases hplace : t.Visible ∧ i = t.place
    · obtain ⟨hvisible, rfl⟩ := hplace
      exact .inl ⟨hvisible, fun j hj v => hbefore j (Nat.zero_le j) hj v⟩
    · exact .inr ⟨hroot, i, hspells, fun j hj v => hbefore j (Nat.zero_le j) hj v, hplace⟩
  · rintro (⟨hvisible, hbefore⟩ | ⟨hroot, i, hspells, hbefore, -⟩)
    · exact ⟨t.rootLike_visible hvisible, t.place, Nat.zero_le _, t.spells_place hvisible,
        fun j _ hj v => hbefore j hj v⟩
    · exact ⟨hroot, i, Nat.zero_le _, hspells, fun j _ hj v => hbefore j hj v⟩

end SstHead

/-! ## The scan -/

/-- With its declared count known, a table that cannot hold it is refused, and
one that can is charged what calamine reserves. -/
theorem scanSharedStrings_of_declared {reads : List ReadResult} (name : String) {limits : InflateLimits}
    (hlimit : (delivered reads).length ≤ limits.maxSharedStringsBytes) {declared : Nat}
    (hdeclared : declaredUniqueCount ((delivered reads).take SST_HEAD_SCAN) = some declared) :
    scanSharedStrings reads name false limits =
        .error (.malformed name (malformedCount declared (delivered reads).length
          ((delivered reads).length / MIN_SI_BYTES))) ∧ (delivered reads).length / MIN_SI_BYTES < declared ∨
      declared ≤ (delivered reads).length / MIN_SI_BYTES ∧
        ∃ parsed, scanSharedStrings reads name false limits = .ok parsed ∧
          satMul declared SHARED_STRING_SLOT ≤ parsed := by
  have hcount := byteCount_of_le hlimit
  have hdeclared : declaredCount (delivered reads) = some declared := hdeclared
  rw [scanSharedStrings_eq, tableVerdict, hcount, if_neg (Nat.not_lt.2 hlimit)]
  by_cases hmore : (delivered reads).length / MIN_SI_BYTES < declared
  · have hover : overDeclared (delivered reads) = some declared := by simp [overDeclared, hdeclared, hcount, hmore]
    rw [hover]
    exact .inl ⟨rfl, hmore⟩
  · have hover : overDeclared (delivered reads) = none := by
      simpa [overDeclared, hdeclared, hcount] using hmore
    rw [hover]
    refine .inr ⟨Nat.not_lt.1 hmore, _, rfl, ?_⟩
    rw [tableEstimate, hdeclared]
    exact le_max_right _ _

/-- The scan reads the count the root declares; so it refuses a table that
cannot hold it, and charges the slots calamine reserves otherwise. -/
def SstTable.Guarded (t : SstTable) : Prop :=
  declaredUniqueCount (t.allBytes.take SST_HEAD_SCAN) = some (min t.declared U64_MAX) ∧
    ∀ reads name limits, delivered reads = t.allBytes →
      t.allBytes.length ≤ limits.maxSharedStringsBytes →
      (t.allBytes.length / MIN_SI_BYTES < t.declared →
        ∃ detail, scanSharedStrings reads name false limits = .error (.malformed name detail)) ∧
      (t.declared ≤ t.allBytes.length / MIN_SI_BYTES →
        ∃ parsed, scanSharedStrings reads name false limits = .ok parsed ∧
          satMul t.declared SHARED_STRING_SLOT ≤ parsed)

theorem SstTable.take_head (t : SstTable) :
    t.allBytes.take SST_HEAD_SCAN = t.bytes ++ t.rest.take (SST_HEAD_SCAN - t.bytes.length) := by
  rw [allBytes, List.take_append, List.take_of_length_le t.fits]

/-- The guard holds of a table exactly where no comment or instruction before
the root holds `<sst`, no earlier value a `>`, and no earlier place of the
start tag spells the attribute; or where what is mistaken for it spells the
same number. -/
theorem unique_count_guarded_iff (t : SstTable) :
    t.Guarded ↔ t.Clear ∨ t.MistakenFor (min t.declared U64_MAX) := by
  rw [← t.declaredUniqueCount_eq_iff (t.rest.take (SST_HEAD_SCAN - t.bytes.length)), ← t.take_head]
  refine ⟨And.left, fun h => ⟨h, fun reads name limits hreads hlimit => ?_⟩⟩
  have hdeclared : declaredUniqueCount ((delivered reads).take SST_HEAD_SCAN) = some (min t.declared U64_MAX) := by
    rw [hreads, h]
  have hsmall : t.allBytes.length / MIN_SI_BYTES < U64_MAX := by
    have := limits.sharedStrings_le
    unfold MIN_SI_BYTES U64_MAX at *
    omega
  rcases scanSharedStrings_of_declared name (hreads ▸ hlimit) hdeclared with
    ⟨hscan, hlt⟩ | ⟨hle, parsed, hscan, hcharge⟩
  · rw [hreads] at hlt
    exact ⟨fun _ => ⟨_, hscan⟩, fun hle => by omega⟩
  · rw [hreads] at hle
    refine ⟨fun hlt => by omega, fun _ => ⟨parsed, hscan, ?_⟩⟩
    rwa [Nat.min_eq_left (by omega)] at hcharge

/-- A table whose first attribute has a `>` in its value and whose second
declares a trillion strings. -/
def hiddenCount : SstTable where
  prolog := []
  before := [⟨ascii " ", ascii "a", [], [], 0x22, ascii ">", ⟨by decide, List.all_eq_true.1 (by decide)⟩,
    ⟨by decide, List.all_eq_true.1 (by decide)⟩, ⟨nofun, nofun⟩, by decide, by simp [ascii]⟩]
  count := ⟨ascii " ", ascii "uniqueCount", [], [], 0x22, ascii "1000000000000",
    ⟨by decide, List.all_eq_true.1 (by decide)⟩, ⟨by decide, List.all_eq_true.1 (by decide)⟩, ⟨nofun, nofun⟩,
    by decide, by simp [ascii]⟩
  after := []
  trail := []
  empty := true
  rest := []
  count_name := rfl
  count_digits := ⟨by decide, List.all_eq_true.1 (by decide)⟩
  trail_ok := nofun
  distinct := by decide
  fits := by decide

/-- The scan sees no count at all, and accepts the table. -/
theorem hidden_count_unguarded : hiddenCount.declared = 1000000000000 ∧
    declaredUniqueCount (hiddenCount.allBytes.take SST_HEAD_SCAN) = none ∧ ¬ hiddenCount.Guarded := by
  have hnone : declaredUniqueCount (hiddenCount.allBytes.take SST_HEAD_SCAN) = none := by decide
  refine ⟨by decide, hnone, fun h => ?_⟩
  have := h.1
  rw [hnone] at this
  cases this

end GrpcCalamine
