import GrpcCalamine.Archive.Attributes
/-!
# The count guard on a well-formed table

`SstTable` is the text of an xlsx shared-string table up to its root's start
tag, and whatever comes after. `Guarded` says that the scan reads the count its
root declares. It does exactly where nothing before the attribute is mistaken
for it, or where what is mistaken for it spells the same number.
-/

namespace GrpcCalamine

open Search

/-! ## The text of a table -/

def isXmlSpace (b : UInt8) : Bool := b = 0x20 || b = 0x09 || b = 0x0A || b = 0x0D

/-- A byte of an XML name in UTF-8. -/
def isNameByte (b : UInt8) : Bool :=
  isAsciiAlphanumeric b || b = 0x3A || b = 0x5F || b = 0x2D || b = 0x2E || 0x80 ≤ b

/-- What may come before the root; the XML declaration has the form of a
processing instruction. -/
inductive PrologItem where
  | space (bytes : List UInt8) (h : ∀ b ∈ bytes, isXmlSpace b = true)
  | comment (body : List UInt8) (h : ¬ ascii "--" <:+: body ++ ascii "-")
  | instruction (body : List UInt8) (h : ¬ ascii "?>" <:+: body)

def PrologItem.bytes : PrologItem → List UInt8
  | space bytes _ => bytes
  | comment body _ => ascii "<!--" ++ body ++ ascii "-->"
  | instruction body _ => ascii "<?" ++ body ++ ascii "?>"

structure Attribute where
  space : List UInt8
  name : List UInt8
  beforeEq : List UInt8
  afterEq : List UInt8
  quote : UInt8
  value : List UInt8
  space_ok : space ≠ [] ∧ ∀ b ∈ space, isXmlSpace b = true
  name_ok : name ≠ [] ∧ ∀ b ∈ name, isNameByte b = true
  eq_ok : (∀ b ∈ beforeEq, isXmlSpace b = true) ∧ ∀ b ∈ afterEq, isXmlSpace b = true
  quote_ok : quote = 0x22 ∨ quote = 0x27
  value_ok : ∀ b ∈ value, b ≠ quote ∧ b ≠ 0x3C

def Attribute.bytes (a : Attribute) : List UInt8 :=
  a.space ++ (a.name ++ (a.beforeEq ++ 0x3D :: (a.afterEq ++ a.quote :: (a.value ++ [a.quote]))))

/-- A prolog and a root's start tag that declares a `uniqueCount`. -/
structure SstHead where
  prolog : List PrologItem
  before : List Attribute
  count : Attribute
  after : List Attribute
  trail : List UInt8
  empty : Bool
  count_name : count.name = ascii "uniqueCount"
  count_digits : count.value ≠ [] ∧ ∀ b ∈ count.value, isAsciiDigit b = true
  trail_ok : ∀ b ∈ trail, isXmlSpace b = true
  distinct : ((before ++ count :: after).map Attribute.name).Nodup

namespace SstHead

variable (t : SstHead)

def prologBytes : List UInt8 := t.prolog.flatMap PrologItem.bytes

/-- The attributes before the count. -/
def earlier : List UInt8 := t.before.flatMap Attribute.bytes

/-- What of the start tag comes after the count. -/
def later : List UInt8 :=
  (t.after.flatMap Attribute.bytes) ++ (t.trail ++ ((if t.empty then [0x2F] else []) ++ [0x3E]))

/-- The start tag after its `<sst`. -/
def root : List UInt8 := t.earlier ++ (t.count.bytes ++ t.later)

def bytes : List UInt8 := t.prologBytes ++ (ascii "<sst" ++ t.root)

/-- The number the root declares. -/
def declared : Nat := decimalValue t.count.value

/-! ## What the scan takes for the root -/

/-- Where the first `<sst` is. -/
def opening : Nat := (position (ascii "<sst") t.bytes).getD 0

/-- From the first `<sst` to the next `>`. -/
def taken : List UInt8 := ascii "<sst" ++ upTo 0x3E (t.bytes.drop (t.opening + 4))

/-- The name after that `<sst` ends there. -/
def rootLike : Bool :=
  (t.bytes[t.opening + 4]?).any fun after => after = 0x3E || after = 0x2F || isAsciiWhitespace after

/-- Neither a comment or an instruction nor an earlier value hides the
attribute: none of the first holds `<sst`, and no value a `>`. -/
def Visible : Prop :=
  (∀ item ∈ t.prolog, ¬ ascii "<sst" <:+: item.bytes) ∧ ∀ a ∈ t.before, 0x3E ∉ a.value

/-- Where the attribute is in the start tag. -/
def place : Nat := 4 + t.earlier.length + t.count.space.length

/-- Nothing before the attribute is mistaken for it. -/
def Clear : Prop := t.Visible ∧ ∀ i < t.place, ∀ v, ¬ Spells t.taken (ascii "uniqueCount") i v

/-- What is mistaken for the attribute spells `v`. -/
def MistakenFor (v : Nat) : Prop :=
  t.rootLike = true ∧ ∃ i, Spells t.taken (ascii "uniqueCount") i v ∧
    (∀ j < i, ∀ v', ¬ Spells t.taken (ascii "uniqueCount") j v') ∧ ¬ (t.Visible ∧ i = t.place)

end SstHead

/-- An xlsx shared-string table whose start tag ends within the scanned
head. -/
structure SstTable extends SstHead where
  rest : List UInt8
  fits : toSstHead.bytes.length ≤ SST_HEAD_SCAN

def SstTable.allBytes (t : SstTable) : List UInt8 := t.toSstHead.bytes ++ t.rest

/-! ## Nothing else looks like the root or its end -/

theorem isAsciiWhitespace_of_isXmlSpace {b : UInt8} (h : isXmlSpace b = true) : isAsciiWhitespace b = true := by
  simp only [isXmlSpace, Bool.or_eq_true, decide_eq_true_eq] at h
  rcases h with ((rfl | rfl) | rfl) | rfl <;> rfl

/-- The first byte of a prolog is no tail of `<sst`. -/
theorem head_prolog (items : List PrologItem) : ∀ b ∈ (items.flatMap PrologItem.bytes).head?, b ∉ ascii "sst" := by
  induction items with
  | nil => nofun
  | cons item items ih =>
    intro b hb
    cases item with
    | space bytes h =>
      cases bytes with
      | nil => exact ih b hb
      | cons c bytes =>
        obtain rfl : c = b := by simpa [PrologItem.bytes] using hb
        have hc := h c List.mem_cons_self
        simp only [isXmlSpace, Bool.or_eq_true, decide_eq_true_eq] at hc
        rcases hc with ((rfl | rfl) | rfl) | rfl <;> decide
    | comment body h =>
      obtain rfl : 0x3C = b := by simpa [PrologItem.bytes, ascii] using hb
      decide
    | instruction body h =>
      obtain rfl : 0x3C = b := by simpa [PrologItem.bytes, ascii] using hb
      decide

/-- A prolog holds `<sst` where one of its items does. -/
theorem sst_infix_prolog (items : List PrologItem) :
    ascii "<sst" <:+: items.flatMap PrologItem.bytes ↔ ∃ item ∈ items, ascii "<sst" <:+: item.bytes := by
  induction items with
  | nil => simp [ascii]
  | cons item items ih =>
    rw [List.flatMap_cons, show ascii "<sst" = 0x3C :: ascii "sst" from rfl, infix_append_iff (head_prolog items)]
    rw [show (0x3C : UInt8) :: ascii "sst" = ascii "<sst" from rfl, ih]
    simp

theorem close_mem_attribute (a : Attribute) : 0x3E ∈ a.bytes ↔ 0x3E ∈ a.value := by
  have hspace : ∀ l : List UInt8, (∀ b ∈ l, isXmlSpace b = true) → 0x3E ∉ l := fun l h hmem => by
    have := h _ hmem
    cases this
  have hname : 0x3E ∉ a.name := fun hmem => by
    have := a.name_ok.2 _ hmem
    cases this
  have hquote : a.quote ≠ 0x3E := by rcases a.quote_ok with h | h <;> rw [h] <;> decide
  have h₁ := hspace _ a.space_ok.2
  have h₂ := hspace _ a.eq_ok.1
  have h₃ := hspace _ a.eq_ok.2
  simp [Attribute.bytes, h₁, h₂, h₃, hname, hquote.symm]

namespace SstHead

variable (t : SstHead)

theorem position_opening : position (ascii "<sst") t.bytes = some t.opening := by
  cases h : position (ascii "<sst") t.bytes with
  | some i => rw [opening, h]; rfl
  | none =>
    refine absurd ?_ ((position_eq_none_iff_absent (by decide)).1 h)
    exact ⟨t.prologBytes, t.root, by simp [bytes]⟩

theorem drop_opening : t.bytes.drop t.opening = ascii "<sst" ++ t.bytes.drop (t.opening + 4) := by
  obtain ⟨rest, hrest⟩ := ((position_eq_some_iff (by decide)).1 t.position_opening).1
  rw [← List.drop_drop, ← hrest]
  rfl

theorem opening_lt : t.opening < t.bytes.length := by
  have hpos : 0 < (t.bytes.drop t.opening).length := by rw [drop_opening]; simp [ascii]
  rw [List.length_drop] at hpos
  omega

/-- Wherever the first `<sst` is, a `>` comes after it: the root's. -/
theorem close_mem_taken : 0x3E ∈ t.bytes.drop (t.opening + 4) := by
  obtain ⟨init, hinit⟩ : ∃ init, t.bytes = init ++ [0x3E] :=
    ⟨t.prologBytes ++ (ascii "<sst" ++ (t.earlier ++ (t.count.bytes ++ (t.after.flatMap Attribute.bytes ++ (t.trail ++
      if t.empty then [0x2F] else []))))), by simp [bytes, root, later]⟩
  have hlt := t.opening_lt
  have hmem : 0x3E ∈ t.bytes.drop t.opening := by
    rw [hinit, List.length_append, List.length_singleton] at hlt
    rw [hinit, List.drop_append_of_le_length (by omega)]
    simp
  rw [drop_opening] at hmem
  rcases List.mem_append.1 hmem with h | h
  · exact absurd h (by decide)
  · exact h

/-- What the scan answers on a head that goes on after the start tag. -/
theorem declaredUniqueCount_append (more : List UInt8) :
    declaredUniqueCount (t.bytes ++ more) =
      if t.rootLike then attrU64 t.taken (ascii "uniqueCount") else none := by
  have hmem := t.close_mem_taken
  have hlen : t.opening + 4 < t.bytes.length := by
    have := List.length_pos_of_mem hmem
    rw [List.length_drop] at this
    omega
  -- what comes after the start tag is past the `>` that ends it
  have hafter : (t.bytes ++ more)[t.opening + 4]? = t.bytes[t.opening + 4]? := List.getElem?_append_left hlen
  have hdrop : (t.bytes ++ more).drop (t.opening + 4) = t.bytes.drop (t.opening + 4) ++ more :=
    List.drop_append_of_le_length hlen.le
  rw [declaredUniqueCount_eq, position_append (by decide) t.position_opening, Option.bind_some, hafter, hdrop,
    upTo_append_of_mem hmem, ← taken]
  simp only [List.mem_append_left more hmem, and_true]
  rfl

/-- In a table whose root is visible, the scan takes the root for what it is,
up to a `>` after the attribute. -/
theorem visible_opening (h : ∀ item ∈ t.prolog, ¬ ascii "<sst" <:+: item.bytes) : t.opening = t.prologBytes.length := by
  have hnone : position (ascii "<sst") t.prologBytes = none := by
    rw [position_eq_none_iff_absent (by decide), prologBytes, sst_infix_prolog]
    rintro ⟨item, hitem, hin⟩
    exact h item hitem hin
  have hhead : ∀ b ∈ (ascii "<sst" ++ t.root).head?, b ∉ ascii "sst" := by
    intro b hb
    obtain rfl : 0x3C = b := by simpa [ascii] using hb
    decide
  rw [opening, bytes]
  rw [show position (ascii "<sst") (t.prologBytes ++ (ascii "<sst" ++ t.root)) = some t.prologBytes.length from
    position_skip hhead hnone (List.prefix_append _ _)]
  rfl

end SstHead

end GrpcCalamine
