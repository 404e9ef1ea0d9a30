import GrpcCalamine.Service.Frames
import GrpcCalamine.Service.Bodies
import Mathlib.Data.String.Basic
/-!
# Skip notices

A picture or a module too large for a frame is replaced by a notice that names
it, and the names come out of the file, escaped. So the stream goes on past any
item (`OneEach`), and the notice fits a frame where the names leave it room
(`HasRoom`).
-/

namespace GrpcCalamine

open Wire

/-! ## The length of an error event -/

/-- How long the message of an error event may be in a frame. -/
def messageRoom (kind : Pb.CalamineErrorKind) : Nat := MAX_FRAME_BYTES - 15 - (if kind = .unspecified then 0 else 2)

theorem textField_mono {field n m : Nat} (h : n ≤ m) : Pb.textField field n ≤ Pb.textField field m := by
  unfold Pb.textField
  split
  · exact Nat.zero_le _
  · rw [if_neg (by omega)]
    exact lenField_mono h

/-- The length of an error event whose kind takes `kind` bytes. -/
def errorLen (field kind message : Nat) : Nat := lenField field (lenField 1 (kind + Pb.textField 2 message))

theorem errorLen_mono {field kind n m : Nat} (h : n ≤ m) : errorLen field kind n ≤ errorLen field kind m :=
  lenField_mono (lenField_mono (Nat.add_le_add_left (textField_mono h) kind))

theorem enumField_kind (kind : Pb.CalamineErrorKind) :
    Pb.enumField 1 kind.number = if kind = .unspecified then 0 else 2 := by
  cases kind <;> rfl

/-- An error event fits a frame where its message leaves room for the rest. -/
theorem errorLen_le_iff {field : Nat} (hfield : field = 2 ∨ field = 3) (kind : Pb.CalamineErrorKind) (message : Nat) :
    errorLen field (Pb.enumField 1 kind.number) message ≤ MAX_FRAME_BYTES ↔ message ≤ messageRoom kind := by
  have hlast : errorLen field (Pb.enumField 1 kind.number) (messageRoom kind) ≤ MAX_FRAME_BYTES := by
    rw [enumField_kind, messageRoom]
    rcases hfield with rfl | rfl <;> split <;> decide
  have hnext : MAX_FRAME_BYTES < errorLen field (Pb.enumField 1 kind.number) (messageRoom kind + 1) := by
    rw [enumField_kind, messageRoom]
    rcases hfield with rfl | rfl <;> split <;> decide
  constructor
  · intro h
    by_contra hmore
    exact absurd (h.trans_lt (hnext.trans_le (errorLen_mono (Nat.not_le.1 hmore)))) (Nat.lt_irrefl _)
  · intro h
    exact (errorLen_mono h).trans hlast

/-! ## The text of a notice -/

/-- The decimal digits of a number. -/
def decimalLen (n : Nat) : Nat := (toString n).utf8ByteSize

/-- The length of what a notice says of an item of `size` bytes, which it names
in `what` bytes. -/
def noticeLen (what size : Nat) : Nat := what + decimalLen size + 73

theorem notice_utf8ByteSize (what : String) (size : Nat) :
    (s!"{what} encodes to {size} bytes, more than the {MAX_FRAME_BYTES} one " ++ "message may carry; skipped").utf8ByteSize =
      noticeLen what.utf8ByteSize size := by
  have hfirst : (toString " encodes to ").utf8ByteSize = 12 := rfl
  have hsecond : (toString " bytes, more than the ").utf8ByteSize = 22 := rfl
  have hlimit : (toString MAX_FRAME_BYTES).utf8ByteSize = 8 := by decide
  have hthird : (toString " one ").utf8ByteSize = 5 := rfl
  have hlast : "message may carry; skipped".utf8ByteSize = 26 := rfl
  simp only [String.utf8ByteSize_append, hfirst, hsecond, hlimit, hthird, hlast]
  show what.utf8ByteSize + 12 + decimalLen size + 22 + 8 + 5 + 26 = what.utf8ByteSize + decimalLen size + 73
  omega

/-- A character is escaped to at least one. -/
theorem escapeDebug_pos (f : Fmt) (c : Char) : 1 ≤ (f.escapeDebug c).utf8ByteSize := by
  have htwo (a b : Char) : 1 ≤ (String.ofList [a, b]).utf8ByteSize := by
    rw [String.utf8ByteSize_ofList, String.utf8Len_cons]
    exact Nat.le_add_left_of_le (Char.utf8Size_pos a)
  unfold Fmt.escapeDebug
  split_ifs
  · exact htwo '\\' '0'
  · exact htwo '\\' 't'
  · exact htwo '\\' 'r'
  · exact htwo '\\' 'n'
  · exact htwo '\\' '"'
  · exact htwo '\\' '\\'
  · rw [Char.toString, String.utf8ByteSize_singleton]
    exact Char.utf8Size_pos c
  · rw [String.utf8ByteSize_append]
    exact Nat.le_add_left_of_le (by decide)

theorem utf8ByteSize_join_cons (s : String) (l : List String) :
    (String.join (s :: l)).utf8ByteSize = s.utf8ByteSize + (String.join l).utf8ByteSize := by
  rw [String.join_cons, String.utf8ByteSize_append]

/-- A string is printed with at least as many bytes as it has characters. -/
theorem length_le_debug (f : Fmt) (s : String) : s.toList.length ≤ (f.debug s).utf8ByteSize := by
  have hjoin : ∀ l : List Char, l.length ≤ (String.join (l.map f.escapeDebug)).utf8ByteSize := by
    intro l
    induction l with
    | nil => exact Nat.zero_le _
    | cons c l ih =>
      rw [List.map_cons, utf8ByteSize_join_cons, List.length_cons, Nat.add_comm]
      exact Nat.add_le_add (escapeDebug_pos f c) ih
  unfold Fmt.debug
  rw [String.utf8ByteSize_append, String.utf8ByteSize_append]
  exact Nat.le_add_right_of_le (Nat.le_add_left_of_le (hjoin s.toList))

/-! ## One event for each item -/

section Items

variable {T ι : Type} [StreamResponse T] (encodedLen : T → Nat)

/-- The event of an item that a notice calls `what`: the item's own where it
fits a frame, a notice that begins with `what` where it does not, and the error
of an item that cannot be read. -/
inductive EventOf (what : String) : Except String T → T → Prop where
  | itself {e : T} (h : encodedLen e ≤ MAX_FRAME_BYTES) : EventOf what (.ok e) e
  | skipped {e : T} (h : MAX_FRAME_BYTES < encodedLen e) (kind : Pb.CalamineErrorKind) (rest : String) :
      EventOf what (.ok e)
        (StreamResponse.fromStreamError { error := some { kind, message := what ++ rest }, terminal := false })
  | unread (err : String) (kind : Pb.CalamineErrorKind) :
      EventOf what (.error err)
        (StreamResponse.fromStreamError { error := some { kind, message := err }, terminal := false })

/-- One event for each item, in order. -/
def OneEach (what : ι → String) (own : ι → Except String T) (items : List ι) (events : List T) : Prop :=
  List.Forall₂ (fun item event => EventOf encodedLen (what item) (own item) event) items events

/-- Whether an item leaves room for its event: it fits a frame itself, or what
is said in its place does. -/
def HasRoom (kind : Pb.CalamineErrorKind) (what : Nat) : Except String T → Prop
  | .ok e => encodedLen e ≤ MAX_FRAME_BYTES ∨ noticeLen what (encodedLen e) ≤ messageRoom kind
  | .error err => err.utf8ByteSize ≤ messageRoom kind

/-- What both loops send for an item. -/
def itemEvent (kind : Pb.CalamineErrorKind) (what : String) : Except String T → T
  | .ok e => withinFrame encodedLen e kind what
  | .error err =>
    StreamResponse.fromStreamError { error := some (Convert.calamineError kind err), terminal := false }

theorem itemEvent_eventOf (kind : Pb.CalamineErrorKind) (what : String) (own : Except String T) :
    EventOf encodedLen what own (itemEvent encodedLen kind what own) := by
  cases own with
  | error err => exact .unread err kind
  | ok e =>
    simp only [itemEvent, withinFrame]
    split
    · exact .itself (by assumption)
    · simp only [toString, String.append_assoc]
      exact .skipped (by omega) kind _

/-- The event of an item fits a frame where there is room for it. -/
theorem itemEvent_fits_iff {field : Nat} (hfield : field = 2 ∨ field = 3)
    (herror : ∀ error : Pb.CalamineError,
      encodedLen (StreamResponse.fromStreamError { error := some error, terminal := false }) =
        errorLen field (Pb.enumField 1 error.kind.number) error.message.utf8ByteSize)
    (kind : Pb.CalamineErrorKind) (what : String) (own : Except String T) :
    encodedLen (itemEvent encodedLen kind what own) ≤ MAX_FRAME_BYTES ↔
      HasRoom encodedLen kind what.utf8ByteSize own := by
  cases own with
  | error err =>
    simp only [itemEvent, HasRoom, herror]
    exact errorLen_le_iff hfield kind _
  | ok e =>
    simp only [itemEvent, HasRoom, withinFrame]
    split
    · exact ⟨fun _ => .inl (by assumption), fun _ => by assumption⟩
    · rename_i hlarge
      rw [or_iff_right hlarge, herror]
      simp only [Convert.calamineError]
      rw [notice_utf8ByteSize]
      exact errorLen_le_iff hfield kind _

/-- A list of items: one event each, and all of them fit where every item has
room. -/
theorem items_one_each {field : Nat} (hfield : field = 2 ∨ field = 3)
    (herror : ∀ error : Pb.CalamineError,
      encodedLen (StreamResponse.fromStreamError { error := some error, terminal := false }) =
        errorLen field (Pb.enumField 1 error.kind.number) error.message.utf8ByteSize)
    (kind : Pb.CalamineErrorKind) (what : ι → String) (own : ι → Except String T) (items : List ι) :
    OneEach encodedLen what own items (items.map fun item => itemEvent encodedLen kind (what item) (own item)) ∧
      ((∀ e ∈ items.map fun item => itemEvent encodedLen kind (what item) (own item),
          encodedLen e ≤ MAX_FRAME_BYTES) ↔
        ∀ item ∈ items, HasRoom encodedLen kind (what item).utf8ByteSize (own item)) := by
  constructor
  · rw [OneEach, List.forall₂_map_right_iff]
    exact List.forall₂_same.2 fun item _ => itemEvent_eventOf encodedLen kind (what item) (own item)
  · rw [List.forall_mem_map]
    apply forall₂_congr
    intro item _
    exact itemEvent_fits_iff encodedLen hfield herror kind (what item) (own item)

end Items

/-- A client that keeps reading gets them all. -/
theorem sendAll_events {T : Type} (events : List T) : (sendAll events).events = events.map Item.event := by
  induction events with
  | nil => rfl
  | cons e events ih =>
    show Item.event e :: (sendAll events).events = _
    rw [ih, List.map_cons]

/-! ## Pictures and modules -/

/-- What a notice calls a picture. -/
def pictureWhat (fmt : Fmt) (pic : Pb.Picture) : String :=
  s!"picture {fmt.debug pic.name} at row {pic.row}, column {pic.col} of sheet {fmt.debug pic.sheetName}"

def moduleWhat (fmt : Fmt) (name : String) : String := s!"VBA module {fmt.debug name}"

/-- The event of a picture or a module that can be read. -/
def pictureOwn (pic : Pb.Picture) : Except String Pb.PictureEvent := .ok (.picture pic)

def moduleOwn (project : VbaProject) (name : String) : Except String Pb.VbaEvent :=
  (project.getModuleRaw name).map fun raw => .module { name, rawContent := raw }

/-- The bytes of `pictureWhat`, by the names as they are printed. -/
def pictureWhatLen (fmt : Fmt) (pic : Pb.Picture) : Nat :=
  (fmt.debug pic.name).utf8ByteSize + (fmt.debug pic.sheetName).utf8ByteSize + decimalLen pic.row +
    decimalLen pic.col + 35

def moduleWhatLen (fmt : Fmt) (name : String) : Nat := (fmt.debug name).utf8ByteSize + 11

theorem toString_self (s : String) : toString s = s := rfl

theorem pictureWhat_utf8ByteSize (fmt : Fmt) (pic : Pb.Picture) :
    (pictureWhat fmt pic).utf8ByteSize = pictureWhatLen fmt pic := by
  have hfirst : "picture ".utf8ByteSize = 8 := rfl
  have hsecond : " at row ".utf8ByteSize = 8 := rfl
  have hthird : ", column ".utf8ByteSize = 9 := rfl
  have hlast : " of sheet ".utf8ByteSize = 10 := rfl
  unfold pictureWhat pictureWhatLen decimalLen
  simp only [toString_self, String.utf8ByteSize_append]
  rw [hfirst, hsecond, hthird, hlast]
  omega

theorem moduleWhat_utf8ByteSize (fmt : Fmt) (name : String) :
    (moduleWhat fmt name).utf8ByteSize = moduleWhatLen fmt name := by
  have hfirst : "VBA module ".utf8ByteSize = 11 := rfl
  unfold moduleWhat moduleWhatLen
  simp only [toString_self, String.utf8ByteSize_append]
  rw [hfirst]
  omega

theorem vbaModuleEvent_eq (fmt : Fmt) (project : VbaProject) (name : String) :
    vbaModuleEvent fmt Pb.VbaEvent.encodedLen project name =
      itemEvent Pb.VbaEvent.encodedLen .vba (moduleWhat fmt name) (moduleOwn project name) := by
  unfold vbaModuleEvent moduleOwn
  cases project.getModuleRaw name with
  | ok raw => rfl
  | error err => rfl

theorem pictures_one_each (fmt : Fmt) (kind : Pb.CalamineErrorKind) (pictures : List Pb.Picture) :
    OneEach Pb.PictureEvent.encodedLen (pictureWhat fmt) pictureOwn pictures
        (pictures.map (pictureEvent fmt Pb.PictureEvent.encodedLen kind)) ∧
      ((∀ e ∈ pictures.map (pictureEvent fmt Pb.PictureEvent.encodedLen kind), e.encodedLen ≤ MAX_FRAME_BYTES) ↔
        ∀ pic ∈ pictures, HasRoom Pb.PictureEvent.encodedLen kind (pictureWhatLen fmt pic) (pictureOwn pic)) := by
  have h := items_one_each Pb.PictureEvent.encodedLen (.inl rfl) (fun _ => rfl) kind (pictureWhat fmt)
    pictureOwn pictures
  simp only [pictureWhat_utf8ByteSize] at h
  exact h

theorem modules_one_each (fmt : Fmt) (project : VbaProject) (names : List String) :
    OneEach Pb.VbaEvent.encodedLen (moduleWhat fmt) (moduleOwn project) names
        (names.map (vbaModuleEvent fmt Pb.VbaEvent.encodedLen project)) ∧
      ((∀ e ∈ names.map (vbaModuleEvent fmt Pb.VbaEvent.encodedLen project), e.encodedLen ≤ MAX_FRAME_BYTES) ↔
        ∀ name ∈ names, HasRoom Pb.VbaEvent.encodedLen .vba (moduleWhatLen fmt name) (moduleOwn project name)) := by
  have h := items_one_each Pb.VbaEvent.encodedLen (.inr rfl) (fun _ => rfl) .vba (moduleWhat fmt)
    (moduleOwn project) names
  simp only [moduleWhat_utf8ByteSize, ← vbaModuleEvent_eq] at h
  exact h

/-- Whatever the pictures and modules are, each costs its own event only. All
of those events fit a frame exactly where each item fits one, or its names
leave room for its notice and the reader's words for its error. -/
theorem item_events_fit_iff (fmt : Fmt) (entry : EntryView) (workbook : Sheets) (project : VbaProject) :
    (∃ events,
      (runGetPictures fmt Pb.PictureEvent.encodedLen { entry with reader := .ok workbook }).events =
          events.map Item.event ∧
        OneEach Pb.PictureEvent.encodedLen (pictureWhat fmt) pictureOwn workbook.pictures events ∧
        ((∀ e ∈ events, e.encodedLen ≤ MAX_FRAME_BYTES) ↔
          ∀ pic ∈ workbook.pictures,
            HasRoom Pb.PictureEvent.encodedLen (Convert.errorKindForFormat entry.format) (pictureWhatLen fmt pic)
              (pictureOwn pic))) ∧
    (∃ info events,
      (runStreamVbaProject fmt Pb.VbaEvent.encodedLen
          { entry with reader := .ok { workbook with vbaProject := .ok (some project) } }).events =
          .event (.info info) :: events.map Item.event ∧
        OneEach Pb.VbaEvent.encodedLen (moduleWhat fmt) (moduleOwn project) project.moduleNames events ∧
        ((∀ e ∈ events, e.encodedLen ≤ MAX_FRAME_BYTES) ↔
          ∀ name ∈ project.moduleNames,
            HasRoom Pb.VbaEvent.encodedLen .vba (moduleWhatLen fmt name) (moduleOwn project name))) := by
  constructor
  · exact ⟨_, sendAll_events _, pictures_one_each fmt _ workbook.pictures⟩
  · exact ⟨_, _, congrArg (List.cons _) (sendAll_events _), modules_one_each fmt project project.moduleNames⟩

/-! ## A name that fills a frame -/

theorem le_textField (field n : Nat) : n ≤ Pb.textField field n := by
  unfold Pb.textField
  split
  · omega
  · unfold lenField
    omega

/-- A picture is encoded with its name. -/
theorem name_lt_encodedLen (pic : Pb.Picture) : pic.name.utf8ByteSize < (Pb.PictureEvent.picture pic).encodedLen := by
  have hname : Pb.textField 6 pic.name.utf8ByteSize ≤ pic.encodedLen := Nat.le_add_left _ _
  have htext := le_textField 6 pic.name.utf8ByteSize
  show _ < lenField 1 pic.encodedLen
  rw [lenField_eq rfl]
  omega

/-- The notice names the picture, so a long name does not fit it either. -/
theorem long_name_no_room (fmt : Fmt) (kind : Pb.CalamineErrorKind) {pic : Pb.Picture}
    (hchars : MAX_FRAME_BYTES ≤ pic.name.toList.length) (hbytes : MAX_FRAME_BYTES ≤ pic.name.utf8ByteSize) :
    ¬HasRoom Pb.PictureEvent.encodedLen kind (pictureWhatLen fmt pic) (pictureOwn pic) := by
  have hprinted := hchars.trans (length_le_debug fmt pic.name)
  rintro (hself | hnotice)
  · exact absurd (hbytes.trans_lt (name_lt_encodedLen pic)) (Nat.not_lt.2 hself)
  · unfold noticeLen pictureWhatLen messageRoom at hnotice
    omega

/-- An entry with one picture, which has no data and a name of `n` letters. -/
def namedEntry (n : Nat) : EntryView :=
  { format := .xlsx, sheetNames := ["Sheet1"], tables := fun _ => none, numberFormats := [], is1904 := false,
    headerRow := none,
    reader := .ok
      { kind := .xlsx, mergeCellsBySheetName := fun _ => .ok [],
        worksheetCellsReader := fun _ => .error (.notAWorksheet "Sheet1"),
        worksheetRange := fun _ => .error "not a worksheet", worksheetFormula := fun _ => .error "not a worksheet",
        vbaProject := .ok none,
        pictures :=
          [{ row := 0, col := 0, sheetName := "Sheet1", extension := "png", data := [],
             name := String.ofList (List.replicate n 'a') }] } }

theorem utf8ByteSize_replicate (n : Nat) : (String.ofList (List.replicate n 'a')).utf8ByteSize = n := by
  rw [String.utf8ByteSize_ofList]
  induction n with
  | zero => rfl
  | succ n ih =>
    rw [List.replicate_succ, String.utf8Len_cons, ih]
    rfl

theorem namedEntry_past_frame {n : Nat} (h : MAX_FRAME_BYTES ≤ n) :
    ¬∃ events : List Pb.PictureEvent,
      (runGetPictures ⟨fun _ => true⟩ Pb.PictureEvent.encodedLen (namedEntry n)).events = events.map Item.event ∧
        ∀ e ∈ events, e.encodedLen ≤ MAX_FRAME_BYTES := by
  rintro ⟨events, hevents, hfit⟩
  obtain rfl := List.map_injective_iff.2 (fun _ _ h => Item.event.inj h) (hevents.symm.trans (sendAll_events _))
  rw [(pictures_one_each _ _ _).2] at hfit
  refine long_name_no_room _ _ ?_ ?_ (hfit _ (List.mem_singleton.2 rfl))
  · rw [String.toList_ofList, List.length_replicate]
    exact h
  · rw [utf8ByteSize_replicate]
    exact h

/-- A name of 32 MiB: the stream ends with a message that cannot be sent. -/
theorem long_name_past_frame :
    ¬∃ events : List Pb.PictureEvent,
      (runGetPictures ⟨fun _ => true⟩ Pb.PictureEvent.encodedLen (namedEntry 33554432)).events =
          events.map Item.event ∧
        ∀ e ∈ events, e.encodedLen ≤ MAX_FRAME_BYTES :=
  namedEntry_past_frame (by decide)

end GrpcCalamine
