import GrpcCalamine.Service.Upload
import Mathlib.Data.List.Induction
/-!
# What an upload may send

`Grammar` says what the frames of an upload may be, with no buffer and no loop.
`receive_upload` goes through the prefixes of its frames: what it holds after
each is what the grammar says of that prefix (`run_iff`), so it accepts the
uploads of the grammar and fails where a prefix leaves it.
-/

namespace GrpcCalamine

/-! ## The grammar -/

/-- Frames that carry `chunks`, one each and none empty, where every running
total is within the limit and the store admits it. -/
structure Chunks (limits : UploadLimits) (waits : List Wait) (chunks : List (List UInt8)) : Prop where
  frames : waits.map (·.arrival) = chunks.map fun chunk => .frame ⟨some (.chunk chunk)⟩
  nonempty : ∀ chunk ∈ chunks, chunk ≠ []
  within : ∀ n ≤ chunks.length, (chunks.take n).flatten.length ≤ limits.maxWorkbookBytes
  admitted : ∀ n (wait : Wait), waits[n]? = some wait → wait.admits (chunks.take (n + 1)).flatten.length = .ok ()

/-- An upload: options with a known format hint, then chunks. -/
inductive Grammar (limits : UploadLimits) : List Wait → UploadOptions → List (List UInt8) → Prop where
  | upload {options : Pb.WorkbookOptions} {format : Pb.WorkbookFormat} {admits : Nat → Except LimitExceeded Unit}
      {waits : List Wait} {chunks : List (List UInt8)} (hint : Pb.WorkbookFormat.tryFrom options.formatHint = some format)
      (hchunks : Chunks limits waits chunks) :
      Grammar limits (⟨.frame ⟨some (.options options)⟩, admits⟩ :: waits)
        (format, options.headerRow.map HeaderRow.ofSelection) chunks

/-- Frames an upload may begin with. -/
def Begins (limits : UploadLimits) (waits : List Wait) : Prop :=
  waits = [] ∨ ∃ opts chunks, Grammar limits waits opts chunks

theorem chunks_nil (limits : UploadLimits) : Chunks limits [] [] :=
  ⟨rfl, by simp, by simp, by simp⟩

theorem Chunks.length_eq {limits : UploadLimits} {waits : List Wait} {chunks : List (List UInt8)}
    (h : Chunks limits waits chunks) : waits.length = chunks.length := by
  simpa using congrArg List.length h.frames

theorem Chunks.flatten_le {limits : UploadLimits} {waits : List Wait} {chunks : List (List UInt8)}
    (h : Chunks limits waits chunks) : chunks.flatten.length ≤ limits.maxWorkbookBytes := by
  have hall := h.within chunks.length (Nat.le_refl _)
  rwa [List.take_length] at hall

/-- One more chunk. -/
theorem chunks_snoc_iff {limits : UploadLimits} {waits : List Wait} {wait : Wait} {chunks : List (List UInt8)}
    {chunk : List UInt8} :
    Chunks limits (waits ++ [wait]) (chunks ++ [chunk]) ↔
      Chunks limits waits chunks ∧ wait.arrival = .frame ⟨some (.chunk chunk)⟩ ∧ chunk ≠ [] ∧
        chunks.flatten.length + chunk.length ≤ limits.maxWorkbookBytes ∧
        wait.admits (chunks.flatten.length + chunk.length) = .ok () := by
  have htotal : (chunks ++ [chunk]).flatten.length = chunks.flatten.length + chunk.length := by simp
  constructor
  · intro h
    have hlen : waits.length = chunks.length := by
      have := h.length_eq
      simpa using this
    have hframes := h.frames
    rw [List.map_append, List.map_append] at hframes
    obtain ⟨hwaits, hlast⟩ := List.append_inj hframes (by simp [hlen])
    refine ⟨⟨hwaits, fun c hc => h.nonempty c (List.mem_append_left _ hc), fun n hn => ?_, fun n w hw => ?_⟩, ?_, ?_, ?_, ?_⟩
    · have hwithin := h.within n (by simp; omega)
      rwa [List.take_append_of_le_length hn] at hwithin
    · obtain ⟨hn, -⟩ := List.getElem?_eq_some_iff.1 hw
      have hadmitted := h.admitted n w (by rw [List.getElem?_append_left hn, hw])
      rwa [List.take_append_of_le_length (by omega)] at hadmitted
    · simpa using hlast
    · exact h.nonempty chunk (by simp)
    · have hwithin := h.within (chunks.length + 1) (by simp)
      rwa [List.take_of_length_le (by simp), htotal] at hwithin
    · have hadmitted := h.admitted waits.length wait (by simp)
      rwa [List.take_of_length_le (by simp [hlen]), htotal] at hadmitted
  · rintro ⟨h, hframe, hne, hle, hok⟩
    have hlen := h.length_eq
    refine ⟨by simp [h.frames, hframe], fun c hc => ?_, fun n hn => ?_, fun n w hw => ?_⟩
    · rcases List.mem_append.1 hc with hc | hc
      · exact h.nonempty c hc
      · exact List.mem_singleton.1 hc ▸ hne
    · rcases Nat.lt_or_ge chunks.length n with hlast | hn
      · rwa [List.take_of_length_le (by simp; omega), htotal]
      · rw [List.take_append_of_le_length hn]
        exact h.within n hn
    · rcases Nat.lt_or_ge n waits.length with hn | hlast
      · rw [List.getElem?_append_left hn] at hw
        rw [List.take_append_of_le_length (by omega)]
        exact h.admitted n w hw
      · rw [List.getElem?_append_right hlast] at hw
        obtain ⟨hn, hwait⟩ := List.getElem?_eq_some_iff.1 hw
        rw [List.getElem_singleton] at hwait
        rwa [List.take_of_length_le (by simp; omega), htotal, ← hwait]

/-! ## What each wait adds -/

theorem nextFrame_ok_iff {limits : UploadLimits} {arrival : Arrival} {frame : Pb.OpenWorkbookRequest} :
    nextFrame limits arrival = .ok frame ↔ arrival = .frame frame := by
  cases arrival <;> simp [nextFrame]

theorem uploadOptions_ok_iff {first : Pb.OpenWorkbookRequest} {opts : UploadOptions} :
    uploadOptions first = .ok opts ↔
      ∃ options format, first = ⟨some (.options options)⟩ ∧ Pb.WorkbookFormat.tryFrom options.formatHint = some format ∧
        opts = (format, options.headerRow.map HeaderRow.ofSelection) := by
  obtain ⟨_ | ⟨options | chunk⟩⟩ := first
  · simp [uploadOptions]
  · cases hhint : Pb.WorkbookFormat.tryFrom options.formatHint <;> simp [uploadOptions, hhint, eq_comm]
  · simp [uploadOptions]

theorem receiveFrame_ok_iff {limits : UploadLimits} {admits : Nat → Except LimitExceeded Unit} {bytes bytes' : List UInt8}
    {frame : Pb.OpenWorkbookRequest} :
    receiveFrame limits admits bytes frame = .ok bytes' ↔
      ∃ chunk, frame = ⟨some (.chunk chunk)⟩ ∧ chunk ≠ [] ∧ bytes.length + chunk.length ≤ limits.maxWorkbookBytes ∧
        admits (bytes.length + chunk.length) = .ok () ∧ bytes' = bytes ++ chunk := by
  obtain ⟨_ | ⟨options | chunk⟩⟩ := frame
  · simp [receiveFrame]
  · simp [receiveFrame]
  · simp only [receiveFrame, List.isEmpty_iff]
    split
    · next hempty => simp [hempty]
    · next hne =>
      split
      · next hlong =>
        simp only [reduceCtorEq, false_iff, not_exists]
        rintro chunk ⟨hframe, -, hle, -⟩
        cases hframe
        omega
      · next hfits =>
        cases hadmits : admits (bytes.length + chunk.length) with
        | error limit =>
          simp only [reduceCtorEq, false_iff, not_exists]
          rintro chunk ⟨hframe, -, -, hok, -⟩
          cases hframe
          rw [hadmits] at hok
          cases hok
        | ok u =>
          constructor
          · intro h
            obtain rfl := Except.ok.inj h
            exact ⟨chunk, rfl, hne, Nat.not_lt.1 hfits, hadmits, rfl⟩
          · rintro ⟨chunk, hframe, -, -, -, rfl⟩
            cases hframe
            rfl

/-! ## What a run of waits adds -/

theorem bind_ok_iff {ε α β : Type} {x : Except ε α} {f : α → Except ε β} {b : β} :
    x >>= f = .ok b ↔ ∃ a, x = .ok a ∧ f a = .ok b := by
  cases x with
  | error e =>
    constructor
    · exact nofun
    · rintro ⟨a, h, -⟩
      cases h
  | ok a =>
    constructor
    · exact fun h => ⟨a, rfl, h⟩
    · rintro ⟨a, h, hf⟩
      cases h
      exact hf

/-- A fold that fails does so at an element it comes to. -/
theorem foldlM_error {ε σ α : Type} {f : σ → α → Except ε σ} {l : List α} {s : σ} {e : ε} (h : l.foldlM f s = .error e) :
    ∃ before a after s', l = before ++ a :: after ∧ before.foldlM f s = .ok s' ∧ f s' a = .error e := by
  induction l generalizing s with
  | nil => cases h
  | cons a l ih =>
    rw [List.foldlM_cons] at h
    cases hstep : f s a with
    | error e' =>
      rw [hstep] at h
      cases h
      exact ⟨[], a, l, s, rfl, rfl, hstep⟩
    | ok s₁ =>
      rw [hstep] at h
      obtain ⟨before, b, after, s', rfl, hbefore, hfail⟩ := ih h
      refine ⟨a :: before, b, after, s', rfl, ?_, hfail⟩
      rw [List.foldlM_cons, hstep]
      exact hbefore

namespace Receiving

variable {limits : UploadLimits} {waits : List Wait} {wait : Wait}

def run (limits : UploadLimits) (waits : List Wait) : Except Status Receiving := waits.foldlM (turn limits) .options

/-- What the grammar makes of the frames of a `receive_upload` that is here. -/
def Of (limits : UploadLimits) (waits : List Wait) : Receiving → Prop
  | .options => waits = []
  | .chunks opts bytes => ∃ chunks, Grammar limits waits opts chunks ∧ bytes = chunks.flatten

theorem turn_options_iff {r : Receiving} :
    turn limits .options wait = .ok r ↔
      ∃ frame opts, wait.arrival = .frame frame ∧ uploadOptions frame = .ok opts ∧ r = .chunks opts [] := by
  simp only [turn, bind_ok_iff, nextFrame_ok_iff, pure, Except.pure, Except.ok.injEq, eq_comm (b := r),
    exists_and_left]

theorem turn_chunks_iff {opts : UploadOptions} {bytes : List UInt8} {r : Receiving} :
    turn limits (.chunks opts bytes) wait = .ok r ↔
      ∃ frame bytes', wait.arrival = .frame frame ∧ receiveFrame limits wait.admits bytes frame = .ok bytes' ∧
        r = .chunks opts bytes' := by
  simp only [turn, bind_ok_iff, nextFrame_ok_iff, pure, Except.pure, Except.ok.injEq, eq_comm (b := r),
    exists_and_left]

theorem of_turn {r r' : Receiving} (h : r.Of limits waits) (hturn : r.turn limits wait = .ok r') :
    r'.Of limits (waits ++ [wait]) := by
  obtain ⟨arrival, admits⟩ := wait
  cases r with
  | options =>
    obtain rfl : waits = [] := h
    obtain ⟨frame, opts, rfl, hopts, rfl⟩ := turn_options_iff.1 hturn
    obtain ⟨options, format, rfl, hhint, rfl⟩ := uploadOptions_ok_iff.1 hopts
    exact ⟨[], .upload hhint (chunks_nil limits), rfl⟩
  | chunks opts bytes =>
    obtain ⟨chunks, ⟨hhint, hchunks⟩, rfl⟩ := h
    obtain ⟨frame, bytes', rfl, hframe, rfl⟩ := turn_chunks_iff.1 hturn
    obtain ⟨chunk, rfl, hne, hle, hadmits, rfl⟩ := receiveFrame_ok_iff.1 hframe
    refine ⟨chunks ++ [chunk], ?_, by simp⟩
    exact .upload hhint (chunks_snoc_iff.2 ⟨hchunks, rfl, hne, hle, hadmits⟩)

theorem turn_of {r' : Receiving} (h : r'.Of limits (waits ++ [wait])) :
    ∃ r : Receiving, r.Of limits waits ∧ r.turn limits wait = .ok r' := by
  cases r' with
  | options => exact absurd h (by simp [Of])
  | chunks opts bytes =>
    obtain ⟨chunks, hgrammar, rfl⟩ := h
    generalize hall : waits ++ [wait] = all at hgrammar
    obtain ⟨hhint, hchunks⟩ := hgrammar
    cases waits with
    | nil =>
      obtain ⟨rfl, rfl⟩ := List.cons.inj hall
      obtain rfl : chunks = [] := List.length_eq_zero_iff.1 hchunks.length_eq.symm
      exact ⟨.options, rfl, turn_options_iff.2 ⟨_, _, rfl, uploadOptions_ok_iff.2 ⟨_, _, rfl, hhint, rfl⟩, rfl⟩⟩
    | cons first waits =>
      obtain ⟨rfl, rfl⟩ := List.cons.inj hall
      rcases List.eq_nil_or_concat chunks with rfl | ⟨chunks, chunk, rfl⟩
      · exact absurd hchunks.length_eq (by simp)
      · rw [List.concat_eq_append] at hchunks ⊢
        obtain ⟨hbefore, hframe, hne, hle, hadmits⟩ := chunks_snoc_iff.1 hchunks
        refine ⟨.chunks _ chunks.flatten, ⟨chunks, .upload hhint hbefore, rfl⟩, ?_⟩
        exact turn_chunks_iff.2 ⟨_, _, hframe, receiveFrame_ok_iff.2 ⟨chunk, rfl, hne, hle, hadmits, rfl⟩, by simp⟩

/-- `receive_upload` gets through the frames an upload may begin with, and to
what the grammar makes of them. -/
theorem run_iff {r : Receiving} : run limits waits = .ok r ↔ r.Of limits waits := by
  induction waits using List.reverseRecOn generalizing r with
  | nil =>
    cases r with
    | options => exact ⟨fun _ => rfl, fun _ => rfl⟩
    | chunks opts bytes =>
      constructor
      · intro h
        cases h
      · rintro ⟨chunks, hgrammar, -⟩
        cases hgrammar
  | append_singleton waits wait ih =>
    have hrun : run limits (waits ++ [wait]) = run limits waits >>= fun r => turn limits r wait := by
      simp only [run, List.foldlM_append, List.foldlM_cons, List.foldlM_nil, bind_pure]
    rw [hrun, bind_ok_iff]
    constructor
    · rintro ⟨r₀, hr₀, hturn⟩
      exact of_turn (ih.1 hr₀) hturn
    · intro h
      obtain ⟨r₀, hr₀, hturn⟩ := turn_of h
      exact ⟨r₀, ih.2 hr₀, hturn⟩

theorem run_ok_iff_begins : (∃ r, run limits waits = .ok r) ↔ Begins limits waits := by
  constructor
  · rintro ⟨r, h⟩
    have hof := run_iff.1 h
    cases r with
    | options => exact .inl hof
    | chunks opts bytes =>
      obtain ⟨chunks, hgrammar, -⟩ := hof
      exact .inr ⟨opts, chunks, hgrammar⟩
  · rintro (rfl | ⟨opts, parts, hgrammar⟩)
    · exact ⟨.options, rfl⟩
    · have hof : (Receiving.chunks opts parts.flatten).Of limits waits := ⟨parts, hgrammar, rfl⟩
      exact ⟨_, run_iff.2 hof⟩

/-- The buffer never outgrows the limit. -/
theorem Of.bytes_le {r : Receiving} (h : r.Of limits waits) : r.bytes.length ≤ limits.maxWorkbookBytes := by
  cases r with
  | options => exact Nat.zero_le _
  | chunks opts bytes =>
    obtain ⟨chunks, ⟨-, hchunks⟩, rfl⟩ := h
    exact hchunks.flatten_le

end Receiving

theorem receiveFrames_eq (limits : UploadLimits) (opts : UploadOptions) (bytes : List UInt8) (waits : List Wait) :
    (do return (opts, ← receiveFrames limits bytes waits)) =
      waits.foldlM (Receiving.turn limits) (.chunks opts bytes) >>= Receiving.finish := by
  induction waits generalizing bytes with
  | nil => rfl
  | cons wait waits ih =>
    rw [List.foldlM_cons, receiveFrames, Receiving.turn]
    cases nextFrame limits wait.arrival with
    | error status => rfl
    | ok frame =>
      simp only [bind, Except.bind]
      cases hframe : receiveFrame limits wait.admits bytes frame with
      | error status => rfl
      | ok bytes => exact ih bytes

/-- `receive_upload` is its waits and its end. -/
theorem receiveUpload_eq (limits : UploadLimits) (waits : List Wait) :
    receiveUpload limits waits = Receiving.run limits waits >>= Receiving.finish := by
  cases waits with
  | nil => rfl
  | cons wait waits =>
    rw [Receiving.run, List.foldlM_cons, receiveUpload, Receiving.turn]
    cases nextFrame limits wait.arrival with
    | error status => rfl
    | ok frame =>
      simp only [bind, Except.bind]
      cases uploadOptions frame with
      | error status => rfl
      | ok opts => exact receiveFrames_eq limits opts [] waits

theorem receiveUpload_ok_iff {limits : UploadLimits} {waits : List Wait} {opts : UploadOptions} {bytes : List UInt8} :
    receiveUpload limits waits = .ok (opts, bytes) ↔
      ∃ chunks, Grammar limits waits opts chunks ∧ chunks ≠ [] ∧ bytes = chunks.flatten := by
  rw [receiveUpload_eq, bind_ok_iff]
  constructor
  · rintro ⟨r, hrun, hfinish⟩
    have hof := Receiving.run_iff.1 hrun
    cases r with
    | options => cases hfinish
    | chunks opts' bytes' =>
      obtain ⟨chunks, hgrammar, rfl⟩ := hof
      obtain ⟨bytes', hend, he⟩ := bind_ok_iff.1 hfinish
      cases he
      unfold receiveEnd at hend
      split at hend
      · cases hend
      · next hne =>
        cases hend
        refine ⟨chunks, hgrammar, ?_, rfl⟩
        rintro rfl
        exact hne rfl
  · rintro ⟨chunks, hgrammar, hne, rfl⟩
    have hof : (Receiving.chunks opts chunks.flatten).Of limits waits := ⟨chunks, hgrammar, rfl⟩
    refine ⟨_, Receiving.run_iff.2 hof, ?_⟩
    -- a chunk has a byte at least
    have hsome : chunks.flatten ≠ [] := by
      obtain ⟨-, hchunks⟩ := hgrammar
      obtain ⟨chunk, hmem⟩ := List.exists_mem_of_ne_nil chunks hne
      intro hnil
      exact hchunks.nonempty chunk hmem (List.flatten_eq_nil_iff.1 hnil chunk hmem)
    simp [Receiving.finish, receiveEnd, hsome]

/-- An upload that fails does so at the first frame an upload may not go on
with, whatever comes after it, or at the end of a stream without chunks. -/
theorem receiveUpload_error {limits : UploadLimits} {waits : List Wait} {status : Status}
    (h : receiveUpload limits waits = .error status) :
    (∃ before wait after, waits = before ++ wait :: after ∧ Begins limits before ∧ ¬ Begins limits (before ++ [wait]) ∧
        ∀ more, receiveUpload limits (before ++ wait :: more) = .error status) ∨
      waits = [] ∨ ∃ opts, Grammar limits waits opts [] := by
  rw [receiveUpload_eq] at h
  cases hrun : Receiving.run limits waits with
  | error status' =>
    rw [hrun] at h
    cases h
    obtain ⟨before, wait, after, r, rfl, hbefore, hfail⟩ := foldlM_error hrun
    have hstop : ∀ more, Receiving.run limits (before ++ wait :: more) = .error status := by
      intro more
      have hfold : before.foldlM (Receiving.turn limits) .options = .ok r := hbefore
      rw [Receiving.run, List.foldlM_append, hfold]
      exact (List.foldlM_cons ..).trans (congrArg (· >>= _) hfail)
    refine .inl ⟨before, wait, after, rfl, Receiving.run_ok_iff_begins.1 ⟨r, hbefore⟩, ?_, fun more => ?_⟩
    · intro hgoes
      obtain ⟨r', hr'⟩ := Receiving.run_ok_iff_begins.2 hgoes
      rw [hstop []] at hr'
      cases hr'
    · rw [receiveUpload_eq, hstop]
      rfl
  | ok r =>
    rw [hrun] at h
    have hof := Receiving.run_iff.1 hrun
    cases r with
    | options => exact .inr (.inl hof)
    | chunks opts bytes =>
      obtain ⟨chunks, hgrammar, rfl⟩ := hof
      have hempty : chunks = [] := by
        by_contra hne
        have hok := receiveUpload_ok_iff.2 ⟨chunks, hgrammar, hne, rfl⟩
        rw [receiveUpload_eq, hrun] at hok
        exact absurd (h.symm.trans hok) nofun
      exact .inr (.inr ⟨opts, hempty ▸ hgrammar⟩)

end GrpcCalamine
