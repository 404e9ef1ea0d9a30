import GrpcCalamine.Lib.Chunked
import GrpcCalamine.Service.UploadGrammar
import GrpcCalamine.Store.Open
/-!
# The benchmark's upload

What `bench/src/main.rs` sends to open a workbook, against what the service makes
of it: the file arrives whole, byte for byte, or the upload is refused for its
size.
-/

namespace GrpcCalamine.Bench

open Chunked (chunks)

/-- Upload frame size. -/
def CHUNK : Nat := 1024 * 1024

/-- The frames of the upload leg. -/
def uploadFrames (raw : List UInt8) : List Pb.OpenWorkbookRequest :=
  ⟨some (.options ⟨0, none⟩)⟩ :: (chunks CHUNK raw).map fun c => ⟨some (.chunk c)⟩

section upload

variable {limits : UploadLimits} {raw : List UInt8} {waits : List Wait}

/-- What of the upload has come after so many chunks. -/
theorem length_flatten_take_chunks (raw : List UInt8) (i : Nat) :
    ((chunks CHUNK raw).take i).flatten.length = min (CHUNK * i) raw.length := by
  rw [Chunked.flatten_take_chunks (by decide), List.length_take]

/-- The chunks of a file are chunks of the upload grammar as far as the store
and the size limit let them. -/
theorem chunks_iff (h : waits.map (·.arrival) = (chunks CHUNK raw).map fun c => .frame ⟨some (.chunk c)⟩) :
    Chunks limits waits (chunks CHUNK raw) ↔ raw.length ≤ limits.maxWorkbookBytes ∧
      ∀ i (wait : Wait), waits[i]? = some wait → wait.admits (min (CHUNK * (i + 1)) raw.length) = .ok () := by
  constructor
  · intro hchunks
    refine ⟨?_, fun i wait hi => ?_⟩
    · have hall := hchunks.flatten_le
      rwa [Chunked.flatten_chunks (by decide)] at hall
    · rw [← length_flatten_take_chunks]
      exact hchunks.admitted i wait hi
  · rintro ⟨hfits, hadmits⟩
    refine ⟨h, fun _ => Chunked.chunk_ne_nil, fun i _ => ?_, fun i wait hi => ?_⟩
    · rw [length_flatten_take_chunks]
      exact (Nat.min_le_right _ _).trans hfits
    · rw [length_flatten_take_chunks]
      exact hadmits i wait hi

/-- The frames that arrive are the benchmark's: the options, then the chunks. -/
theorem grammar_frames_iff (h : waits.map (·.arrival) = (uploadFrames raw).map .frame) {opts : UploadOptions}
    {parts : List (List UInt8)} :
    Grammar limits waits opts parts ↔
      opts = (.unspecified, none) ∧ parts = chunks CHUNK raw ∧ raw.length ≤ limits.maxWorkbookBytes ∧
        ∀ i (wait : Wait), waits[i + 1]? = some wait → wait.admits (min (CHUNK * (i + 1)) raw.length) = .ok () := by
  obtain ⟨first, waits, rfl, hfirst, hrest⟩ := List.map_eq_cons_iff.1 h
  rw [List.map_map] at hrest
  constructor
  · intro hgrammar
    cases hgrammar with
    | upload hint hparts =>
      cases hfirst
      cases hint
      obtain rfl : parts = chunks CHUNK raw := by
        refine List.map_injective_iff.2 ?_ (hparts.frames.symm.trans hrest)
        rintro _ _ ⟨⟩
        rfl
      obtain ⟨hfits, hadmits⟩ := (chunks_iff hrest).1 hparts
      exact ⟨rfl, rfl, hfits, hadmits⟩
  · rintro ⟨rfl, rfl, hfits, hadmits⟩
    obtain ⟨arrival, admits⟩ := first
    cases hfirst
    exact .upload rfl ((chunks_iff hrest).2 ⟨hfits, hadmits⟩)

theorem receiveUpload_frames_iff (h : waits.map (·.arrival) = (uploadFrames raw).map .frame) {opts : UploadOptions}
    {bytes : List UInt8} :
    receiveUpload limits waits = .ok (opts, bytes) ↔
      (opts = (.unspecified, none) ∧ bytes = raw) ∧ raw ≠ [] ∧ raw.length ≤ limits.maxWorkbookBytes ∧
        ∀ i (wait : Wait), waits[i + 1]? = some wait → wait.admits (min (CHUNK * (i + 1)) raw.length) = .ok () := by
  have hchunk : CHUNK ≠ 0 := by decide
  rw [receiveUpload_ok_iff]
  constructor
  · rintro ⟨parts, hgrammar, hne, rfl⟩
    obtain ⟨rfl, rfl, hfits, hadmits⟩ := (grammar_frames_iff h).1 hgrammar
    exact ⟨⟨rfl, Chunked.flatten_chunks hchunk raw⟩, mt (Chunked.chunks_eq_nil_iff hchunk).2 hne, hfits, hadmits⟩
  · rintro ⟨⟨rfl, rfl⟩, hne, hfits, hadmits⟩
    exact ⟨_, (grammar_frames_iff h).2 ⟨rfl, rfl, hfits, hadmits⟩, mt (Chunked.chunks_eq_nil_iff hchunk).1 hne,
      (Chunked.flatten_chunks hchunk _).symm⟩

end upload

/-- What is opened comes of a parse of the bytes. -/
theorem parse_of_openWorkbook {opens : OpenLimits} {zip : List UInt8 → Option (List (Option Entry))}
    {calamine : Calamine.Opener} {s s' : Store} {bytes : List UInt8} {headerRow : Option HeaderRow} {id id' : String}
    {entry : WorkbookEntry}
    (h : s.openWorkbook opens zip calamine bytes .unspecified headerRow id = (.ok (id', entry), s')) :
    ∃ size, Store.parse opens calamine bytes .unspecified headerRow size = .ok entry := by
  rw [Store.openWorkbook] at h
  split at h
  · cases h
  · next size _ _ =>
    refine ⟨size, ?_⟩
    cases hparse : Store.parse opens calamine bytes .unspecified headerRow size with
    | error e =>
      rw [hparse] at h
      cases h
    | ok made =>
      rw [hparse] at h
      cases h
      rfl

/-- The server takes the benchmark's upload exactly if the file is not empty,
within the limit and let in by the store after every chunk of it, and the
workbook it opens then is one of the file, byte for byte. -/
theorem upload_opens_file {limits : UploadLimits} {raw : List UInt8} {waits : List Wait}
    (h : waits.map (·.arrival) = (uploadFrames raw).map .frame) :
    (∀ opts bytes, receiveUpload limits waits = .ok (opts, bytes) ↔
      (opts = (.unspecified, none) ∧ bytes = raw) ∧ raw ≠ [] ∧ raw.length ≤ limits.maxWorkbookBytes ∧
        ∀ i (wait : Wait), waits[i + 1]? = some wait → wait.admits (min (CHUNK * (i + 1)) raw.length) = .ok ()) ∧
    ∀ opts bytes (opens : OpenLimits) zip calamine (s s' : Store) id id' entry,
      receiveUpload limits waits = .ok (opts, bytes) →
        s.openWorkbook opens zip calamine bytes opts.1 opts.2 id = (.ok (id', entry), s') →
          entry.bytes = raw ∧ entry.headerRow = none ∧ opens.formats.accepts entry.format = true := by
  refine ⟨fun _ _ => receiveUpload_frames_iff h, ?_⟩
  intro opts bytes opens zip calamine s s' id id' entry hreceived hopened
  obtain ⟨⟨rfl, rfl⟩, -⟩ := (receiveUpload_frames_iff h).1 hreceived
  obtain ⟨size, hparse⟩ := parse_of_openWorkbook hopened
  have hparsed := Store.parse_ok (.inl rfl) hparse
  exact ⟨hparsed.asked.1, hparsed.asked.2, hparsed.accepted⟩

/-- A file of two chunks, the second of one byte, on a server that has room for
it. -/
theorem upload_opens_file_chunks : (uploadFrames (List.replicate (CHUNK + 1) 0)).length = 3 ∧
    receiveUpload ⟨CHUNK + 1, "30s", none, ⟨fun _ => true⟩⟩
      ((uploadFrames (List.replicate (CHUNK + 1) 0)).map fun frame => ⟨.frame frame, fun _ => .ok ()⟩) =
        .ok ((.unspecified, none), List.replicate (CHUNK + 1) 0) := by
  have hne : List.replicate (CHUNK + 1) (0 : UInt8) ≠ [] := by
    rw [List.replicate_succ]
    exact List.cons_ne_nil _ _
  constructor
  · have hchunk : CHUNK ≠ 0 := by decide
    have hrest : (List.replicate (CHUNK + 1) (0 : UInt8)).drop CHUNK = [0] := by
      rw [List.drop_replicate, Nat.add_sub_cancel_left]
      rfl
    have hover : ([0] : List UInt8).drop CHUNK = [] := List.drop_of_length_le (by decide)
    rw [uploadFrames, Chunked.chunks_cons hchunk hne, hrest, Chunked.chunks_cons hchunk (List.cons_ne_nil _ _), hover,
      Chunked.chunks_nil]
    rfl
  · have h := @upload_opens_file ⟨CHUNK + 1, "30s", none, ⟨fun _ => true⟩⟩ (List.replicate (CHUNK + 1) 0)
      ((uploadFrames (List.replicate (CHUNK + 1) 0)).map fun frame => ⟨.frame frame, fun _ => .ok ()⟩)
      (List.map_map.trans rfl)
    refine (h.1 _ _).2 ⟨⟨rfl, rfl⟩, hne, (List.length_replicate).le, fun i wait hi => ?_⟩
    rw [List.getElem?_map] at hi
    obtain ⟨_, -, rfl⟩ := Option.map_eq_some_iff.1 hi
    rfl

end GrpcCalamine.Bench
