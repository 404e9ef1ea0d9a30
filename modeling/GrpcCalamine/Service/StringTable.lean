import GrpcCalamine.Service.Send
/-!
# The stream's shared-string table

`StringTable` of `src/service.rs`: shared strings are interned by the address
and length of their borrow, and the entries not yet sent leave in chunks.
-/

namespace GrpcCalamine

/-- Most string bytes packed into one `StringTableChunk`: 4 MiB. -/
def MAX_STRING_CHUNK_BYTES : Nat := 4 * 1024 * 1024

/-- The address and length a borrow is interned by. -/
def Calamine.SharedStr.key (s : Calamine.SharedStr) : Nat × Nat := (s.addr, s.text.utf8ByteSize)

structure StringTable where
  index : List ((Nat × Nat) × Nat)
  /-- Entries interned since the last chunk was taken, in id order. -/
  pending : List String
  nextId : Nat

namespace StringTable

def new : StringTable := { index := [], pending := [], nextId := 0 }

/-- Intern one shared-string borrow, returning its stream-scoped id. -/
def intern (t : StringTable) (s : Calamine.SharedStr) : Nat × StringTable :=
  match t.index.lookup s.key with
  | some id => (id, t)
  | none =>
    (t.nextId, { index := (s.key, t.nextId) :: t.index, pending := t.pending ++ [s.text],
                 nextId := (t.nextId + 1) % 2 ^ 32 })

/-- The loop of `take_chunk`: how many entries fit in one chunk, at least one. -/
def chunkLen : List String → (bytes n : Nat) → Nat
  | [], _, n => n
  | s :: rest, bytes, n =>
    if n > 0 ∧ bytes + s.utf8ByteSize > MAX_STRING_CHUNK_BYTES then n
    else chunkLen rest (bytes + s.utf8ByteSize) (n + 1)

/-- Take the next chunk of not-yet-sent entries. `none` when everything
interned so far is already on the wire. -/
def takeChunk (t : StringTable) : Option (Pb.StringTableChunk × StringTable) :=
  if t.pending.isEmpty then none
  else
    let firstId := (t.nextId + 2 ^ 32 - t.pending.length % 2 ^ 32) % 2 ^ 32
    let n := chunkLen t.pending 0 0
    some ({ firstId, entries := t.pending.take n }, { t with pending := t.pending.drop n })

/-- The loop of `send_new_strings`. Every chunk takes at least one pending
entry, so there are at most `pending.length` of them. -/
def sendChunks : Nat → StringTable → Stream Pb.RangeEvent (Bool × StringTable)
  | 0, t => return (true, t)
  | n + 1, t =>
    match t.takeChunk with
    | none => return (true, t)
    | some (chunk, t) => do
      if ← sendEvent (.stringTable chunk) then sendChunks n t else return (false, t)

end StringTable

end GrpcCalamine
