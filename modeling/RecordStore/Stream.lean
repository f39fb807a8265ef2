import RecordStore.Bytes.LittleEndian

/-!
Byte streams. A decoder takes bytes from the front of a byte string and returns what it read and
the bytes it left. An encoder writes into a sink, which may have limited room: a piece that does
not fit leaves what fits in the sink and fails, so what a failed encoding has written can be seen.
-/

namespace RecordStore

/-! ### Failures -/

/-- Why a byte source or sink failed. -/
inductive StreamError
  /-- A read of a fixed size found fewer bytes. -/
  | ended
  /-- A read of a stated length found fewer bytes. -/
  | short (expected actual : Nat)
  /-- The sink has no room for the rest of a piece. -/
  | full
  deriving DecidableEq, Repr

def StreamError.message : StreamError → String
  | .ended => "failed to fill whole buffer"
  | .short expected actual => s!"expected {expected} bytes, got {actual}"
  | .full => "failed to write whole buffer"

/-! ### Decoding -/

/-- A computation that takes bytes from the front of its input or fails. -/
abbrev Decoder (ε : Type) := StateT Bytes (Except ε)

namespace Decoder

/-- Exactly `n` bytes; `short` is the failure, given how many there are. -/
def take (n : Nat) (short : Nat → ε) : Decoder ε Bytes := fun input =>
  if Bytes.atLeast n input then .ok (input.take n, input.drop n) else .error (short input.length)

/-- A number of one byte. -/
def byte : Decoder StreamError Nat := LittleEndian.decode <$> take 1 fun _ => .ended

/-- A number of four bytes. -/
def word : Decoder StreamError Nat := LittleEndian.decode <$> take 4 fun _ => .ended

/-- Bytes whose count was read before them. -/
def blob (n : Nat) : Decoder StreamError Bytes := take n fun actual => .short n actual

/-- The same decoder, its failures seen from one layer further out. -/
def within (wrap : ε → δ) (decoder : Decoder ε α) : Decoder δ α := fun input =>
  (decoder input).mapError wrap

end Decoder

/-! ### Encoding -/

/-- What has been written, and how many bytes more the sink takes, if it is bounded. -/
structure Sink where
  room : Option Nat
  written : Bytes
  deriving DecidableEq, Repr

/-- An empty sink. -/
def Sink.empty (room : Option Nat) : Sink := ⟨room, []⟩

/-- A computation that writes to a sink or fails. -/
abbrev Encoder (ε : Type) := ExceptT ε (StateM Sink)

namespace Encoder

/-- Writes one piece. -/
def put (piece : Bytes) : Encoder StreamError Unit := fun sink =>
  match sink.room with
  | none => (.ok (), { sink with written := sink.written ++ piece })
  | some room =>
    if piece.length ≤ room then
      (.ok (), ⟨some (room - piece.length), sink.written ++ piece⟩)
    else (.error .full, ⟨some 0, sink.written ++ piece.take room⟩)

/-- A number of one byte. -/
def byte (n : Nat) : Encoder StreamError Unit := put (LittleEndian.encode 1 n)

/-- A number of four bytes. -/
def word (n : Nat) : Encoder StreamError Unit := put (LittleEndian.encode 4 n)

/-- The same encoder, its failures seen from one layer further out. -/
def within (wrap : ε → δ) (encoder : Encoder ε Unit) : Encoder δ Unit := fun sink =>
  match encoder sink with
  | (.ok (), sink) => (.ok (), sink)
  | (.error e, sink) => (.error (wrap e), sink)

end Encoder

end RecordStore
