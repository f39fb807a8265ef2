import RecordStore.Schema.Codec
import RecordStore.Table.Edit

/-!
Stored tables. A table is a format version, its schema and a count of chunks; each chunk is a count
of records, a count of bytes, and the bytes. All counts take four bytes. Reading checks that the
bytes of every chunk are as many well-formed records as its count says.
-/

namespace RecordStore.Table

def formatVersion : Nat := 0

/-! ### Writing -/

def writeChunk (c : Chunk) : Encoder Error Unit := do
  (Encoder.word c.numRecords).within .stream
  (Encoder.word c.live.length).within .stream
  (Encoder.put c.live).within .stream

/-- Write the table as it is laid out, slack included. -/
def writeAsIs (t : Table) : Encoder Error Unit := do
  (Encoder.word formatVersion).within .stream
  t.schema.write.within .schema
  (Encoder.word t.chunks.length).within .stream
  t.chunks.forM writeChunk

/-- Pack the table, then write it: the packed table, the outcome and what reached the sink. -/
def write (t : Table) (sink : Sink) : Except Fault (Table × Except Error Unit × Sink) := do
  let t ← t.optimize
  return (t, t.writeAsIs sink)

/-! ### Reading -/

/-- Check the records from `offset` on, of which `seen` came before: how many there are in all, and
whether none has slack. -/
def checkRecords (types : List ValueType) (offset seen : Nat) (bytes : Bytes) :
    Except ChunkCorruption (Nat × Bool) :=
  if bytes.isEmpty then .ok (seen, true)
  else
    match Field.number? Record.headerBytes bytes with
    | none => .error (.cutHeader offset)
    | some size =>
      if _h : size < Record.headerBytes ∨ bytes.length < size then
        .error (.badSize seen size bytes.length)
      else
        match Record.dataSize? types (bytes.take size) with
        | none => .error (.fieldsOverrun seen size)
        | some used => do
          let (found, dense) ← checkRecords types (offset + size) (seen + 1) (bytes.drop size)
          return (found, used = size && dense)
termination_by bytes.length
decreasing_by
  simp only [Record.headerBytes] at _h
  simp only [List.length_drop]
  omega

/-- Check that the bytes are `count` records, and tell whether none has slack. -/
def checkStored (types : List ValueType) (count : Nat) (bytes : Bytes) :
    Except ChunkCorruption Bool := do
  if count = 0 ∨ bytes.isEmpty then throw (.empty count bytes.length)
  let (found, dense) ← checkRecords types 0 0 bytes
  if found ≠ count then throw (.miscounted count found)
  return dense

/-- Reads chunk `index`, and tells whether none of its records has slack. -/
def readChunk (types : List ValueType) (index : Nat) : Decoder Error (Chunk × Bool) := do
  let count ← Decoder.word.within .stream
  let size ← Decoder.word.within .stream
  let bytes ← (Decoder.blob size).within .stream
  match checkStored types count bytes with
  | .error reason => throw (.corrupt index reason)
  | .ok dense => return (.ofRecords bytes count, dense)

/-- Reads `count` chunks, the first of which is number `index`. -/
def readChunks (types : List ValueType) : Nat → Nat → Decoder Error (List (Chunk × Bool))
  | 0, _ => pure []
  | count + 1, index => do
    let first ← readChunk types index
    return first :: (← readChunks types count (index + 1))

/-- Read a table under a configuration, which has to be valid. -/
def readWithConfig (config : Config) : Decoder Error Table := do
  if let .error reason := config.validate then throw (.config reason)
  let version ← Decoder.word.within .stream
  if version ≠ formatVersion then throw (.unsupportedVersion version)
  let schema ← Schema.read.within .schema
  let count ← Decoder.word.within .stream
  let chunks ← readChunks schema.types count 0
  return { build schema config with
    chunks := chunks.map Prod.fst
    numRecords := (chunks.map fun (c, _) => c.numRecords).sum
    compact := chunks.all Prod.snd }

def read : Decoder Error Table := readWithConfig .default

end RecordStore.Table
