import RecordStore.Schema.Basic
import RecordStore.Stream

/-!
Stored schemas. A schema is a format version of four bytes and a column count of one; each column
is the length of its name in one byte, the name, and its tag in four bytes. Reading refuses every
column that an edit would refuse.
-/

namespace RecordStore.Schema

def formatVersion : Nat := 0

/-! ### Writing -/

def writeColumn (c : Column) : Encoder Error Unit := do
  if maxNameLength < c.name.utf8ByteSize then
    throw (.edit (.nameTooLong c.name.utf8ByteSize))
  (Encoder.byte c.name.utf8ByteSize).within .stream
  (Encoder.put (Utf8.encode c.name)).within .stream
  (Encoder.word c.type.tag).within .stream

def write (s : Schema) : Encoder Error Unit := do
  if maxColumns < s.size then throw (.edit .full)
  (Encoder.word formatVersion).within .stream
  (Encoder.byte s.size).within .stream
  s.columns.forM writeColumn

/-! ### Reading -/

/-- Reads one column and pushes it on those read so far. -/
def readColumn (columns : List Column) : Decoder Error (List Column) := do
  let index := columns.length
  let length ← Decoder.byte.within .stream
  let nameBytes ← (Decoder.blob length).within .stream
  let some name := Utf8.toText? nameBytes | throw (.corrupt (.nameNotText index))
  let tag ← Decoder.word.within .stream
  match ValueType.ofTag tag with
  | .error reason => throw (.corrupt (.badType index reason))
  | .ok type =>
    match pushColumn columns name type with
    | .error reason => throw (.corrupt (.badColumn index reason))
    | .ok columns => pure columns

/-- Reads `count` columns more. -/
def readColumns : Nat → List Column → Decoder Error (List Column)
  | 0, columns => pure columns
  | count + 1, columns => do readColumns count (← readColumn columns)

def read : Decoder Error Schema := do
  let version ← Decoder.word.within .stream
  if version ≠ formatVersion then throw (.unsupportedVersion version)
  let count ← Decoder.byte.within .stream
  ofColumns <$> readColumns count []

end RecordStore.Schema
