import RecordStore.Table.Buffer
import RecordStore.Table.Edit

/-!
Tables as they lie in memory: a list of buffers in place of a list of chunks. A table in memory is
looked at as the table of its chunks; each change is carried out on the buffers.
-/

namespace RecordStore

open Table (Buffer Config Cursor)

structure Memory where
  schema : Schema
  buffers : List Buffer
  numRecords : Nat
  config : Config
  generation : Nat
  compact : Bool

namespace Memory

/-- The table that is seen. -/
def table (m : Memory) : Table where
  schema := m.schema
  chunks := m.buffers.map Buffer.chunk
  numRecords := m.numRecords
  config := m.config
  generation := m.generation
  compact := m.compact

/-- An empty table. -/
def build (schema : Schema) (config : Config) : Memory where
  schema := schema
  buffers := []
  numRecords := 0
  config := config
  generation := 0
  compact := true

/-- The buffer with this number. -/
def buffer (m : Memory) (index : Nat) : Except Fault Buffer :=
  match m.buffers[index]? with
  | some b => .ok b
  | none => .error .outOfBounds

/-- Put a changed buffer in its place. -/
def setBuffer (m : Memory) (index : Nat) (b : Buffer) : Memory :=
  { m with buffers := m.buffers.set index b }

/-- Start a new generation and, where configured, check the table. -/
def touch (m : Memory) : Except Fault Memory := do
  let m := { m with generation := m.generation + 1, compact := false }
  if m.config.checkInvariants then m.table.check
  return m

/-- Start a new generation in which the cursor is carried on. -/
def touchAt (m : Memory) (cursor : Cursor) : Except Fault (Memory × Cursor) := do
  let m ← m.touch
  return (m, { cursor with generation := m.generation })

/-! ### Resizing -/

/-- Give the segment of `old` bytes at the cursor the size `new`. -/
def resizeSegment (m : Memory) (cursor : Cursor) (old new : Nat) :
    Except Fault (Memory × Cursor) := do
  let b ← m.buffer cursor.chunkIndex
  let span ← b.span cursor.offset old
  let (buffers, moved) := span.resize m.config.chunkSize cursor new
  let front := m.buffers.take cursor.chunkIndex
  let back := m.buffers.drop (cursor.chunkIndex + 1)
  return ({ m with buffers := front ++ buffers ++ back }, moved)

/-- Make `size` zero bytes in front of the cursor, which ends up at them. -/
def makeRoom (m : Memory) (cursor : Cursor) (size : Nat) : Except Fault (Memory × Cursor) := do
  if m.buffers.isEmpty then
    let m := { m with buffers := [.withCapacity (max m.config.chunkSize size)] }
    m.resizeSegment { cursor with chunkIndex := 0, innerIndex := 0, offset := 0 } 0 size
  else
    m.resizeSegment (← m.table.placeFor cursor size) 0 size

/-! ### Changes -/

/-- Insert a record in front of the cursor, field by field. -/
def insert (m : Memory) (cursor : Cursor) (values : List Value) :
    Except Fault (Memory × Cursor) := do
  if !m.table.isPosition cursor then return (m, cursor)
  let types := m.schema.types
  let size := Record.reserveSize types values m.config.minStringReserve
  let header ← Record.header size
  let (m, cursor) ← m.makeRoom cursor size
  let fields := (Record.cells types values).map fun (t, v) => Field.encode t v
  let b ← m.buffer cursor.chunkIndex
  let b ← b.storeAll cursor.offset (header :: fields)
  let m := m.setBuffer cursor.chunkIndex { b with numRecords := b.numRecords + 1 }
  { m with numRecords := m.numRecords + 1 }.touchAt cursor

/-- Insert a record at the end. -/
def push (m : Memory) (values : List Value) : Except Fault (Memory × Cursor) :=
  m.insert m.table.endCursor values

/-- Remove the record at the cursor. -/
def remove (m : Memory) (cursor : Cursor) : Except Fault (Memory × Cursor) := do
  if !m.table.isValid cursor then return (m, cursor)
  let record ← m.table.record cursor
  let (m, cursor) ← m.resizeSegment cursor record.length 0
  let b ← m.buffer cursor.chunkIndex
  let b := { b with numRecords := b.numRecords - 1 }
  let m := { m with numRecords := m.numRecords - 1 }
  if b.numRecords = 0 then
    let m := { m with buffers := m.buffers.eraseIdx cursor.chunkIndex }
    m.touchAt (m.table.seatAt cursor cursor.chunkIndex)
  else
    let m := m.setBuffer cursor.chunkIndex b
    m.touchAt (if cursor.offset < b.tail then cursor
      else m.table.seatAt cursor (cursor.chunkIndex + 1))

/-- Replace the field in a column of the record at the cursor. -/
def setField (m : Memory) (cursor : Cursor) (column : Nat) (value : Value) :
    Except Fault (Memory × Cursor) := do
  if !m.table.isValid cursor then return (m, cursor)
  let some type := m.schema.type? column | return (m, cursor)
  if type.isNull then return (m, cursor)
  let field := Field.encode type (value.convertTo type)
  let record ← m.table.record cursor
  let start ← Record.fieldOffset m.schema.types record column
  let old ← Field.size type (record.drop start)
  let dataEnd ← Record.dataSize m.schema.types record
  let grown := record.length - old + field.length
  let size := if record.length < dataEnd - old + field.length then grown else record.length
  let (m, cursor) ← m.resizeSegment cursor record.length size
  let header ← Record.header size
  let b ← m.buffer cursor.chunkIndex
  let b ← b.replaceField cursor.offset header start old dataEnd field
  (m.setBuffer cursor.chunkIndex b).touchAt cursor

/-- Remove all records. -/
def clear (m : Memory) : Except Fault Memory := do
  let m ← { m with buffers := [], numRecords := 0 }.touch
  return { m with compact := true }

/-- Pack the records of a table that is not compact into new buffers. -/
def optimize (m : Memory) : Except Fault Memory := do
  if m.compact then return m
  let records ← m.table.denseRecords
  let packed := { m with
    buffers := Buffer.pack m.config.chunkSize records
    generation := m.generation + 1
    compact := true }
  if packed.config.checkInvariants then packed.table.check
  return packed

/-- Append rows one after the other. -/
def pushAll (m : Memory) (rows : List (List Value)) : Except Fault Memory :=
  rows.foldlM (fun m row => Prod.fst <$> m.push row) m

/-- Adopt a schema, and tell whether the types of the columns changed. -/
def configure (m : Memory) (schema : Schema) : Except Fault (Bool × Memory) := do
  let (changed, adopted) := m.schema.assign schema
  if !changed then return (false, { m with schema := adopted })
  let cleared ← { m with schema := adopted }.clear
  if m.schema.size = adopted.size ∧ !adopted.isEmpty then
    let rows ← m.table.truncatedRows adopted.types (← m.table.rows.cursors)
    return (true, ← cleared.pushAll rows)
  return (true, cleared)

end Memory

end RecordStore
