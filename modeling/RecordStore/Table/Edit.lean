import RecordStore.Table.Resize
import RecordStore.Table.Walk

/-!
Changes to a table. The records change at one place, through a cursor that is current, or all at
once: they are removed, packed, or rewritten for another schema.
-/

namespace RecordStore.Table

/-! ### Records -/

/-- Put a changed chunk in its place. -/
def setChunk (t : Table) (index : Nat) (c : Chunk) : Table :=
  { t with chunks := t.chunks.set index c }

/-- Start a new generation in which the cursor is carried on. -/
def touchAt (t : Table) (cursor : Cursor) : Except Fault (Table × Cursor) := do
  let t ← t.touch
  return (t, { cursor with generation := t.generation })

/-- Insert a record in front of the cursor, which ends up at the new record. Values are converted
to the types of their columns; missing ones are zero, and those past the last column are ignored. -/
def insert (t : Table) (cursor : Cursor) (values : List Value) : Except Fault (Table × Cursor) := do
  if !t.isPosition cursor then return (t, cursor)
  let types := t.schema.types
  let size := Record.reserveSize types values t.config.minStringReserve
  let header ← Record.header size
  let (t, cursor) ← t.makeRoom cursor size
  let fields := Record.encodeFields (Record.cells types values)
  let c ← (← t.chunk cursor.chunkIndex).overwrite cursor.offset (header ++ fields)
  let t := t.setChunk cursor.chunkIndex { c with numRecords := c.numRecords + 1 }
  { t with numRecords := t.numRecords + 1 }.touchAt cursor

/-- Insert a record at the end. -/
def push (t : Table) (values : List Value) : Except Fault (Table × Cursor) :=
  t.insert t.endCursor values

/-- Remove the record at the cursor, which ends up at the record that followed. A chunk that has
lost its last record is dropped. -/
def remove (t : Table) (cursor : Cursor) : Except Fault (Table × Cursor) := do
  if !t.isValid cursor then return (t, cursor)
  let record ← t.record cursor
  let (t, cursor) ← t.resizeSegment cursor record.length 0
  let c ← t.chunk cursor.chunkIndex
  let c := { c with numRecords := c.numRecords - 1 }
  let t := { t with numRecords := t.numRecords - 1 }
  if c.numRecords = 0 then
    let t := { t with chunks := t.chunks.eraseIdx cursor.chunkIndex }
    t.touchAt (t.seatAt cursor cursor.chunkIndex)
  else
    let t := t.setChunk cursor.chunkIndex c
    t.touchAt (if cursor.offset < c.tail then cursor else t.seatAt cursor (cursor.chunkIndex + 1))

/-- Replace the field in a column of the record at the cursor. The value is converted to the type of
the column. The record keeps its size if its slack suffices and else grows as the field does. -/
def setField (t : Table) (cursor : Cursor) (column : Nat) (value : Value) :
    Except Fault (Table × Cursor) := do
  if !t.isValid cursor then return (t, cursor)
  let some type := t.schema.type? column | return (t, cursor)
  if type.isNull then return (t, cursor)
  let field := Field.encode type (value.convertTo type)
  let record ← t.record cursor
  let start ← Record.fieldOffset t.schema.types record column
  let old ← Field.size type (record.drop start)
  let dataEnd ← Record.dataSize t.schema.types record
  let grown := record.length - old + field.length
  let size := if record.length < dataEnd - old + field.length then grown else record.length
  let (t, cursor) ← t.resizeSegment cursor record.length size
  let changed := Record.replaceField (record.resize size) start old dataEnd field
  let patch := (← Record.header size) ++ changed.drop Record.headerBytes
  let c ← (← t.chunk cursor.chunkIndex).overwrite cursor.offset patch
  (t.setChunk cursor.chunkIndex c).touchAt cursor

/-- Remove all records. -/
def clear (t : Table) : Except Fault Table := do
  let t ← { t with chunks := [], numRecords := 0 }.touch
  return { t with compact := true }

/-- Remove records at the cursor while there are any, at most `n`: how many there were. -/
def drain : Nat → Table → Cursor → Except Fault (Nat × Table × Cursor)
  | 0, t, cursor => .ok (0, t, cursor)
  | n + 1, t, cursor => do
    if !t.isValid cursor then return (0, t, cursor)
    let (t, cursor) ← t.remove cursor
    let (removed, t, cursor) ← drain n t cursor
    return (removed + 1, t, cursor)

/-! ### Packing

All records without slack, laid into chunks one after the other. A chunk is closed when the next
record does not fit, and a record larger than a chunk gets one of its own size. -/

/-- The chunks for the records, of which `current` takes the first ones. -/
def packFrom (chunkSize : Nat) (current : Chunk) : List Bytes → List Chunk
  | [] => if current.numRecords = 0 then [] else [current]
  | record :: records =>
    if current.spaceTail < record.length then
      let next := (Chunk.empty (max chunkSize record.length)).push record
      if current.numRecords = 0 then packFrom chunkSize next records
      else current :: packFrom chunkSize next records
    else packFrom chunkSize (current.push record) records

/-- The chunks for the records. -/
def pack (chunkSize : Nat) (records : List Bytes) : List Chunk :=
  packFrom chunkSize (.empty chunkSize) records

/-- All records in order, without slack. -/
def denseRecords (t : Table) : Except Fault (List Bytes) := do
  let records ← t.chunks.mapM Chunk.records
  records.flatten.mapM (Record.dense t.schema.types)

/-- Pack the records of a table that is not compact. This starts a new generation. -/
def optimize (t : Table) : Except Fault Table := do
  if t.compact then return t
  let records ← t.denseRecords
  let packed := { t with
    chunks := pack t.config.chunkSize records
    generation := t.generation + 1
    compact := true }
  if packed.config.checkInvariants then packed.check
  return packed

/-! ### Schemas

Where only names change, the records stay. Where types change but not their number, every value is
truncated to the new type of its column; otherwise the records are dropped. -/

/-- The values of the rows at these positions, truncated to other types. -/
def truncatedRows (t : Table) (types : List ValueType) (cursors : List Cursor) :
    Except Fault (List (List Value)) :=
  cursors.mapM fun c => return types.zipWith (fun type v => v.truncateTo type) (← t.cells c)

/-- Append rows one after the other. -/
def pushAll (t : Table) (rows : List (List Value)) : Except Fault Table :=
  rows.foldlM (fun t row => Prod.fst <$> t.push row) t

/-- Adopt a schema, and tell whether the types of the columns changed. -/
def configure (t : Table) (schema : Schema) : Except Fault (Bool × Table) := do
  let (changed, adopted) := t.schema.assign schema
  if !changed then return (false, { t with schema := adopted })
  let cleared ← { t with schema := adopted }.clear
  if t.schema.size = adopted.size ∧ !adopted.isEmpty then
    let rows ← t.truncatedRows adopted.types (← t.rows.cursors)
    return (true, ← cleared.pushAll rows)
  return (true, cleared)

end RecordStore.Table
