import RecordStore.Schema.Basic
import RecordStore.Table.Chunk
import RecordStore.Table.Error

/-!
Tables: records of one schema in a list of chunks. A cursor is a plain position in a table at one
generation; every change starts a new generation, in which only the cursor of that change is
carried on.
-/

namespace RecordStore

structure Table where
  schema : Schema
  chunks : List Table.Chunk
  numRecords : Nat
  config : Table.Config
  /-- The number of changes so far. -/
  generation : Nat
  /-- No record has slack, and the chunks are packed. -/
  compact : Bool
  deriving DecidableEq, Repr

namespace Table

/-- The position of a record, or the end position, in a table at one generation. -/
structure Cursor where
  /-- The number of records in front. -/
  index : Nat
  chunkIndex : Nat
  /-- The number of records in front within the chunk. -/
  innerIndex : Nat
  /-- The place in the buffer of the chunk. -/
  offset : Nat
  generation : Nat
  deriving DecidableEq, Repr

namespace Cursor

/-- Cursors are compared by the number of records in front. -/
def order (c d : Cursor) : Ordering := compare c.index d.index

/-- Equally many records in front. -/
def samePlace (c d : Cursor) : Bool := c.index = d.index

end Cursor

/-! ### Building -/

/-- An empty table. -/
def build (schema : Schema) (config : Config) : Table where
  schema := schema
  chunks := []
  numRecords := 0
  config := config
  generation := 0
  compact := true

def new (schema : Schema) : Table := build schema .default

/-- An empty table under a configuration, which has to be valid. -/
def withConfig (schema : Schema) (config : Config) : Except Error Table :=
  match config.validate with
  | .ok () => .ok (build schema config)
  | .error reason => .error (.config reason)

instance : Inhabited Table := ⟨new .empty⟩

/-! ### Looking -/

def isEmpty (t : Table) : Bool := t.numRecords = 0

/-- The chunk with this number. -/
def chunk (t : Table) (index : Nat) : Except Fault Chunk :=
  match t.chunks[index]? with
  | some c => .ok c
  | none => .error .outOfBounds

/-- Put the cursor on the first record of a chunk, or on the end position past the last one. -/
def seatAt (t : Table) (c : Cursor) (chunkIndex : Nat) : Cursor :=
  { c with
    chunkIndex
    innerIndex := 0
    offset := (t.chunks[chunkIndex]?.map Chunk.head).getD 0 }

/-- The position of the first record, the end position if there is none. -/
def startCursor (t : Table) : Cursor := t.seatAt ⟨0, 0, 0, 0, t.generation⟩ 0

/-- The position behind the last record. -/
def endCursor (t : Table) : Cursor := ⟨t.numRecords, t.chunks.length, 0, 0, t.generation⟩

/-- The cursor is of the table as it is now. -/
def isCurrent (t : Table) (c : Cursor) : Bool := c.generation = t.generation

/-- The cursor is at a record. -/
def isValid (t : Table) (c : Cursor) : Bool :=
  t.isCurrent c && c.index < t.numRecords && c.chunkIndex < t.chunks.length

/-- The cursor is at a record or at the end. -/
def isPosition (t : Table) (c : Cursor) : Bool := t.isCurrent c && c.index ≤ t.numRecords

/-! ### Checking -/

/-- The number of records in a chunk, if it has any, is within its capacity and agrees with its
records. -/
def checkChunk (types : List ValueType) (index : Nat) (c : Chunk) : Except Fault Nat := do
  if c.capacity < c.tail then throw (.chunkOverfull index)
  if c.numRecords = 0 then throw (.chunkEmpty index)
  let records ← c.records
  records.forM fun record => do
    if record.length < (← Record.dataSize types record) then throw (.recordOverflow index)
  if records.length ≠ c.numRecords then throw (.chunkMiscount index)
  return records.length

/-- Check all that the operations rely on. -/
def check (t : Table) : Except Fault Unit := do
  let counts ← t.chunks.zipIdx.mapM fun (c, index) => checkChunk t.schema.types index c
  if counts.sum ≠ t.numRecords then throw .tableMiscount

/-- Start a new generation and, where configured, check the table. -/
def touch (t : Table) : Except Fault Table := do
  let t := { t with generation := t.generation + 1, compact := false }
  if t.config.checkInvariants then t.check
  return t

end Table

end RecordStore
