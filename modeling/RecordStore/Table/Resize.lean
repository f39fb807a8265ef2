import RecordStore.Table.Basic

/-!
Resizing a segment: a stretch of live bytes, empty or one record, gets another size. Growth uses
free space on the side that moves fewer bytes; where neither side has enough, the chunk is
reallocated or split. What the segment keeps of its bytes comes first, and zeros fill the rest.
-/

namespace RecordStore.Table

/-- How a chunk gives a segment another size. -/
inductive Resize
  /-- Nothing moves. -/
  | keep
  /-- The bytes in front move, with what the segment keeps. -/
  | shiftHead
  /-- The bytes behind move. -/
  | shiftTail
  /-- The segment is all there is and moves to another buffer. -/
  | reallocate
  /-- The bytes in front move to a new chunk in front, with the segment. -/
  | splitHead
  /-- The bytes behind move to a new chunk behind, with the segment. -/
  | splitTail
  deriving DecidableEq, Repr

namespace Resize

/-- The choice for a segment of `old` bytes between `before` and `after` bytes of the chunk. -/
def choose (c : Chunk) (before after old new : Nat) : Resize :=
  if new = old then .keep
  else if new < old then if before + new < after then .shiftHead else .shiftTail
  else if new - old ≤ c.spaceHead ∧ (c.spaceTail < new - old ∨ before < after) then .shiftHead
  else if new - old ≤ c.spaceTail then .shiftTail
  else if before = 0 ∧ after = 0 then .reallocate
  else if before < after then .splitHead
  else .splitTail

/-- A chunk is split in two. -/
def isSplit : Resize → Bool
  | .splitHead | .splitTail => true
  | _ => false

end Resize

/-- A chunk cut at a segment. -/
structure Segment where
  before : Bytes
  middle : Bytes
  after : Bytes
  deriving DecidableEq, Repr

/-- Cut the chunk at the `old` bytes from `offset` on. -/
def Chunk.cut (c : Chunk) (offset old : Nat) : Except Fault Segment :=
  if c.head ≤ offset ∧ offset + old ≤ c.tail then
    let start := offset - c.head
    .ok ⟨c.live.take start, (c.live.drop start).take old, c.live.drop (start + old)⟩
  else .error .outOfBounds

/-- The chunks that take the place of chunk `c` when its segment at the cursor is resized, and the
cursor at the segment. Records in front of the segment stay in front, and a record in the segment
goes where the segment goes. -/
def Resize.apply (resize : Resize) (chunkSize : Nat) (c : Chunk) (s : Segment) (cursor : Cursor)
    (new : Nat) : List Chunk × Cursor :=
  let old := s.middle.length
  let middle := s.middle.resize new
  match resize with
  | .keep => ([c], cursor)
  | .shiftHead =>
    ([{ c with head := c.head + old - new, live := s.before ++ middle ++ s.after }],
      { cursor with offset := cursor.offset + old - new })
  | .shiftTail => ([{ c with live := s.before ++ middle ++ s.after }], cursor)
  | .reallocate =>
    ([{ c with capacity := max chunkSize new, head := 0, live := middle }],
      { cursor with offset := 0 })
  | .splitHead =>
    let capacity := max chunkSize (s.before.length + new)
    let head := capacity - (s.before.length + new)
    let moved := cursor.innerIndex + if old = 0 then 0 else 1
    ([⟨capacity, head, s.before ++ middle, moved⟩,
        { c with
          head := cursor.offset + old
          live := s.after
          numRecords := c.numRecords - moved }],
      { cursor with offset := head + s.before.length })
  | .splitTail =>
    let moved := c.numRecords - cursor.innerIndex
    ([{ c with live := s.before, numRecords := c.numRecords - moved },
        ⟨max chunkSize (new + s.after.length), 0, middle ++ s.after, moved⟩],
      { cursor with chunkIndex := cursor.chunkIndex + 1, innerIndex := 0, offset := 0 })

/-- Give the segment of `old` bytes at the cursor the size `new`. -/
def resizeSegment (t : Table) (cursor : Cursor) (old new : Nat) :
    Except Fault (Table × Cursor) := do
  let c ← t.chunk cursor.chunkIndex
  let s ← c.cut cursor.offset old
  let resize := Resize.choose c s.before.length s.after.length old new
  let (chunks, moved) := resize.apply t.config.chunkSize c s cursor new
  let front := t.chunks.take cursor.chunkIndex
  let back := t.chunks.drop (cursor.chunkIndex + 1)
  return ({ t with chunks := front ++ chunks ++ back }, moved)

/-- Whether the chunk at the cursor is split when its segment of `old` bytes gets the size `new`. -/
def splitsSegment (t : Table) (cursor : Cursor) (old new : Nat) : Except Fault Bool := do
  let c ← t.chunk cursor.chunkIndex
  let s ← c.cut cursor.offset old
  return (Resize.choose c s.before.length s.after.length old new).isSplit

/-! ### Room for a new record -/

/-- The position behind the last record of a chunk. -/
def Cursor.behind (cursor : Cursor) (chunkIndex : Nat) (c : Chunk) : Cursor :=
  { cursor with chunkIndex, innerIndex := c.numRecords, offset := c.tail }

/-- Where a record of `size` bytes in front of the cursor goes. The end of the table is the end of
its last chunk. At the front of a chunk without room for it in front, it goes to the end of the
chunk before, if there is room. -/
def placeFor (t : Table) (cursor : Cursor) (size : Nat) : Except Fault Cursor := do
  if t.chunks.length ≤ cursor.chunkIndex then
    let last := t.chunks.length - 1
    return cursor.behind last (← t.chunk last)
  if cursor.innerIndex = 0 ∧ 0 < cursor.chunkIndex then
    let previous ← t.chunk (cursor.chunkIndex - 1)
    if (← t.chunk cursor.chunkIndex).spaceHead < size ∧ size ≤ previous.spaceTail then
      return cursor.behind (cursor.chunkIndex - 1) previous
  return cursor

/-- Make `size` zero bytes in front of the cursor, which ends up at them. An empty table gets its
first chunk. -/
def makeRoom (t : Table) (cursor : Cursor) (size : Nat) : Except Fault (Table × Cursor) := do
  if t.chunks.isEmpty then
    let t := { t with chunks := [.empty (max t.config.chunkSize size)] }
    t.resizeSegment { cursor with chunkIndex := 0, innerIndex := 0, offset := 0 } 0 size
  else
    t.resizeSegment (← t.placeFor cursor size) 0 size

end RecordStore.Table
