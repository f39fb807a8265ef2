import RecordStore.Bytes.Slice
import RecordStore.Table.Resize

/-!
Chunks as they lie in memory: a buffer whose records take the bytes from `head` to `tail`. Records
are moved by copying bytes within the buffer, and what they leave behind outside of these bounds is
not cleared. A table sees of a buffer only its bounds and what is between them.
-/

namespace RecordStore.Table

structure Buffer where
  data : Bytes
  /-- Where the live bytes start. -/
  head : Nat
  /-- Where the live bytes end. -/
  tail : Nat
  numRecords : Nat
  head_le : head ≤ tail
  tail_le : tail ≤ data.length

namespace Buffer

def live (b : Buffer) : Bytes := b.data.slice b.head b.tail

/-- The chunk that a table sees. -/
def chunk (b : Buffer) : Chunk := ⟨b.data.length, b.head, b.live, b.numRecords⟩

/-- Free bytes in front of the records. -/
def spaceHead (b : Buffer) : Nat := b.head

/-- Free bytes behind the records. -/
def spaceTail (b : Buffer) : Nat := b.data.length - b.tail

/-- A buffer of zeros without records. -/
def withCapacity (capacity : Nat) : Buffer where
  data := .zeros capacity
  head := 0
  tail := 0
  numRecords := 0
  head_le := Nat.le_refl 0
  tail_le := Nat.zero_le _

/-! ### Writing within the bounds -/

/-- Write over live bytes. -/
def store (b : Buffer) (offset : Nat) (patch : Bytes) : Except Fault Buffer :=
  if b.head ≤ offset ∧ offset + patch.length ≤ b.tail then
    .ok { b with
      data := b.data.overwrite offset patch
      tail_le := Nat.le_trans b.tail_le (Bytes.length_le_overwrite _ _ _) }
  else .error .outOfBounds

/-- Write pieces one behind the other. -/
def storeAll (b : Buffer) (offset : Nat) : List Bytes → Except Fault Buffer
  | [] => .ok b
  | piece :: pieces => do (← b.store offset piece).storeAll (offset + piece.length) pieces

/-- Copy live bytes over live bytes. -/
def copyWithin (b : Buffer) (start stop dest : Nat) : Except Fault Buffer :=
  if b.head ≤ start ∧ start ≤ stop ∧ stop ≤ b.tail then b.store dest (b.data.slice start stop)
  else .error .outOfBounds

/-- The bytes up to `stop` behind a stretch of `old` bytes at `start` move along when this gets the
size `new`, and what they leave behind is cleared. -/
def shift (b : Buffer) (start old new stop : Nat) : Except Fault Buffer := do
  let newStop := stop - old + new
  let b ← b.copyWithin (start + old) stop (start + new)
  if newStop < stop then b.store newStop (.zeros (stop - newStop)) else .ok b

/-- Give the record at `base` its header and another field at `start` in place of one of `old`
bytes. The fields behind it up to `dataEnd` move along. -/
def replaceField (b : Buffer) (base : Nat) (header : Bytes) (start old dataEnd : Nat)
    (field : Bytes) : Except Fault Buffer := do
  let b ← b.store base header
  let b ← b.shift (base + start) old field.length (base + dataEnd)
  b.store (base + start) field

/-- Append a record, for which there is room. -/
def push (b : Buffer) (record : Bytes) (room : record.length ≤ b.spaceTail) : Buffer where
  data := b.data.overwrite b.tail record
  head := b.head
  tail := b.tail + record.length
  numRecords := b.numRecords + 1
  head_le := Nat.le_trans b.head_le (Nat.le_add_right _ _)
  tail_le := by
    have htail := b.tail_le
    have hlength := Bytes.length_le_overwrite b.data b.tail record
    rw [spaceTail] at room
    omega

/-! ### Resizing a segment -/

/-- A stretch of the live bytes. -/
structure Span (b : Buffer) where
  start : Nat
  size : Nat
  head_le : b.head ≤ start
  stop_le : start + size ≤ b.tail

/-- The `size` bytes from `start` on, if they are live. -/
def span (b : Buffer) (start size : Nat) : Except Fault b.Span :=
  if h : b.head ≤ start ∧ start + size ≤ b.tail then .ok ⟨start, size, h.1, h.2⟩
  else .error .outOfBounds

variable {b : Buffer}

namespace Span

def stop (s : b.Span) : Nat := s.start + s.size

/-- How many live bytes are in front. -/
def before (s : b.Span) : Nat := s.start - b.head

/-- How many live bytes are behind. -/
def after (s : b.Span) : Nat := b.tail - s.stop

/-- The live bytes, cut at the stretch. -/
def segment (s : b.Span) : Segment where
  before := b.data.slice b.head s.start
  middle := b.data.slice s.start s.stop
  after := b.data.slice s.stop b.tail

/-- The bytes in front move back, with what the segment keeps. -/
def shrinkHead (s : b.Span) (new : Nat) : Buffer where
  data := b.data.copyWithin b.head (s.start + new) (b.head + (s.size - new))
  head := b.head + (s.size - new)
  tail := b.tail
  numRecords := b.numRecords
  head_le := by
    have hhead := s.head_le
    have hstop := s.stop_le
    omega
  tail_le := Nat.le_trans b.tail_le (Bytes.length_le_overwrite _ _ _)

/-- The bytes behind move forward. -/
def shrinkTail (s : b.Span) (new : Nat) : Buffer where
  data := b.data.copyWithin s.stop b.tail (s.start + new)
  head := b.head
  tail := b.tail - (s.size - new)
  numRecords := b.numRecords
  head_le := by
    have hhead := s.head_le
    have hstop := s.stop_le
    omega
  tail_le :=
    Nat.le_trans (Nat.sub_le _ _) (Nat.le_trans b.tail_le (Bytes.length_le_overwrite _ _ _))

/-- The bytes in front move forward, with the segment, and the room behind it is cleared. -/
def growHead (s : b.Span) (new : Nat) : Buffer :=
  let delta := new - s.size
  { data := (b.data.copyWithin b.head s.stop (b.head - delta)).overwrite (s.stop - delta)
      (.zeros delta)
    head := b.head - delta
    tail := b.tail
    numRecords := b.numRecords
    head_le := Nat.le_trans (Nat.sub_le _ _) b.head_le
    tail_le := Nat.le_trans b.tail_le
      (Nat.le_trans (Bytes.length_le_overwrite _ _ _) (Bytes.length_le_overwrite _ _ _)) }

/-- The bytes behind move back, and the room in front of them is cleared. -/
def growTail (s : b.Span) (new : Nat) (room : new - s.size ≤ b.spaceTail) : Buffer :=
  let delta := new - s.size
  { data := (b.data.copyWithin s.stop b.tail (s.start + new)).overwrite s.stop (.zeros delta)
    head := b.head
    tail := b.tail + delta
    numRecords := b.numRecords
    head_le := Nat.le_trans b.head_le (Nat.le_add_right _ _)
    tail_le := by
      have htail := b.tail_le
      have hcopied := Bytes.length_le_overwrite b.data (s.start + new) (b.data.slice s.stop b.tail)
      have hcleared := Bytes.length_le_overwrite (b.data.copyWithin s.stop b.tail (s.start + new))
        s.stop (.zeros delta)
      rw [spaceTail] at room
      rw [Bytes.copyWithin] at hcleared ⊢
      omega }

/-- The segment, which is all there is, moves to a new buffer. -/
def reallocate (s : b.Span) (chunkSize new : Nat) : Buffer where
  data := (Bytes.zeros (max chunkSize new)).overwrite 0 (b.data.slice s.start s.stop)
  head := 0
  tail := new
  numRecords := b.numRecords
  head_le := Nat.zero_le _
  tail_le := by
    have hlength := Bytes.length_le_overwrite (.zeros (max chunkSize new)) 0
      (b.data.slice s.start s.stop)
    rw [Bytes.length_zeros] at hlength
    omega

/-- The bytes in front move to the end of a new buffer, with the segment, which is cleared where it
grows. Of the records `moved` are among them. -/
def splitHead (s : b.Span) (chunkSize new moved : Nat) : Buffer × Buffer :=
  let capacity := max chunkSize (s.before + new)
  let head := capacity - (s.before + new)
  ({ data := (Bytes.zeros capacity).overwrite head (b.data.slice b.head s.stop)
     head := head
     tail := capacity
     numRecords := moved
     head_le := Nat.sub_le _ _
     tail_le := Nat.le_trans (Nat.le_of_eq (Bytes.length_zeros _).symm)
      (Bytes.length_le_overwrite _ _ _) },
    { b with
      head := s.stop
      numRecords := b.numRecords - moved
      head_le := s.stop_le })

/-- The bytes behind move to a new buffer, with the segment, which is cleared where it grows. Of the
records `moved` are among them. -/
def splitTail (s : b.Span) (chunkSize new moved : Nat) : Buffer × Buffer :=
  ({ b with
      tail := s.start
      numRecords := b.numRecords - moved
      head_le := s.head_le
      tail_le := Nat.le_trans (Nat.le_add_right _ _) (Nat.le_trans s.stop_le b.tail_le) },
    { data := ((Bytes.zeros (max chunkSize (new + s.after))).overwrite 0
        (b.data.slice s.start s.stop)).overwrite new (b.data.slice s.stop b.tail)
      head := 0
      tail := new + s.after
      numRecords := moved
      head_le := Nat.zero_le _
      tail_le := by
        have hsegment := Bytes.length_le_overwrite (.zeros (max chunkSize (new + s.after))) 0
          (b.data.slice s.start s.stop)
        have hafter := Bytes.length_le_overwrite
          ((Bytes.zeros (max chunkSize (new + s.after))).overwrite 0 (b.data.slice s.start s.stop))
          new (b.data.slice s.stop b.tail)
        rw [Bytes.length_zeros] at hsegment
        omega })

/-- The buffers that take the place of one when a segment of it at the cursor is resized, and the
cursor at the segment. -/
def resize (s : b.Span) (chunkSize : Nat) (cursor : Cursor) (new : Nat) : List Buffer × Cursor :=
  if new ≤ s.size then
    let delta := s.size - new
    if delta = 0 then ([b], cursor)
    else if s.before + new < s.after then
      ([s.shrinkHead new], { cursor with offset := cursor.offset + delta })
    else ([s.shrinkTail new], cursor)
  else
    let delta := new - s.size
    if delta ≤ b.spaceHead ∧ (¬ delta ≤ b.spaceTail ∨ s.before < s.after) then
      ([s.growHead new], { cursor with offset := cursor.offset - delta })
    else if room : delta ≤ b.spaceTail then ([s.growTail new room], cursor)
    else if s.before = 0 ∧ s.after = 0 then
      ([s.reallocate chunkSize new], { cursor with offset := 0 })
    else if s.before < s.after then
      let (fresh, rest) :=
        s.splitHead chunkSize new (cursor.innerIndex + if s.size = 0 then 0 else 1)
      ([fresh, rest], { cursor with offset := fresh.head + s.before })
    else
      let (rest, fresh) := s.splitTail chunkSize new (b.numRecords - cursor.innerIndex)
      ([rest, fresh],
        { cursor with chunkIndex := cursor.chunkIndex + 1, innerIndex := 0, offset := 0 })

end Span

/-! ### Packing -/

/-- The buffers for the records, of which `current` takes the first ones. -/
def packFrom (chunkSize : Nat) (current : Buffer) : List Bytes → List Buffer
  | [] => if current.numRecords = 0 then [] else [current]
  | record :: records =>
    if h : current.spaceTail < record.length then
      let next := (withCapacity (max chunkSize record.length)).push record (by
        rw [spaceTail, withCapacity, Bytes.length_zeros]
        exact Nat.le_max_right _ _)
      if current.numRecords = 0 then packFrom chunkSize next records
      else current :: packFrom chunkSize next records
    else packFrom chunkSize (current.push record (Nat.not_lt.mp h)) records

/-- The buffers for the records. -/
def pack (chunkSize : Nat) (records : List Bytes) : List Buffer :=
  packFrom chunkSize (withCapacity chunkSize) records

end Buffer

end RecordStore.Table
