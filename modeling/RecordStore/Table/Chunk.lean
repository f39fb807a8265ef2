import RecordStore.Record.Basic

/-!
Chunks: buffers of a fixed capacity that hold a gapless run of records with free space in front
and behind. The free space is not kept, as nothing ever reads it.
-/

namespace RecordStore.Table

structure Chunk where
  capacity : Nat
  /-- Where the live bytes start. -/
  head : Nat
  live : Bytes
  numRecords : Nat
  deriving DecidableEq, Repr

namespace Chunk

def empty (capacity : Nat) : Chunk := ⟨capacity, 0, [], 0⟩

/-- A chunk filled by its records. -/
def ofRecords (live : Bytes) (numRecords : Nat) : Chunk := ⟨live.length, 0, live, numRecords⟩

/-- Where the live bytes end. -/
def tail (c : Chunk) : Nat := c.head + c.live.length

def used (c : Chunk) : Nat := c.live.length

/-- Free bytes in front of the records. -/
def spaceHead (c : Chunk) : Nat := c.head

/-- Free bytes behind the records. -/
def spaceTail (c : Chunk) : Nat := c.capacity - c.tail

def debugText (c : Chunk) : String :=
  "Chunk \x7b " ++ s!"capacity: {c.capacity}, head: {c.head}, tail: {c.tail}, " ++
    s!"num_records: {c.numRecords}" ++ " \x7d"

/-- The live bytes from `offset` on. -/
def liveFrom (c : Chunk) (offset : Nat) : Except Fault Bytes :=
  if c.head ≤ offset ∧ offset ≤ c.tail then .ok (c.live.drop (offset - c.head))
  else .error .outOfBounds

/-- The record at `offset`, slack included. -/
def record (c : Chunk) (offset : Nat) : Except Fault Bytes := do
  match Record.first? (← c.liveFrom offset) with
  | some (record, _) => return record
  | none => throw .outOfBounds

/-- The records in order, slack included. -/
def records (c : Chunk) : Except Fault (List Bytes) := Record.split c.live

/-- Replace live bytes from `offset` on. -/
def overwrite (c : Chunk) (offset : Nat) (patch : Bytes) : Except Fault Chunk :=
  if c.head ≤ offset ∧ offset + patch.length ≤ c.tail then
    .ok { c with live := c.live.overwrite (offset - c.head) patch }
  else .error .outOfBounds

/-- The chunk with a record added behind the others. -/
def push (c : Chunk) (record : Bytes) : Chunk :=
  { c with live := c.live ++ record, numRecords := c.numRecords + 1 }

end Chunk

end RecordStore.Table
