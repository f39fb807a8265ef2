import RecordStore.Table.Basic

/-!
Walking over a table: step by step, by whole chunks, and row by row.
-/

namespace RecordStore.Table

/-! ### Cursors -/

/-- The position behind the record at the cursor, if there is a record. -/
def advance? (t : Table) (c : Cursor) : Except Fault (Option Cursor) := do
  if !t.isValid c then return none
  let chunk ← t.chunk c.chunkIndex
  let record ← chunk.record c.offset
  let next := { c with
    index := c.index + 1
    innerIndex := c.innerIndex + 1
    offset := c.offset + record.length }
  if next.offset < chunk.tail then return some next
  if next.innerIndex ≠ chunk.numRecords then throw (.chunkMiscount c.chunkIndex)
  return some (t.seatAt next (c.chunkIndex + 1))

/-- Up to `n` steps one by one: how many there were and where they led. -/
def advanceSteps (t : Table) : Nat → Cursor → Except Fault (Nat × Cursor)
  | 0, c => .ok (0, c)
  | n + 1, c => do
    match ← t.advance? c with
    | none => return (0, c)
    | some next =>
      let (taken, last) ← t.advanceSteps n next
      return (taken + 1, last)

/-- Up to `n` steps: how many there were and where they led. Whole chunks are skipped by their
counts, and only the last one is walked. -/
def advanceBy (t : Table) (n : Nat) (c : Cursor) : Except Fault (Nat × Cursor) :=
  if n = 0 ∨ !t.isValid c then .ok (0, c)
  else
    match _h : t.chunks[c.chunkIndex]? with
    | none => .error .outOfBounds
    | some chunk =>
      let left := chunk.numRecords - c.innerIndex
      if left ≤ n then do
        let next := t.seatAt { c with index := c.index + left } (c.chunkIndex + 1)
        let (taken, last) ← t.advanceBy (n - left) next
        return (left + taken, last)
      else t.advanceSteps n c
termination_by t.chunks.length - c.chunkIndex
decreasing_by
  have := (List.getElem?_eq_some_iff.mp _h).1
  simp only [seatAt]
  omega

/-- The position of record `index`, or the end position if there are not as many. -/
def cursorAt (t : Table) (index : Nat) : Except Fault Cursor :=
  if t.numRecords ≤ index then .ok t.endCursor
  else Prod.snd <$> t.advanceBy index t.startCursor

/-! ### Cells -/

/-- The record at the cursor, slack included. -/
def record (t : Table) (c : Cursor) : Except Fault Bytes := do
  (← t.chunk c.chunkIndex).record c.offset

/-- The value in a column of the record at the cursor; null if there is no such record or column. -/
def cell (t : Table) (c : Cursor) (column : Nat) : Except Fault Value :=
  if !t.isValid c then .ok .plainNull
  else
    match t.schema.type? column with
    | none => .ok .plainNull
    | some type => do
      let record ← t.record c
      let offset ← Record.fieldOffset t.schema.types record column
      match Field.decode? type (record.drop offset) with
      | some v => return v
      | none => throw (.corruptField type)

/-- The values in all columns of the record at the cursor. -/
def cells (t : Table) (c : Cursor) : Except Fault (List Value) :=
  (List.range t.schema.size).mapM (t.cell c)

/-! ### Rows -/

/-- The rows of a table that are still to come. -/
structure Rows where
  table : Table
  cursor : Cursor

def rows (t : Table) : Rows := ⟨t, t.startCursor⟩

namespace Rows

/-- How many rows are still to come. -/
def remaining (r : Rows) : Nat := r.table.numRecords - r.cursor.index

/-- The position of the next row, and the rows after it. -/
def next? (r : Rows) : Except Fault (Option (Cursor × Rows)) := do
  if !r.table.isValid r.cursor then return none
  match ← r.table.advance? r.cursor with
  | none => return none
  | some next => return some (r.cursor, { r with cursor := next })

/-- The positions of the next rows, up to `n`. -/
def take : Nat → Rows → Except Fault (List Cursor)
  | 0, _ => .ok []
  | n + 1, r => do
    match ← r.next? with
    | none => return []
    | some (c, r) => return c :: (← take n r)

/-- The positions of all rows. -/
def cursors (r : Rows) : Except Fault (List Cursor) := r.take r.remaining

end Rows

/-- The values of all rows, in order. -/
def values (t : Table) : Except Fault (List (List Value)) := do
  (← t.rows.cursors).mapM t.cells

end RecordStore.Table
