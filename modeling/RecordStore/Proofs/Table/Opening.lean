import Mathlib
import RecordStore.Proofs.Table.Layout
import RecordStore.Table.Resize

/-!
# Openings

While a record is made, changed or taken out, one chunk holds a stretch of bytes that is no record.
An opening is a table in this state: whole records in front of the stretch and behind it, in the
chunk and in the blocks around it. Each way of resizing turns an opening into another one with the
same records on both sides.
-/

namespace RecordStore.Table

open Record
open Block (contents)

variable {types : List ValueType}

/-- A segment that shrinks never splits its chunk. -/
lemma Resize.isSplit_choose_of_le (c : Chunk) (before after : Nat) {old new : Nat}
    (h : new ≤ old) : (choose c before after old new).isSplit = false := by
  rcases Nat.eq_or_lt_of_le h with rfl | hlt
  · rw [choose, if_pos rfl]
    rfl
  · rw [choose, if_neg hlt.ne, if_pos hlt]
    split_ifs <;> rfl

/-- Blocks around one chunk in which the `middle` is between whole records. -/
structure Opening (types : List ValueType) where
  front : List (Block types)
  capacity : Nat
  head : Nat
  before : List (Stored types)
  middle : Bytes
  /-- For how many records the chunk counts the middle. -/
  counted : Nat
  after : List (Stored types)
  back : List (Block types)
  room : head + ((before.flatMap Stored.bytes).length + middle.length +
    (after.flatMap Stored.bytes).length) ≤ capacity

namespace Opening

/-- The chunk that is open. -/
def chunk (o : Opening types) : Chunk where
  capacity := o.capacity
  head := o.head
  live := o.before.flatMap Stored.bytes ++ o.middle ++ o.after.flatMap Stored.bytes
  numRecords := o.before.length + o.counted + o.after.length

def chunks (o : Opening types) : List Chunk :=
  o.front.map Block.chunk ++ o.chunk :: o.back.map Block.chunk

/-- All records in front of the opening. -/
def ahead (o : Opening types) : List (Stored types) := contents o.front ++ o.before

/-- All records behind the opening. -/
def behind (o : Opening types) : List (Stored types) := o.after ++ contents o.back

/-- The cursor at the opening. -/
def seat (o : Opening types) (c : Cursor) : Cursor :=
  { c with
    chunkIndex := o.front.length
    innerIndex := o.before.length
    offset := o.head + (o.before.flatMap Stored.bytes).length }

/-- The open chunk, cut at the opening. -/
def segment (o : Opening types) : Segment :=
  ⟨o.before.flatMap Stored.bytes, o.middle, o.after.flatMap Stored.bytes⟩

lemma chunk_tail (o : Opening types) :
    o.chunk.tail = o.head + ((o.before.flatMap Stored.bytes).length + o.middle.length +
      (o.after.flatMap Stored.bytes).length) := by
  simp only [Chunk.tail, chunk, List.length_append]

lemma cut_chunk (o : Opening types) (c : Cursor) :
    o.chunk.cut (o.seat c).offset o.middle.length = .ok o.segment := by
  have hbounds : o.chunk.head ≤ (o.seat c).offset ∧
      (o.seat c).offset + o.middle.length ≤ o.chunk.tail := by
    rw [chunk_tail]
    simp only [chunk, seat]
    omega
  have hstart : (o.seat c).offset - o.chunk.head = (o.before.flatMap Stored.bytes).length :=
    Nat.add_sub_cancel_left _ _
  simp only [Chunk.cut, if_pos hbounds, hstart]
  simp only [chunk, segment, List.append_assoc, List.take_left, List.drop_left, ← List.drop_drop]

lemma getElem?_chunks (o : Opening types) : o.chunks[o.front.length]? = some o.chunk := by
  rw [chunks, List.getElem?_append_right (by rw [List.length_map]), List.length_map, Nat.sub_self]
  rfl

lemma take_chunks (o : Opening types) : o.chunks.take o.front.length = o.front.map Block.chunk := by
  rw [chunks, List.take_left' (List.length_map _)]

lemma drop_chunks (o : Opening types) :
    o.chunks.drop (o.front.length + 1) = o.back.map Block.chunk := by
  rw [chunks, ← List.drop_drop, List.drop_left' (List.length_map _), List.drop_succ_cons,
    List.drop_zero]

/-! ### The same records around another middle -/

/-- The middle has the size `new`, and the records around it are those of before. -/
structure Resized (o : Opening types) (new : Nat) (o' : Opening types) : Prop where
  middle_eq : o'.middle = o.middle.resize new
  counted_eq : o'.counted = o.counted
  ahead_eq : o'.ahead = o.ahead
  behind_eq : o'.behind = o.behind

/-- The bytes in front move, with what the middle keeps. -/
def shiftHead (o : Opening types) (new : Nat) (h : new ≤ o.head + o.middle.length) :
    Opening types where
  front := o.front
  capacity := o.capacity
  head := o.head + o.middle.length - new
  before := o.before
  middle := o.middle.resize new
  counted := o.counted
  after := o.after
  back := o.back
  room := by
    have := o.room
    rw [Bytes.length_resize]
    omega

/-- The bytes behind move. -/
def shiftTail (o : Opening types) (new : Nat)
    (h : o.chunk.tail + new ≤ o.capacity + o.middle.length) : Opening types where
  front := o.front
  capacity := o.capacity
  head := o.head
  before := o.before
  middle := o.middle.resize new
  counted := o.counted
  after := o.after
  back := o.back
  room := by
    rw [chunk_tail] at h
    rw [Bytes.length_resize]
    omega

/-- The middle moves to another buffer. -/
def reallocate (o : Opening types) (chunkSize new : Nat) : Opening types where
  front := o.front
  capacity := max chunkSize new
  head := 0
  before := []
  middle := o.middle.resize new
  counted := o.counted
  after := []
  back := o.back
  room := by
    rw [Bytes.length_resize]
    simp

/-- The bytes in front move to a new chunk, with the middle. -/
def splitHead (o : Opening types) (chunkSize new : Nat) (h : o.after ≠ []) : Opening types where
  front := o.front
  capacity := max chunkSize ((o.before.flatMap Stored.bytes).length + new)
  head := max chunkSize ((o.before.flatMap Stored.bytes).length + new) -
    ((o.before.flatMap Stored.bytes).length + new)
  before := o.before
  middle := o.middle.resize new
  counted := o.counted
  after := []
  back := {
    capacity := o.capacity
    head := o.head + (o.before.flatMap Stored.bytes).length + o.middle.length
    records := o.after
    occupied := h
    room := by
      have := o.room
      omega } :: o.back
  room := by
    rw [Bytes.length_resize, List.flatMap_nil, List.length_nil]
    omega

/-- The bytes behind move to a new chunk, with the middle. -/
def splitTail (o : Opening types) (chunkSize new : Nat) (h : o.before ≠ []) : Opening types where
  front := o.front ++ [{
    capacity := o.capacity
    head := o.head
    records := o.before
    occupied := h
    room := by
      have := o.room
      omega }]
  capacity := max chunkSize (new + (o.after.flatMap Stored.bytes).length)
  head := 0
  before := []
  middle := o.middle.resize new
  counted := o.counted
  after := o.after
  back := o.back
  room := by
    rw [Bytes.length_resize, List.flatMap_nil, List.length_nil]
    omega

/-! ### Each way of resizing -/

/-- What each way of resizing makes of an opening. -/
inductive Becomes (o : Opening types) (chunkSize new : Nat) : Resize → Opening types → Prop
  | keep (h : new = o.middle.length) : Becomes o chunkSize new .keep o
  | shiftHead (h : new ≤ o.head + o.middle.length) :
      Becomes o chunkSize new .shiftHead (o.shiftHead new h)
  | shiftTail (h : o.chunk.tail + new ≤ o.capacity + o.middle.length) :
      Becomes o chunkSize new .shiftTail (o.shiftTail new h)
  | reallocate (hbefore : o.before = []) (hafter : o.after = []) :
      Becomes o chunkSize new .reallocate (o.reallocate chunkSize new)
  | splitHead (h : o.after ≠ []) : Becomes o chunkSize new .splitHead (o.splitHead chunkSize new h)
  | splitTail (h : o.before ≠ []) : Becomes o chunkSize new .splitTail (o.splitTail chunkSize new h)

/-- Whatever way is taken, the middle has the new size, between the records of before. -/
lemma Becomes.resized {o o' : Opening types} {chunkSize new : Nat} {way : Resize}
    (h : o.Becomes chunkSize new way o') : o.Resized new o' := by
  cases h with
  | keep h => exact ⟨by rw [h, Bytes.resize_length], rfl, rfl, rfl⟩
  | shiftHead | shiftTail => exact ⟨rfl, rfl, rfl, rfl⟩
  | reallocate hbefore hafter =>
    refine ⟨rfl, rfl, ?_, ?_⟩
    · rw [ahead, ahead, hbefore]
      rfl
    · rw [behind, behind, hafter]
      rfl
  | splitHead =>
    refine ⟨rfl, rfl, rfl, ?_⟩
    simp only [behind, Opening.splitHead, Block.contents_cons, List.nil_append]
  | splitTail =>
    refine ⟨rfl, rfl, ?_, rfl⟩
    simp [ahead, Opening.splitTail]

/-- What comes out of a way of resizing: the chunks and the cursor of what the opening becomes. -/
def Applies (o : Opening types) (c : Cursor) (chunkSize new : Nat) (way : Resize) : Prop :=
  ∃ o' : Opening types, o.Becomes chunkSize new way o' ∧
    o'.chunks = o.front.map Block.chunk ++
      (way.apply chunkSize o.chunk o.segment (o.seat c) new).1 ++ o.back.map Block.chunk ∧
    (way.apply chunkSize o.chunk o.segment (o.seat c) new).2 = o'.seat c

variable (o : Opening types) (c : Cursor) (chunkSize : Nat) {new : Nat}

lemma apply_keep (h : new = o.middle.length) : o.Applies c chunkSize new .keep := by
  refine ⟨o, .keep h, ?_, rfl⟩
  simp [chunks, Resize.apply]

lemma apply_shiftHead (h : new ≤ o.head + o.middle.length) :
    o.Applies c chunkSize new .shiftHead := by
  refine ⟨_, .shiftHead h, ?_, ?_⟩
  · simp [chunks, Resize.apply, shiftHead, chunk, segment]
  · simp only [Resize.apply, seat, segment, shiftHead, Cursor.mk.injEq, true_and, and_true]
    omega

lemma apply_shiftTail (h : o.chunk.tail + new ≤ o.capacity + o.middle.length) :
    o.Applies c chunkSize new .shiftTail := by
  refine ⟨_, .shiftTail h, ?_, rfl⟩
  simp [chunks, Resize.apply, shiftTail, chunk, segment]

lemma apply_reallocate (hbefore : o.before = []) (hafter : o.after = []) :
    o.Applies c chunkSize new .reallocate := by
  refine ⟨_, .reallocate hbefore hafter, ?_, ?_⟩
  · simp [chunks, Resize.apply, reallocate, chunk, segment, hbefore, hafter]
  · simp [Resize.apply, seat, reallocate, hbefore]

lemma apply_splitHead (hcounted : o.counted = if o.middle.length = 0 then 0 else 1)
    (hafter : o.after ≠ []) : o.Applies c chunkSize new .splitHead := by
  refine ⟨_, .splitHead hafter, ?_, rfl⟩
  have hmoved : ((o.seat c).innerIndex + if o.segment.middle.length = 0 then 0 else 1) =
      o.before.length + o.counted := by
    rw [hcounted]
    rfl
  simp only [Resize.apply, hmoved]
  simp [chunks, splitHead, chunk, segment, Block.chunk, Block.live, seat]

lemma apply_splitTail (hbefore : o.before ≠ []) : o.Applies c chunkSize new .splitTail := by
  refine ⟨_, .splitTail hbefore, ?_, ?_⟩
  · have hmoved : o.before.length + o.counted + o.after.length - o.before.length =
        o.counted + o.after.length := by omega
    have hkept : o.before.length + o.counted + o.after.length - (o.counted + o.after.length) =
        o.before.length := by omega
    simp [chunks, Resize.apply, splitTail, chunk, segment, Block.chunk, Block.live, seat, hmoved,
      hkept]
  · simp [Resize.apply, seat, splitTail]

/-! ### Resizing -/

/-- The way that is chosen for the middle to get the size `new`. -/
def way (o : Opening types) (new : Nat) : Resize :=
  Resize.choose o.chunk o.segment.before.length o.segment.after.length o.middle.length new

/-- Whatever way is chosen, it can be taken. -/
theorem apply_way (hcounted : o.counted = if o.middle.length = 0 then 0 else 1) :
    o.Applies c chunkSize new (o.way new) := by
  have hroom : o.chunk.tail ≤ o.capacity := by
    rw [chunk_tail]
    exact o.room
  have hspace : o.chunk.spaceTail = o.capacity - o.chunk.tail := rfl
  have hhead : o.chunk.spaceHead = o.head := rfl
  have hbefore : o.before = [] → o.segment.before.length = 0 := by
    intro h
    rw [segment, h]
    rfl
  have hafter : o.after = [] → o.segment.after.length = 0 := by
    intro h
    rw [segment, h]
    rfl
  unfold way Resize.choose
  split_ifs with hkeep hless hcheap hside hbehind halone hsplit
  · exact o.apply_keep c chunkSize hkeep
  · exact o.apply_shiftHead c chunkSize (by omega)
  · exact o.apply_shiftTail c chunkSize (by omega)
  · exact o.apply_shiftHead c chunkSize (by omega)
  · exact o.apply_shiftTail c chunkSize (by omega)
  · exact o.apply_reallocate c chunkSize (eq_nil_of_length_flatMap halone.1)
      (eq_nil_of_length_flatMap halone.2)
  · refine o.apply_splitHead c chunkSize hcounted ?_
    intro h
    rw [hafter h] at hsplit
    exact Nat.not_lt_zero _ hsplit
  · refine o.apply_splitTail c chunkSize ?_
    intro h
    have := hbefore h
    omega

lemma chunk_seat {t : Table} (ht : t.chunks = o.chunks) :
    t.chunk (o.seat c).chunkIndex = .ok o.chunk := by
  simp only [Table.chunk, ht, seat, getElem?_chunks]

/-- Resizing the middle of an open table makes of it what the chosen way makes. Nothing but the
chunks and the place of the cursor changes. -/
theorem resizeSegment_becomes {t : Table} (ht : t.chunks = o.chunks)
    (hcounted : o.counted = if o.middle.length = 0 then 0 else 1) (new : Nat) :
    ∃ o' : Opening types, o.Becomes t.config.chunkSize new (o.way new) o' ∧
      t.resizeSegment (o.seat c) o.middle.length new =
        .ok ({ t with chunks := o'.chunks }, o'.seat c) := by
  obtain ⟨o', hbecomes, hchunks, hseat⟩ := @apply_way _ o c t.config.chunkSize new hcounted
  refine ⟨o', hbecomes, ?_⟩
  generalize happly : (o.way new).apply t.config.chunkSize o.chunk o.segment (o.seat c) new = result
    at hchunks hseat
  have hrun : t.resizeSegment (o.seat c) o.middle.length new =
      .ok ({ t with chunks := (t.chunks.take o.front.length ++ result.1 ++
        t.chunks.drop (o.front.length + 1) : List Chunk) }, result.2) := by
    rw [resizeSegment, o.chunk_seat c ht, ← happly]
    change (do let s ← o.chunk.cut (o.seat c).offset o.middle.length; _) = _
    rw [cut_chunk]
    rfl
  rw [hrun, ht, take_chunks, drop_chunks, ← hchunks, hseat]

end Opening

end RecordStore.Table
