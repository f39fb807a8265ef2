import Mathlib
import RecordStore.Proofs.Table.Room

/-!
# One segment and nothing else

A segment is what a cursor is at, between whole records: a record, or nothing where a record is to
be put. When it gets another size, its chunk may give way to two, and its bytes and those around it
may move, but in the live bytes of the table nothing changes outside of the segment. Nothing is
asked of the records here but that each states its own size.
-/

namespace RecordStore.Table

open Record
open Block (contents)

variable {types : List ValueType} {t t' : Table} {cursor : Cursor} {segment : Bytes}

/-! ### Chunks in order -/

/-- The chunk is within its capacity and consists of as many whole records as it counts, at least
one. -/
structure Chunk.InOrder (k : Chunk) : Prop where
  within : k.tail ≤ k.capacity
  occupied : 0 < k.numRecords
  exists_records : ∃ records, k.records = .ok records ∧ records.length = k.numRecords

lemma Block.inOrder_chunk (b : Block types) : b.chunk.InOrder where
  within := b.room
  occupied := b.length_records_pos
  exists_records := ⟨_, b.records_chunk, List.length_map _⟩

lemma Block.inOrder_of_mem_map {blocks : List (Block types)} {k : Chunk}
    (hk : k ∈ blocks.map Block.chunk) : k.InOrder := by
  obtain ⟨b, -, rfl⟩ := List.mem_map.mp hk
  exact b.inOrder_chunk

/-- A chunk in order is the chunk of a block of records without columns. -/
lemma Chunk.InOrder.exists_block {k : Chunk} (h : k.InOrder) : ∃ b : Block [], b.chunk = k := by
  obtain ⟨records, hrecords, hcount⟩ := h.exists_records
  obtain ⟨rs, rfl, hlive⟩ := Stored.exists_of_split hrecords
  rw [List.length_map] at hcount
  refine ⟨⟨k.capacity, k.head, rs, ?_, ?_⟩, ?_⟩
  · exact List.ne_nil_of_length_pos (hcount ▸ h.occupied)
  · rw [hlive]
    exact h.within
  · exact (Chunk.mk.injEq ..).mpr ⟨rfl, rfl, hlive, hcount⟩

lemma exists_blocks {chunks : List Chunk} (h : ∀ k ∈ chunks, k.InOrder) :
    ∃ blocks : List (Block []), blocks.map Block.chunk = chunks := by
  induction chunks with
  | nil => exact ⟨[], rfl⟩
  | cons k chunks ih =>
    obtain ⟨hk, hchunks⟩ := List.forall_mem_cons.mp h
    obtain ⟨b, rfl⟩ := hk.exists_block
    obtain ⟨blocks, rfl⟩ := ih hchunks
    exact ⟨b :: blocks, rfl⟩

/-! ### Segments -/

/-- The cursor is at a segment: a whole record between others, or nothing between two records or at
either end of them. All chunks are in order, but for the first chunk of a table that has had none,
which is empty. -/
structure AtSegment (t : Table) (cursor : Cursor) (segment : Bytes) : Prop where
  inOrder : (∀ k ∈ t.chunks, k.InOrder) ∨ ∃ capacity, t.chunks = [.empty capacity]
  exists_records : ∃ k before after, t.chunk cursor.chunkIndex = .ok k ∧
    (k.records = .ok (before ++ segment :: after) ∨
      segment = [] ∧ k.records = .ok (before ++ after)) ∧
    cursor.innerIndex = before.length ∧ cursor.offset = k.head + before.flatten.length

/-- The segment is at the cursor, between whole records of the chunk, which counts it for `counted`
records. -/
structure Chunk.Encloses (k : Chunk) (cursor : Cursor) (segment : Bytes) (counted : Nat) :
    Prop where
  within : k.tail ≤ k.capacity
  exists_cut : ∃ before after front back,
    k.cut cursor.offset segment.length = .ok ⟨before, segment, after⟩ ∧
      split before = .ok front ∧ split after = .ok back ∧ cursor.innerIndex = front.length ∧
      k.numRecords = front.length + counted + back.length

/-- The live bytes of all chunks. -/
def live (t : Table) : Bytes := t.chunks.flatMap Chunk.live

/-- The live bytes in front of the cursor. -/
def liveAhead (t : Table) (cursor : Cursor) : Bytes :=
  (t.chunks.take cursor.chunkIndex).flatMap Chunk.live ++
    ((t.chunks[cursor.chunkIndex]?.map fun k => k.live.take (cursor.offset - k.head)).getD [])

/-- The segment at the cursor has got the size `new`, and nothing else has changed. -/
structure Reshaped (t : Table) (cursor : Cursor) (segment : Bytes) (new : Nat) (t' : Table)
    (cursor' : Cursor) : Prop where
  table_eq : t' = { t with chunks := t'.chunks }
  cursor_eq : cursor' = { cursor with
    chunkIndex := cursor'.chunkIndex
    innerIndex := cursor'.innerIndex
    offset := cursor'.offset }
  /-- Only the chunk at the cursor gives way to others. -/
  chunks_eq : ∃ changed, t'.chunks =
    t.chunks.take cursor.chunkIndex ++ changed ++ t.chunks.drop (cursor.chunkIndex + 1)
  /-- The same bytes are around the segment, in front of it and behind it. -/
  live_eq : ∃ behind, t.live = t.liveAhead cursor ++ (segment ++ behind) ∧
    t'.live = t.liveAhead cursor ++ (segment.resize new ++ behind)
  liveAhead_eq : t'.liveAhead cursor' = t.liveAhead cursor
  /-- A record that was in the segment is still counted. -/
  encloses : ∃ k, t'.chunk cursor'.chunkIndex = .ok k ∧
    k.Encloses cursor' (segment.resize new) (if segment.length = 0 then 0 else 1)
  inOrder : ∀ index k, index ≠ cursor'.chunkIndex → t'.chunks[index]? = some k → k.InOrder
  count_eq : (t'.chunks.map Chunk.numRecords).sum = (t.chunks.map Chunk.numRecords).sum

/-! ### Segments of openings -/

namespace Opening

variable (o : Opening types) (c : Cursor)

lemma live_chunks : o.chunks.flatMap Chunk.live =
    o.ahead.flatMap Stored.bytes ++ (o.middle ++ o.behind.flatMap Stored.bytes) := by
  simp only [chunks, chunk, ahead, behind, List.flatMap_append, List.flatMap_cons,
    Block.flatMap_live, List.append_assoc]

lemma liveAhead_seat (ht : t.chunks = o.chunks) :
    t.liveAhead (o.seat c) = o.ahead.flatMap Stored.bytes := by
  have hstart : (o.seat c).offset - o.chunk.head = (o.before.flatMap Stored.bytes).length :=
    Nat.add_sub_cancel_left _ _
  have hindex : (o.seat c).chunkIndex = o.front.length := rfl
  rw [liveAhead, ht, hindex, take_chunks, getElem?_chunks, Block.flatMap_live, ahead,
    List.flatMap_append]
  simp only [Option.map_some, Option.getD_some, hstart]
  simp only [chunk, List.append_assoc, List.take_left]

lemma sum_numRecords : (o.chunks.map Chunk.numRecords).sum =
    o.ahead.length + o.counted + o.behind.length := by
  rw [chunks, List.map_append, List.map_cons, List.sum_append, List.sum_cons, Block.sum_numRecords,
    Block.sum_numRecords]
  simp only [chunk, ahead, behind, List.length_append]
  omega

lemma encloses : o.chunk.Encloses (o.seat c) o.middle o.counted where
  within := o.chunk_tail.trans_le o.room
  exists_cut := by
    refine ⟨_, _, _, _, o.cut_chunk c, Stored.split_flatMap _, Stored.split_flatMap _, ?_, ?_⟩
    · rw [List.length_map]
      rfl
    · rw [List.length_map, List.length_map]
      rfl

/-- All chunks but the open one are those of blocks. -/
lemma inOrder_of_ne {index : Nat} {k : Chunk} (hne : index ≠ o.front.length)
    (hk : o.chunks[index]? = some k) : k.InOrder := by
  rcases Nat.lt_or_gt_of_ne hne with hlt | hgt
  · rw [chunks, List.getElem?_append_left (by rwa [List.length_map])] at hk
    exact Block.inOrder_of_mem_map (List.mem_of_getElem? hk)
  · obtain ⟨n, rfl⟩ := Nat.exists_eq_add_of_lt hgt
    rw [chunks, List.getElem?_append_right (by rw [List.length_map]; omega), List.length_map,
      Nat.add_assoc, Nat.add_sub_cancel_left, List.getElem?_cons_succ] at hk
    exact Block.inOrder_of_mem_map (List.mem_of_getElem? hk)

/-- A way of resizing leaves the chunks around the open one alone and adds a chunk if and only if it
is a split. -/
lemma Becomes.exists_changed {o o' : Opening types} {chunkSize new : Nat} {way : Resize}
    (h : o.Becomes chunkSize new way o') :
    ∃ changed, o'.chunks = o.front.map Block.chunk ++ changed ++ o.back.map Block.chunk ∧
      changed.length = 1 + if way.isSplit then 1 else 0 := by
  cases h with
  | keep | shiftHead | shiftTail | reallocate => exact ⟨[_], List.append_cons _ _ _, rfl⟩
  | splitHead => exact ⟨[_, _], (List.append_assoc _ [_, _] _).symm, rfl⟩
  | splitTail hbefore =>
    obtain ⟨b, hfront⟩ : ∃ b, (o.splitTail chunkSize new hbefore).front = o.front ++ [b] :=
      ⟨_, rfl⟩
    refine ⟨[b.chunk, (o.splitTail chunkSize new hbefore).chunk], ?_, rfl⟩
    rw [chunks, hfront, List.map_append, List.append_assoc, List.append_assoc]
    rfl

/-- In a table that is open at a segment, resizing changes nothing but the segment. -/
theorem reshaped {o' : Opening types} (ht : t.chunks = o.chunks)
    (hcounted : o.counted = if o.middle.length = 0 then 0 else 1) {new : Nat} {way : Resize}
    (h : o.Becomes t.config.chunkSize new way o') :
    t.Reshaped (o.seat c) o.middle new { t with chunks := o'.chunks } (o'.seat c) := by
  have hresized := h.resized
  have hahead : t.liveAhead (o.seat c) = o.ahead.flatMap Stored.bytes := o.liveAhead_seat c ht
  constructor
  case table_eq | cursor_eq => rfl
  case chunks_eq =>
    obtain ⟨changed, hchanged, -⟩ := h.exists_changed
    refine ⟨changed, ?_⟩
    change _ = t.chunks.take o.front.length ++ changed ++ t.chunks.drop (o.front.length + 1)
    rw [ht, take_chunks, drop_chunks, hchanged]
  case live_eq =>
    refine ⟨o.behind.flatMap Stored.bytes, ?_, ?_⟩
    · rw [live, ht, live_chunks, hahead]
    · rw [live, live_chunks, hahead, hresized.middle_eq, hresized.ahead_eq, hresized.behind_eq]
  case liveAhead_eq => rw [o'.liveAhead_seat c rfl, hahead, hresized.ahead_eq]
  case encloses =>
    rw [← hresized.middle_eq, ← hcounted, ← hresized.counted_eq]
    exact ⟨o'.chunk, o'.chunk_seat c rfl, o'.encloses c⟩
  case inOrder => exact fun index k hne hk => o'.inOrder_of_ne hne hk
  case count_eq =>
    rw [ht, sum_numRecords, sum_numRecords, hresized.ahead_eq, hresized.counted_eq,
      hresized.behind_eq]

/-- Whether the open chunk is split depends on the way that is chosen. -/
lemma splitsSegment_eq (ht : t.chunks = o.chunks) (new : Nat) :
    t.splitsSegment (o.seat c) o.middle.length new = .ok (o.way new).isSplit := by
  rw [splitsSegment, o.chunk_seat c ht, ok_bind, cut_chunk]
  rfl

end Opening

/-! ### Segments of tables -/

/-- A table in order can be opened at a record and in a gap between its records. -/
lemma exists_opening_of_inOrder (hchunks : ∀ k ∈ t.chunks, k.InOrder) {k : Chunk}
    {before after : List Bytes} (hk : t.chunk cursor.chunkIndex = .ok k)
    (hrecords : k.records = .ok (before ++ segment :: after) ∨
      segment = [] ∧ k.records = .ok (before ++ after))
    (hinner : cursor.innerIndex = before.length)
    (hoffset : cursor.offset = k.head + before.flatten.length) :
    ∃ o : Opening [], t.chunks = o.chunks ∧ o.seat cursor = cursor ∧ o.middle = segment ∧
      o.counted = if segment.length = 0 then 0 else 1 := by
  obtain ⟨blocks, hblocks⟩ := exists_blocks hchunks
  have hindex := getElem?_of_chunk hk
  rw [← hblocks, List.getElem?_map] at hindex
  obtain ⟨b, hb, rfl⟩ := Option.map_eq_some_iff.mp hindex
  obtain ⟨front, back, rfl, hfront⟩ := exists_around_getElem? hb
  rw [b.records_chunk, Except.ok.injEq, Except.ok.injEq] at hrecords
  rcases hrecords with hrecords | ⟨rfl, hrecords⟩
  · obtain ⟨before, rest, hsplit, rfl, hrest⟩ := List.map_eq_append_iff.mp hrecords
    obtain ⟨r, after, rfl, rfl, rfl⟩ := List.map_eq_cons_iff.mp hrest
    rw [List.length_map] at hinner
    refine ⟨.around front b back before r after hsplit, ?_, ?_, rfl, ?_⟩
    · rw [Opening.chunks_around, hblocks]
    · exact Opening.seat_eq_self _ hfront.symm hinner hoffset
    · rw [if_neg (by rw [r.length_bytes]; exact r.size_pos.ne')]
      rfl
  · obtain ⟨before, after, hsplit, rfl, rfl⟩ := List.map_eq_append_iff.mp hrecords
    rw [List.length_map] at hinner
    refine ⟨.between front b back before after hsplit, ?_, ?_, rfl, rfl⟩
    · rw [Opening.chunks_between, hblocks]
    · exact Opening.seat_eq_self _ hfront.symm hinner hoffset

namespace AtSegment

/-- A table can be opened at each of its segments. -/
theorem exists_opening (h : t.AtSegment cursor segment) :
    ∃ o : Opening [], t.chunks = o.chunks ∧ o.seat cursor = cursor ∧ o.middle = segment ∧
      o.counted = if segment.length = 0 then 0 else 1 := by
  obtain ⟨k, before, after, hk, hrecords, hinner, hoffset⟩ := h.exists_records
  rcases h.inOrder with hchunks | ⟨capacity, hfirst⟩
  · exact exists_opening_of_inOrder hchunks hk hrecords hinner hoffset
  · -- there is no record in the only chunk, so the segment is nothing at its front
    have hindex := getElem?_of_chunk hk
    obtain ⟨hzero, rfl⟩ : cursor.chunkIndex = 0 ∧ k = .empty capacity := by
      rw [hfirst, List.getElem?_singleton] at hindex
      split_ifs at hindex with hzero
      exact ⟨hzero, (Option.some.inj hindex).symm⟩
    have hnone : (Chunk.empty capacity).records = .ok [] :=
      Stored.split_flatMap ([] : List (Stored []))
    rw [hnone, Except.ok.injEq, Except.ok.injEq] at hrecords
    rcases hrecords with hrecords | ⟨rfl, hrecords⟩
    · exact absurd hrecords (by simp)
    · obtain ⟨rfl, rfl⟩ := List.append_eq_nil_iff.mp hrecords.symm
      exact ⟨.first capacity, hfirst, Opening.seat_eq_self _ hzero hinner hoffset, rfl, rfl⟩

/-- Every segment can get every size, and nothing else changes. A chunk is added if and only if one
is split, and never for a segment that gets no larger. -/
theorem reshapes (h : t.AtSegment cursor segment) (new : Nat) :
    ∃ t' cursor' split, t.resizeSegment cursor segment.length new = .ok (t', cursor') ∧
      t.Reshaped cursor segment new t' cursor' ∧
      t.splitsSegment cursor segment.length new = .ok split ∧
      t'.chunks.length = t.chunks.length + (if split then 1 else 0) ∧
      (new ≤ segment.length → split = false) := by
  obtain ⟨o, ht, hseat, rfl, hcounted⟩ := h.exists_opening
  obtain ⟨o', hbecomes, hrun⟩ := o.resizeSegment_becomes cursor ht hcounted new
  have hreshaped := o.reshaped cursor ht hcounted hbecomes
  have hsplit := o.splitsSegment_eq cursor ht new
  obtain ⟨changed, hchanged, hlength⟩ := hbecomes.exists_changed
  rw [hseat] at hrun hreshaped hsplit
  refine ⟨_, _, _, hrun, hreshaped, hsplit, ?_, ?_⟩
  · change o'.chunks.length = _
    rw [hchanged, ht, Opening.chunks]
    simp only [List.length_append, List.length_cons, List.length_map, hlength]
    omega
  · exact fun hle => Resize.isSplit_choose_of_le _ _ _ hle

end AtSegment

/-! ### Segments of sound tables -/

/-- A table that is open at a record or at nothing is at a segment. -/
lemma Opening.atSegment (o : Opening types) (c : Cursor) (ht : t.chunks = o.chunks)
    (hinOrder : (∀ k ∈ t.chunks, k.InOrder) ∨ ∃ capacity, t.chunks = [.empty capacity])
    (hmiddle : o.middle = [] ∨ ∃ r : Stored types, o.middle = r.bytes) :
    t.AtSegment (o.seat c) o.middle where
  inOrder := hinOrder
  exists_records := by
    refine ⟨o.chunk, o.before.map Stored.bytes, o.after.map Stored.bytes, o.chunk_seat c ht, ?_,
      (List.length_map _).symm, rfl⟩
    rcases hmiddle with hnone | ⟨r, hr⟩
    · refine .inr ⟨hnone, ?_⟩
      rw [Chunk.records, chunk, hnone, List.append_nil, ← List.flatMap_append,
        Stored.split_flatMap, List.map_append]
    · refine .inl ?_
      rw [Chunk.records, chunk, hr, List.append_assoc, ← List.flatMap_cons, ← List.flatMap_append,
        Stored.split_flatMap, List.map_append, List.map_cons]

namespace Holds

variable {blocks : List (Block types)} {c : Cursor}

lemma inOrder (h : t.Holds blocks) : ∀ k ∈ t.chunks, k.InOrder := by
  rw [h.chunks_eq]
  exact fun k hk => Block.inOrder_of_mem_map hk

/-- Room for a record is made of a segment of nothing. -/
lemma atSegment_of_roomFor (h : t.Holds blocks) (hc : Seated blocks c) {size : Nat} {z : Resizing}
    (hz : t.roomFor c size = .ok z) : z.old = 0 ∧ z.table.AtSegment z.cursor [] := by
  obtain ⟨o, hroom, hmiddle, -, -, hchunks⟩ := h.roomFor_eq hc size
  obtain rfl := Except.ok.inj (hz.symm.trans hroom)
  have hat := o.atSegment c (t := { t with chunks := o.chunks }) rfl ?_ (.inl hmiddle)
  · rw [hmiddle] at hat
    exact ⟨rfl, hat⟩
  · rcases hchunks with hsame | rfl
    · exact .inl (hsame ▸ h.inOrder)
    · exact .inr ⟨_, rfl⟩

/-- The record of a cursor is a segment. -/
lemma atSegment_of_record (h : t.Holds blocks) (hc : Seated blocks c) {r : Stored types}
    (hr : (contents blocks)[c.index]? = some r) : t.AtSegment c r.bytes := by
  obtain ⟨o, hseat, hchunks, hmiddle, -⟩ := h.exists_around hc hr
  have hat := o.atSegment c hchunks (.inl h.inOrder) (.inr ⟨r, hmiddle⟩)
  rwa [hseat, hmiddle] at hat

end Holds

end RecordStore.Table
