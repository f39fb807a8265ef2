import Mathlib
import RecordStore.Proofs.Session.Reservation
import RecordStore.Proofs.Table.Segment

/-!
# The segments that requests resize

An insertion makes room in an empty gap, a removal takes the room of a record away, and replacing a
field may make a record grow. To adopt other types is to append the rows one after the other. Every
resizing that a request calls for is at a segment of a table in order, which it finds in a chunk
that is within its bounds.
-/

namespace RecordStore

open Table (Block Cursor Resizing Seated)
open Table.Block (contents)

variable {types : List ValueType} {s : Session} {blocks : List (Block types)} {request : Request}
  {z : Resizing}

/-- The resizings that a request calls for. -/
inductive Session.Resizes (s : Session) : Request → Resizing → Prop
  | insert {c : Cursor} {values : List Value} {z : Resizing}
      (hposition : s.table.isPosition c = true)
      (h : s.table.roomFor c (s.table.reserved values) = .ok z) : Resizes s (.insert c values) z
  | push {values : List Value} {z : Resizing}
      (h : s.table.roomFor s.table.endCursor (s.table.reserved values) = .ok z) :
      Resizes s (.push values) z
  | remove {c : Cursor} {record : Bytes} (hvalid : s.table.isValid c = true)
      (h : s.table.record c = .ok record) : Resizes s (.remove c) ⟨s.table, c, record.length, 0⟩
  | setField {c : Cursor} {column : Nat} {value : Value} {type : ValueType} {z : Resizing}
      (hvalid : s.table.isValid c = true) (htype : s.table.schema.type? column = some type)
      (h : s.table.fieldRoom c column (Field.encode type (value.convertTo type)) = .ok z) :
      Resizes s (.setField c column value) z
  | configure {schema : Schema} {earlier later : List (List Value)} {row : List Value} {t : Table}
      {z : Resizing} (hdiffers : s.table.schema.types ≠ schema.types)
      (hkept : s.table.schema.types.length = schema.types.length)
      (hrows : (do s.table.truncatedRows schema.types (← s.table.rows.cursors)) =
        .ok (earlier ++ row :: later))
      (hpushed : (s.table.emptied schema).pushAll earlier = .ok t)
      (h : t.roomFor t.endCursor (t.reserved row) = .ok z) : Resizes s (.configure schema) z

/-- The chunks are within their bounds, and the segment is there. -/
structure Table.Resizing.IsSound (z : Resizing) : Prop where
  within : ∀ k ∈ z.table.chunks, k.tail ≤ k.capacity
  exists_cut : ∃ k seg, z.table.chunk z.cursor.chunkIndex = .ok k ∧
    k.cut z.cursor.offset z.old = .ok seg

namespace Table

lemma Opening.isSound (o : Opening types) (c : Cursor) {t : Table} (ht : t.chunks = o.chunks)
    (new : Nat) : Resizing.IsSound ⟨t, o.seat c, o.middle.length, new⟩ := by
  have hblocks : ∀ blocks : List (Block types), ∀ k ∈ blocks.map Block.chunk,
      k.tail ≤ k.capacity := by
    intro blocks k hk
    obtain ⟨b, -, rfl⟩ := List.mem_map.mp hk
    exact b.room
  refine ⟨?_, o.chunk, o.segment, o.chunk_seat c ht, o.cut_chunk c⟩
  change ∀ k ∈ t.chunks, k.tail ≤ k.capacity
  rw [ht]
  intro k hk
  rcases List.mem_append.mp hk with hk | hk
  · exact hblocks _ k hk
  rcases List.mem_cons.mp hk with rfl | hk
  · exact o.chunk_tail.trans_le o.room
  · exact hblocks _ k hk

/-- A segment of a table in order is there. -/
lemma AtSegment.isSound {t : Table} {cursor : Cursor} {segment : Bytes}
    (h : t.AtSegment cursor segment) (new : Nat) :
    Resizing.IsSound ⟨t, cursor, segment.length, new⟩ := by
  obtain ⟨o, hchunks, hseat, rfl, -⟩ := h.exists_opening
  rw [← hseat]
  exact o.isSound cursor hchunks new

end Table

namespace Session.Sound

/-- A cursor that was handed out and has a row is at a record. -/
lemma exists_record_of_isValid (h : s.Sound blocks) {c : Cursor} (hc : c ∈ s.cursors)
    (hvalid : s.table.isValid c = true) :
    Seated blocks c ∧ ∃ r, (contents blocks)[c.index]? = some r := by
  obtain ⟨-, hseated, hlt⟩ := (h.holds.isValid_iff (h.seated c hc)).mp hvalid
  exact ⟨hseated, _, List.getElem?_eq_getElem hlt⟩

/-- While the rows are appended under other types, the table stays in order. -/
lemma exists_holds_of_pushAll (h : s.Sound blocks) {schema : Schema}
    {earlier later : List (List Value)} {t : Table}
    (hrows : (do s.table.truncatedRows schema.types (← s.table.rows.cursors)) =
      .ok (earlier ++ later))
    (hpushed : (s.table.emptied schema).pushAll earlier = .ok t) :
    ∃ blocks' : List (Block schema.types), t.Holds blocks' := by
  rw [h.holds.truncatedRows_eq] at hrows
  obtain ⟨rows, hvalues, hrows⟩ := exists_of_map_ok hrows
  rw [h.holds.eq_of_values hvalues, List.map_map] at hrows
  have hproper : ∀ row ∈ earlier, ∀ v ∈ row, v.Proper := by
    intro row hrow
    have hmem : row ∈ earlier ++ later := List.mem_append_left _ hrow
    rw [← hrows] at hmem
    obtain ⟨r, -, rfl⟩ := List.mem_map.mp hmem
    exact Table.proper_truncateRow schema.types r.proper_values
  obtain ⟨-, blocks', -, hholds, -⟩ :=
    ((Table.holds_emptied s.table schema).pushAll_yields hproper).post_of_ok hpushed
  exact ⟨blocks', hholds⟩

/-- Every resizing that a request calls for is at a segment: at a gap or at a record. -/
theorem atSegment_of_resizes (h : s.Sound blocks) (hadmits : s.Admits request)
    (hz : s.Resizes request z) :
    ∃ segment : Bytes, segment.length = z.old ∧ z.table.AtSegment z.cursor segment := by
  cases hz with
  | insert hposition hroom =>
    obtain ⟨-, hseated⟩ := (h.holds.isPosition_iff (h.seated _ hadmits.1)).mp hposition
    obtain ⟨hold, hat⟩ := h.holds.atSegment_of_roomFor hseated hroom
    exact ⟨[], hold.symm, hat⟩
  | push hroom =>
    obtain ⟨hold, hat⟩ := h.holds.atSegment_of_roomFor h.holds.seated_endCursor hroom
    exact ⟨[], hold.symm, hat⟩
  | remove hvalid hrun =>
    obtain ⟨hseated, r, hr⟩ := h.exists_record_of_isValid hadmits hvalid
    obtain rfl := Except.ok.inj (hrun.symm.trans (h.holds.record_eq hseated hr))
    exact ⟨r.bytes, rfl, h.holds.atSegment_of_record hseated hr⟩
  | setField hvalid htype hroom =>
    obtain ⟨hseated, r, hr⟩ := h.exists_record_of_isValid hadmits.1 hvalid
    rw [h.holds.type?_eq] at htype
    obtain ⟨old, hold, -⟩ := r.exists_field htype
    have hlegible := h.holds.legible_of_fieldRoom hseated hr htype hroom
    obtain rfl := Except.ok.inj
      (hroom.symm.trans (h.holds.fieldRoom_eq hseated hr hlegible htype hold _))
    exact ⟨r.bytes, r.length_bytes, h.holds.atSegment_of_record hseated hr⟩
  | configure hdiffers hkept hrows hpushed hroom =>
    obtain ⟨blocks', hholds⟩ := h.exists_holds_of_pushAll hrows hpushed
    obtain ⟨hold, hat⟩ := hholds.atSegment_of_roomFor hholds.seated_endCursor hroom
    exact ⟨[], hold.symm, hat⟩

/-- Every resizing that a request calls for finds its segment. -/
theorem isSound_of_resizes (h : s.Sound blocks) (hadmits : s.Admits request)
    (hz : s.Resizes request z) : z.IsSound := by
  obtain ⟨segment, hold, hat⟩ := h.atSegment_of_resizes hadmits hz
  have hsound := hat.isSound z.new
  rwa [hold] at hsound

end Session.Sound

end RecordStore
