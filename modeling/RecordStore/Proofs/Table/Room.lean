import Mathlib
import RecordStore.Proofs.Table.Opening

/-!
# Room in a sound table

A change opens a chunk between two records or at a record, and closes it over a record or over
nothing. Here are these openings, the blocks that are left when one is closed, and the place that
is found for a new record.
-/

namespace RecordStore.Table

open Record
open Block (contents)

variable {types : List ValueType} {t : Table} {blocks : List (Block types)} {c : Cursor}

/-! ### Opening and closing -/

namespace Opening

/-- An empty chunk. -/
def first (capacity : Nat) : Opening types where
  front := []
  capacity := capacity
  head := 0
  before := []
  middle := []
  counted := 0
  after := []
  back := []
  room := Nat.zero_le _

/-- A block opened between two of its records. -/
def between (front : List (Block types)) (b : Block types) (back : List (Block types))
    (before after : List (Stored types)) (h : b.records = before ++ after) : Opening types where
  front := front
  capacity := b.capacity
  head := b.head
  before := before
  middle := []
  counted := 0
  after := after
  back := back
  room := by
    have := b.room
    rw [h, List.flatMap_append, List.length_append] at this
    exact this

lemma chunks_between {front : List (Block types)} {b : Block types} {back : List (Block types)}
    {before after : List (Stored types)} (h : b.records = before ++ after) :
    (between front b back before after h).chunks = (front ++ b :: back).map Block.chunk := by
  simp [chunks, chunk, between, Block.chunk, Block.live, h]

/-- A block opened at one of its records. -/
def around (front : List (Block types)) (b : Block types) (back : List (Block types))
    (before : List (Stored types)) (r : Stored types) (after : List (Stored types))
    (h : b.records = before ++ r :: after) : Opening types where
  front := front
  capacity := b.capacity
  head := b.head
  before := before
  middle := r.bytes
  counted := 1
  after := after
  back := back
  room := by
    have := b.room
    rw [h, List.flatMap_append, List.flatMap_cons, List.length_append, List.length_append] at this
    omega

lemma chunks_around {front : List (Block types)} {b : Block types} {back : List (Block types)}
    {before : List (Stored types)} {r : Stored types} {after : List (Stored types)}
    (h : b.records = before ++ r :: after) :
    (around front b back before r after h).chunks = (front ++ b :: back).map Block.chunk := by
  simp only [chunks, chunk, around, Block.chunk, Block.live, h, List.map_append, List.map_cons,
    List.flatMap_append, List.flatMap_cons, List.append_assoc, List.length_append,
    List.length_cons, Nat.add_assoc, Nat.add_comm 1]

/-- The blocks of an opening in which a record has been written. -/
def close (o : Opening types) (r : Stored types) (h : o.middle.length = r.size) :
    List (Block types) :=
  o.front ++ {
    capacity := o.capacity
    head := o.head
    records := o.before ++ r :: o.after
    occupied := by simp
    room := by
      have := o.room
      rw [h, ← r.length_bytes] at this
      rw [List.flatMap_append, List.flatMap_cons, List.length_append, List.length_append,
        ← Nat.add_assoc (List.length _)]
      exact this } :: o.back

lemma contents_close (o : Opening types) (r : Stored types) (h : o.middle.length = r.size) :
    contents (o.close r h) = o.ahead ++ r :: o.behind := by
  simp [close, ahead, behind]

/-- A cursor that is at the opening is left alone. -/
lemma seat_eq_self (o : Opening types) (hchunk : c.chunkIndex = o.front.length)
    (hinner : c.innerIndex = o.before.length)
    (hoffset : c.offset = o.head + (o.before.flatMap Stored.bytes).length) : o.seat c = c := by
  rw [seat, ← hchunk, ← hinner, ← hoffset]

lemma seated_close (o : Opening types) (r : Stored types) (h : o.middle.length = r.size)
    (hindex : c.index = o.ahead.length) : Seated (o.close r h) (o.seat c) := by
  refine @seated_record _ _ _ _ o.before o.after r rfl _ ?_ rfl rfl rfl
  rw [ahead, List.length_append] at hindex
  exact hindex

/-- Writing over the middle of the open chunk. -/
lemma overwrite_chunk (o : Opening types) {patch : Bytes} (h : patch.length ≤ o.middle.length) :
    o.chunk.overwrite (o.seat c).offset patch =
      .ok { o.chunk with
        live := o.before.flatMap Stored.bytes ++ (patch ++ o.middle.drop patch.length) ++
          o.after.flatMap Stored.bytes } := by
  have hbounds : o.chunk.head ≤ (o.seat c).offset ∧
      (o.seat c).offset + patch.length ≤ o.chunk.tail := by
    rw [chunk_tail]
    simp only [chunk, seat]
    omega
  have hstart : (o.seat c).offset - o.chunk.head = (o.before.flatMap Stored.bytes).length :=
    Nat.add_sub_cancel_left _ _
  rw [Chunk.overwrite, if_pos hbounds, hstart]
  simp only [Bytes.overwrite, chunk, List.append_assoc, List.take_left, ← List.drop_drop,
    List.drop_left, List.drop_append_of_le_length h]

/-- The chunks once the open chunk has been put back with a record in place of the middle. -/
lemma set_chunks_close (o : Opening types) (r : Stored types) (h : o.middle.length = r.size) :
    o.chunks.set o.front.length
        ⟨o.capacity, o.head,
          o.before.flatMap Stored.bytes ++ r.bytes ++ o.after.flatMap Stored.bytes,
          o.before.length + 1 + o.after.length⟩ =
      (o.close r h).map Block.chunk := by
  rw [chunks, List.set_append_right _ _ (by rw [List.length_map]), List.length_map, Nat.sub_self,
    List.set_cons_zero, close]
  simp only [List.map_append, List.map_cons, Block.chunk, Block.live, List.flatMap_append,
    List.flatMap_cons, List.append_assoc, List.length_append, List.length_cons, Nat.add_assoc,
    Nat.add_comm 1]

/-- The blocks of an opening from which a record has been cut out, if others are left around it. -/
def without (o : Opening types) (h : o.before ++ o.after ≠ []) : List (Block types) :=
  o.front ++ {
    capacity := o.capacity
    head := o.head
    records := o.before ++ o.after
    occupied := h
    room := by
      have := o.room
      rw [List.flatMap_append, List.length_append]
      omega } :: o.back

lemma contents_without (o : Opening types) (h : o.before ++ o.after ≠ []) :
    contents (o.without h) = o.ahead ++ o.behind := by
  simp [without, ahead, behind]

lemma set_chunks_without (o : Opening types) (hmiddle : o.middle = [])
    (h : o.before ++ o.after ≠ []) :
    o.chunks.set o.front.length
        ⟨o.capacity, o.head,
          o.before.flatMap Stored.bytes ++ o.middle ++ o.after.flatMap Stored.bytes,
          o.before.length + o.after.length⟩ =
      (o.without h).map Block.chunk := by
  rw [chunks, List.set_append_right _ _ (by rw [List.length_map]), List.length_map, Nat.sub_self,
    List.set_cons_zero, without, hmiddle]
  simp only [List.map_append, List.map_cons, Block.chunk, Block.live, List.flatMap_append,
    List.append_nil, List.length_append]

/-- Where nothing is left around the record that has been cut out, the chunk goes too. -/
lemma eraseIdx_chunks (o : Opening types) :
    o.chunks.eraseIdx o.front.length = (o.front ++ o.back).map Block.chunk := by
  rw [chunks, List.eraseIdx_append_of_length_le (by rw [List.length_map]), List.length_map,
    Nat.sub_self, List.map_append]
  rfl

lemma contents_eraseIdx (o : Opening types) (h : o.before ++ o.after = []) :
    contents (o.front ++ o.back) = o.ahead ++ o.behind := by
  obtain ⟨hbefore, hafter⟩ := List.append_eq_nil_iff.mp h
  rw [Block.contents_append, ahead, behind, hbefore, hafter, List.append_nil, List.nil_append]

/-- The blocks of an opening from which a record has been cut out. -/
def cleared (o : Opening types) : List (Block types) :=
  if h : o.before ++ o.after = [] then o.front ++ o.back else o.without h

/-- The record that followed the one that has been cut out is in its place, or in the next
chunk. -/
lemma seated_without (o : Opening types) (hmiddle : o.middle = []) (h : o.before ++ o.after ≠ [])
    {t : Table} (ht : t.Holds (o.without h)) (hindex : c.index = o.ahead.length) :
    Seated (o.without h) (if (o.seat c).offset < o.chunk.tail then o.seat c
      else t.seatAt (o.seat c) (o.front.length + 1)) := by
  have htail : o.chunk.tail = (o.seat c).offset + (o.after.flatMap Stored.bytes).length := by
    rw [chunk_tail, hmiddle, List.length_nil, Nat.add_zero, ← Nat.add_assoc]
    rfl
  rw [ahead, List.length_append] at hindex
  rw [htail]
  cases hafter : o.after with
  | cons r after =>
    have hpos : 0 < ((r :: after).flatMap Stored.bytes).length := by
      rw [List.flatMap_cons, List.length_append, Stored.length_bytes]
      exact Nat.add_pos_left r.size_pos _
    rw [if_pos (Nat.lt_add_of_pos_right hpos)]
    refine @seated_record _ _ _ _ o.before after r ?_ _ hindex rfl rfl rfl
    change o.before ++ o.after = _
    rw [hafter]
  | nil =>
    rw [if_neg (by rw [List.flatMap_nil, List.length_nil, Nat.add_zero]; exact Nat.lt_irrefl _)]
    obtain ⟨b, hblocks, hrecords⟩ : ∃ b : Block types,
        o.without h = o.front ++ b :: o.back ∧ b.records = o.before ++ o.after := ⟨_, rfl, rfl⟩
    have hcounted : (o.seat c).index = (contents o.front).length + b.records.length := by
      rw [hrecords, hafter, List.append_nil]
      exact hindex
    rw [hblocks] at ht ⊢
    rw [ht.seatAt_next hcounted]
    refine seated_seat _ ?_
    rw [Block.contents_append, Block.contents_cons, List.length_append, List.length_append,
      hcounted]
    omega

end Opening

/-! ### Room for a new record -/

/-- A segment of a table that gets another size. -/
structure Resizing where
  table : Table
  cursor : Cursor
  old : Nat
  new : Nat

def Resizing.run (z : Resizing) : Except Fault (Table × Cursor) :=
  z.table.resizeSegment z.cursor z.old z.new

/-- The resizing that makes room for a record in front of the cursor. -/
def roomFor (t : Table) (c : Cursor) (size : Nat) : Except Fault Resizing :=
  if t.chunks.isEmpty then
    .ok ⟨{ t with chunks := [.empty (max t.config.chunkSize size)] },
      { c with chunkIndex := 0, innerIndex := 0, offset := 0 }, 0, size⟩
  else (fun place => ⟨t, place, 0, size⟩) <$> t.placeFor c size

lemma makeRoom_eq_run (t : Table) (c : Cursor) (size : Nat) :
    t.makeRoom c size = t.roomFor c size >>= Resizing.run := by
  rw [makeRoom, roomFor]
  split_ifs
  · rfl
  · cases t.placeFor c size <;> rfl

/-- Room for a record is made from nothing. -/
lemma old_eq_zero_of_roomFor {t : Table} {c : Cursor} {size : Nat} {z : Resizing}
    (h : t.roomFor c size = .ok z) : z.old = 0 := by
  rw [roomFor] at h
  split_ifs at h
  · cases h
    rfl
  · obtain ⟨place, -, rfl⟩ := exists_of_map_ok h
    rfl

/-- The opening is in front of the record with the index, and all records are around it. -/
structure Opening.Divides (o : Opening types) (records : List (Stored types)) (index : Nat) :
    Prop where
  records_eq : records = o.ahead ++ o.behind
  index_eq : index = o.ahead.length

/-- The opening is at the record `r` with the index, and all others are around it. -/
structure Opening.Covers (o : Opening types) (records : List (Stored types)) (index : Nat)
    (r : Stored types) : Prop where
  records_eq : records = o.ahead ++ r :: o.behind
  index_eq : index = o.ahead.length

/-- The opening is an empty gap in the table, in front of the record with the index. -/
structure Opening.IsGap (o : Opening types) (t : Table) (records : List (Stored types))
    (index : Nat) : Prop where
  chunks_eq : t.chunks = o.chunks
  middle_eq : o.middle = []
  counted_eq : o.counted = 0
  divides : o.Divides records index

section Around

variable {o o' : Opening types} {records : List (Stored types)} {new index : Nat}
  {r : Stored types}

lemma Opening.Resized.divides (h : o.Resized new o') (ho : o.Divides records index) :
    o'.Divides records index := by
  constructor
  · rw [h.ahead_eq, h.behind_eq]
    exact ho.records_eq
  · rw [h.ahead_eq]
    exact ho.index_eq

lemma Opening.Resized.covers (h : o.Resized new o') (ho : o.Covers records index r) :
    o'.Covers records index r := by
  constructor
  · rw [h.ahead_eq, h.behind_eq]
    exact ho.records_eq
  · rw [h.ahead_eq]
    exact ho.index_eq

lemma insertIdx_length_append (ahead behind : List (Stored types)) (r : Stored types) :
    (ahead ++ behind).insertIdx ahead.length r = ahead ++ r :: behind := by
  induction ahead with
  | nil => rfl
  | cons a ahead ih =>
    rw [List.cons_append, List.length_cons, List.insertIdx_succ_cons, ih]
    rfl

lemma Opening.Divides.insertIdx_eq (h : o.Divides records index) (r : Stored types) :
    records.insertIdx index r = o.ahead ++ r :: o.behind := by
  rw [h.records_eq, h.index_eq, insertIdx_length_append]

lemma Opening.Covers.eraseIdx_eq (h : o.Covers records index r) :
    records.eraseIdx index = o.ahead ++ o.behind := by
  rw [h.records_eq, h.index_eq, List.eraseIdx_append_of_length_le le_rfl, Nat.sub_self]
  rfl

lemma Opening.Covers.set_eq (h : o.Covers records index r) (r' : Stored types) :
    records.set index r' = o.ahead ++ r' :: o.behind := by
  rw [h.records_eq, h.index_eq, List.set_append_right _ _ le_rfl, Nat.sub_self]
  rfl

end Around

namespace Holds

/-- Between two records of a block there is a gap. -/
lemma isGap_between {front back : List (Block types)} {b : Block types}
    (h : t.Holds (front ++ b :: back)) {before after : List (Stored types)}
    (hrecords : b.records = before ++ after) {index : Nat}
    (hindex : index = (contents front).length + before.length) :
    (Opening.between front b back before after hrecords).IsGap t (contents (front ++ b :: back))
      index where
  chunks_eq := by rw [Opening.chunks_between, h.chunks_eq]
  middle_eq := rfl
  counted_eq := rfl
  divides := by
    constructor
    · simp [Opening.ahead, Opening.behind, Opening.between, hrecords]
    · rw [hindex, Opening.ahead, List.length_append]
      rfl

/-- At the end of the table a new record goes behind the last one. -/
lemma placeFor_end {front : List (Block types)} {b : Block types} (h : t.Holds (front ++ [b]))
    (hc : Seated (front ++ [b]) c) (hend : c.index = (contents (front ++ [b])).length)
    (size : Nat) :
    ∃ o : Opening types, t.placeFor c size = .ok (o.seat c) ∧
      o.IsGap t (contents (front ++ [b])) c.index := by
  have hindex : c.index = (contents front).length + b.records.length := by
    rw [hend, Block.contents_append, List.length_append, Block.contents_cons, Block.contents_nil,
      List.append_nil]
  have hlast : t.chunks.length - 1 = front.length := by
    rw [h.length_chunks, List.length_append, List.length_singleton, Nat.add_sub_cancel]
  refine ⟨.between front b [] b.records [] (List.append_nil _).symm, ?_, isGap_between h _ hindex⟩
  rw [placeFor, if_pos (by rw [h.length_chunks, (hc.at_end hend).1]), hlast]
  simp only [h.chunk_eq (getElem?_length_append front b [])]
  rfl

/-- At the front of a chunk a new record goes behind the last one of the chunk before, if there is
room only there. -/
lemma placeFor_front {front back : List (Block types)} {p b : Block types}
    (h : t.Holds (front ++ p :: b :: back)) (hindex : c.index = (contents (front ++ [p])).length)
    (hchunk : c.chunkIndex = front.length + 1) (hinner : c.innerIndex = 0)
    (hoffset : c.offset = b.head) (size : Nat) :
    ∃ o : Opening types, t.placeFor c size = .ok (o.seat c) ∧
      o.IsGap t (contents (front ++ p :: b :: back)) c.index := by
  have hsplit : front ++ p :: b :: back = (front ++ [p]) ++ b :: back := by
    rw [List.append_assoc, List.singleton_append]
  have hbehind : c.index = (contents front).length + p.records.length := by
    rw [hindex, Block.contents_append, List.length_append, Block.contents_cons,
      Block.contents_nil, List.append_nil]
  have hp : (front ++ p :: b :: back)[c.chunkIndex - 1]? = some p := by
    rw [hchunk, Nat.add_sub_cancel, getElem?_length_append]
  have hb : (front ++ p :: b :: back)[c.chunkIndex]? = some b := by
    have := getElem?_length_append (front ++ [p]) b back
    rwa [← hsplit, List.length_append, List.length_singleton, ← hchunk] at this
  have hin : ¬ t.chunks.length ≤ c.chunkIndex := by
    rw [h.length_chunks, hchunk, List.length_append, List.length_cons, List.length_cons]
    omega
  rw [placeFor, if_neg hin, if_pos ⟨hinner, by omega⟩, h.chunk_eq hp, h.chunk_eq hb]
  change ∃ o : Opening types, (if b.chunk.spaceHead < size ∧ size ≤ p.chunk.spaceTail then
    Except.ok (c.behind (c.chunkIndex - 1) p.chunk) else Except.ok c) = _ ∧ _
  split_ifs
  · refine ⟨.between front p (b :: back) p.records [] (List.append_nil _).symm, ?_,
      isGap_between h _ hbehind⟩
    rw [Cursor.behind, Opening.seat, hchunk, Nat.add_sub_cancel]
    rfl
  · have hgap := isGap_between (hsplit ▸ h) (List.nil_append b.records).symm hindex
    rw [← hsplit] at hgap
    refine ⟨_, ?_, hgap⟩
    rw [Opening.seat_eq_self]
    · change c.chunkIndex = (front ++ [p]).length
      rw [hchunk, List.length_append, List.length_singleton]
    · exact hinner
    · exact hoffset

/-- A new record goes between the records around the cursor, though not always in the chunk of the
cursor. -/
lemma placeFor_eq (h : t.Holds blocks) (hblocks : blocks ≠ []) (hc : Seated blocks c)
    (size : Nat) :
    ∃ o : Opening types, t.placeFor c size = .ok (o.seat c) ∧
      o.IsGap t (contents blocks) c.index := by
  by_cases hlt : c.index < (contents blocks).length
  · obtain ⟨front, b, back, before, r, after, rfl, hrecords, hindex, hchunk, hinner, hoffset⟩ :=
      hc.exists_block hlt
    by_cases hfirst : c.innerIndex = 0 ∧ 0 < c.chunkIndex
    · have hbefore : before = [] := List.length_eq_zero_iff.mp (hinner ▸ hfirst.1)
      obtain ⟨front', p, rfl⟩ : ∃ front' p, front = front' ++ [p] := by
        refine ⟨front.dropLast, front.getLast ?_, (List.dropLast_append_getLast _).symm⟩
        rintro rfl
        rw [hchunk] at hfirst
        exact Nat.lt_irrefl 0 hfirst.2
      subst hbefore
      rw [List.append_assoc, List.singleton_append] at h ⊢
      rw [List.length_append, List.length_singleton] at hchunk
      exact placeFor_front h hindex hchunk hinner hoffset size
    · have hin : ¬ t.chunks.length ≤ c.chunkIndex := by
        rw [h.length_chunks, hchunk, List.length_append, List.length_cons]
        omega
      refine ⟨_, ?_, isGap_between h hrecords hindex⟩
      rw [placeFor, if_neg hin, if_neg hfirst, Opening.seat_eq_self _ hchunk hinner hoffset]
      rfl
  · have hend : c.index = (contents blocks).length := Nat.le_antisymm hc.2 (Nat.not_lt.mp hlt)
    obtain ⟨front, b, rfl⟩ : ∃ front b, blocks = front ++ [b] :=
      ⟨blocks.dropLast, blocks.getLast hblocks, (List.dropLast_append_getLast hblocks).symm⟩
    exact placeFor_end h hc hend size

/-- Room for a new record is made in an empty gap between the records around the cursor, in the
table or in its first chunk. -/
lemma roomFor_eq (h : t.Holds blocks) (hc : Seated blocks c) (size : Nat) :
    ∃ o : Opening types, t.roomFor c size = .ok ⟨{ t with chunks := o.chunks }, o.seat c, 0, size⟩ ∧
      o.middle = [] ∧ o.counted = 0 ∧ o.Divides (contents blocks) c.index ∧
      (t.chunks = o.chunks ∨ o = .first (max t.config.chunkSize size)) := by
  by_cases hempty : blocks = []
  · subst hempty
    refine ⟨.first (max t.config.chunkSize size), ?_, rfl, rfl, ⟨rfl, Nat.le_zero.mp hc.2⟩,
      .inr rfl⟩
    rw [roomFor, h.chunks_eq]
    rfl
  · obtain ⟨o, hplace, hgap⟩ := h.placeFor_eq hempty hc size
    refine ⟨o, ?_, hgap.middle_eq, hgap.counted_eq, hgap.divides, .inl hgap.chunks_eq⟩
    have hsome : t.chunks.isEmpty = false := by
      rw [h.chunks_eq, List.isEmpty_map]
      exact List.isEmpty_eq_false_iff.mpr hempty
    rw [roomFor, hsome, hplace, ← hgap.chunks_eq]
    rfl

/-- Room for a new record is zeros in place of an empty gap. -/
theorem makeRoom_becomes (h : t.Holds blocks) (hc : Seated blocks c) (size : Nat) :
    ∃ o o' : Opening types,
      t.roomFor c size = .ok ⟨{ t with chunks := o.chunks }, o.seat c, 0, size⟩ ∧ o.middle = [] ∧
        o.counted = 0 ∧ o.Divides (contents blocks) c.index ∧
        (t.chunks = o.chunks ∨ o = .first (max t.config.chunkSize size)) ∧
        o.Becomes t.config.chunkSize size (o.way size) o' ∧
        t.makeRoom c size = .ok ({ t with chunks := o'.chunks }, o'.seat c) := by
  obtain ⟨o, hroom, hmiddle, hcounted, hdivides, hfirst⟩ := h.roomFor_eq hc size
  have hone : o.counted = if o.middle.length = 0 then 0 else 1 := by
    rw [hmiddle]
    exact hcounted
  obtain ⟨o', hbecomes, hrun⟩ :=
    o.resizeSegment_becomes c (t := { t with chunks := o.chunks }) rfl hone size
  refine ⟨o, o', hroom, hmiddle, hcounted, hdivides, hfirst, hbecomes, ?_⟩
  rw [hmiddle] at hrun
  rw [makeRoom_eq_run, hroom]
  exact hrun

/-- The zeros are between the records around the cursor. -/
theorem makeRoom_eq (h : t.Holds blocks) (hc : Seated blocks c) (size : Nat) :
    ∃ o : Opening types,
      t.makeRoom c size = .ok ({ t with chunks := o.chunks }, o.seat c) ∧
        o.middle = Bytes.zeros size ∧ o.counted = 0 ∧ o.Divides (contents blocks) c.index := by
  obtain ⟨o, o', -, hmiddle, hcounted, hdivides, -, hbecomes, hrun⟩ := h.makeRoom_becomes hc size
  have hresized := hbecomes.resized
  refine ⟨o', hrun, ?_, ?_, hresized.divides hdivides⟩
  · rw [hresized.middle_eq, hmiddle, Bytes.resize_nil]
  · rw [hresized.counted_eq, hcounted]

/-- A table opened at the record of the cursor. -/
lemma exists_around (h : t.Holds blocks) (hc : Seated blocks c) {r : Stored types}
    (hr : (contents blocks)[c.index]? = some r) :
    ∃ o : Opening types, o.seat c = c ∧ t.chunks = o.chunks ∧ o.middle = r.bytes ∧
      o.counted = 1 ∧ o.Covers (contents blocks) c.index r := by
  have hlt := (List.getElem?_eq_some_iff.mp hr).1
  obtain ⟨front, b, back, before, r', after, rfl, hrecords, hindex, hchunk, hinner, hoffset⟩ :=
    hc.exists_block hlt
  have hcovers : (Opening.around front b back before r' after hrecords).Covers
      (contents (front ++ b :: back)) c.index r' := by
    constructor
    · simp [Opening.ahead, Opening.behind, Opening.around, hrecords]
    · rw [hindex, Opening.ahead, List.length_append]
      rfl
  have hr' : r' = r := by
    rw [hcovers.records_eq, hcovers.index_eq, List.getElem?_append_right le_rfl, Nat.sub_self] at hr
    exact Option.some.inj hr
  subst hr'
  refine ⟨.around front b back before r' after hrecords, ?_, ?_, rfl, rfl, hcovers⟩
  · exact Opening.seat_eq_self _ hchunk hinner hoffset
  · rw [Opening.chunks_around, h.chunks_eq]

end Holds

end RecordStore.Table
