import Mathlib
import RecordStore.Proofs.Outcome
import RecordStore.Proofs.Record.Change
import RecordStore.Table.Basic

/-!
# The layout of a table

A block is a chunk together with the records it holds, at least one, within its capacity. A table
is sound if its chunks are the chunks of blocks and its count is the number of their records. The
records of the blocks, one behind the other, are what the table stands for; a cursor is seated if
it is the one place at which its record is.
-/

namespace RecordStore.Table

open Record

variable {types : List ValueType}

/-! ### Blocks -/

/-- A stretch of records without bytes has no records. -/
lemma eq_nil_of_length_flatMap {records : List (Stored types)}
    (h : (records.flatMap Stored.bytes).length = 0) : records = [] := by
  cases records with
  | nil => rfl
  | cons r records =>
    rw [List.length_eq_zero_iff, List.flatMap_cons, List.append_eq_nil_iff] at h
    exact absurd h.1 r.bytes_ne_nil

/-- The records of a chunk. -/
structure Block (types : List ValueType) where
  capacity : Nat
  head : Nat
  records : List (Stored types)
  occupied : records ≠ []
  room : head + (records.flatMap Stored.bytes).length ≤ capacity

namespace Block

def live (b : Block types) : Bytes := b.records.flatMap Stored.bytes

def chunk (b : Block types) : Chunk := ⟨b.capacity, b.head, b.live, b.records.length⟩

/-- The records of blocks, one behind the other. -/
def contents (blocks : List (Block types)) : List (Stored types) := blocks.flatMap records

@[simp] lemma contents_nil : contents ([] : List (Block types)) = [] := rfl

@[simp] lemma contents_cons (b : Block types) (blocks : List (Block types)) :
    contents (b :: blocks) = b.records ++ contents blocks := rfl

@[simp] lemma contents_append (front back : List (Block types)) :
    contents (front ++ back) = contents front ++ contents back := List.flatMap_append

/-- The bytes of blocks are those of their records. -/
lemma flatMap_live (blocks : List (Block types)) :
    (blocks.map chunk).flatMap Chunk.live = (contents blocks).flatMap Stored.bytes := by
  rw [List.flatMap_map, contents, List.flatMap_assoc]
  rfl

/-- The chunks of blocks count all their records. -/
lemma sum_numRecords (blocks : List (Block types)) :
    ((blocks.map chunk).map Chunk.numRecords).sum = (contents blocks).length := by
  rw [List.map_map, contents, List.length_flatMap]
  rfl

lemma chunk_tail (b : Block types) : b.chunk.tail = b.head + b.live.length := rfl

lemma length_records_pos (b : Block types) : 0 < b.records.length :=
  List.length_pos_of_ne_nil b.occupied

lemma records_chunk (b : Block types) : b.chunk.records = .ok (b.records.map Stored.bytes) :=
  Stored.split_flatMap b.records

end Block

open Block (contents)

/-- There are at least as many records as blocks. -/
lemma length_le_length_contents (blocks : List (Block types)) :
    blocks.length ≤ (contents blocks).length := by
  induction blocks with
  | nil => exact Nat.zero_le _
  | cons b blocks ih =>
    have := b.length_records_pos
    rw [List.length_cons, Block.contents_cons, List.length_append]
    omega

/-- The member behind others. -/
lemma getElem?_length_append {α : Type} (front : List α) (b : α) (back : List α) :
    (front ++ b :: back)[front.length]? = some b := by
  rw [List.getElem?_append_right le_rfl, Nat.sub_self]
  rfl

/-- The members in front of one and those behind it. -/
lemma exists_around_getElem? {α : Type} {l : List α} {n : Nat} {a : α} (h : l[n]? = some a) :
    ∃ front back, l = front ++ a :: back ∧ front.length = n := by
  obtain ⟨hlt, rfl⟩ := List.getElem?_eq_some_iff.mp h
  refine ⟨l.take n, l.drop (n + 1), ?_, List.length_take_of_le hlt.le⟩
  rw [← List.drop_eq_getElem_cons hlt, List.take_append_drop]

/-- A chunk that is got by its number is in the table. -/
lemma getElem?_of_chunk {t : Table} {index : Nat} {k : Chunk} (h : t.chunk index = .ok k) :
    t.chunks[index]? = some k := by
  rw [Table.chunk] at h
  split at h
  · rename_i hk
    rw [hk, Except.ok.inj h]
  · cases h

/-! ### Sound tables -/

/-- The chunks and counts of the table are those of the blocks. -/
structure Laid (t : Table) (blocks : List (Block types)) : Prop where
  types_eq : t.schema.types = types
  chunks_eq : t.chunks = blocks.map Block.chunk
  count_eq : t.numRecords = (contents blocks).length

/-- The table is laid out as the blocks say. If it checks its records after each change, all of
them are legible. -/
structure Holds (t : Table) (blocks : List (Block types)) : Prop extends Laid t blocks where
  checked : t.config.checkInvariants = true → ∀ r ∈ contents blocks, r.Legible

/-! ### Checks -/

/-- What is checked of a record. -/
lemma checkRecord_bytes {r : Stored types} (legible : r.Legible) (index : Nat) :
    (do if r.bytes.length < (← dataSize types r.bytes) then throw (.recordOverflow index)) =
      (.ok ⟨⟩ : Except Fault PUnit) := by
  have hsize : ¬ r.bytes.length < r.dataSize := by
    rw [Stored.length_bytes]
    exact Nat.not_lt.mpr (Nat.le_add_right _ _)
  rw [Stored.dataSize_bytes legible]
  exact if_neg hsize

lemma checkChunk_eq (b : Block types) (index : Nat) :
    checkChunk types index b.chunk = (do
      (b.records.map Stored.bytes).forM fun record => do
        if record.length < (← dataSize types record) then throw (.recordOverflow index)
      return b.records.length) := by
  have hroom : ¬ b.chunk.capacity < b.chunk.tail := Nat.not_lt.mpr b.room
  have hoccupied : b.chunk.numRecords ≠ 0 := b.length_records_pos.ne'
  have hcount : ¬ b.records.length ≠ b.chunk.numRecords := fun hne => hne rfl
  unfold checkChunk
  rw [if_neg hroom, if_neg hoccupied, Block.records_chunk]
  change (((b.records.map Stored.bytes).forM _ : Except Fault PUnit) >>= fun _ =>
    if (b.records.map Stored.bytes).length ≠ b.chunk.numRecords then _ else _) = _
  rw [List.length_map]
  simp only [if_neg hcount]

lemma checkChunk_chunk {b : Block types} (legible : ∀ r ∈ b.records, r.Legible) (index : Nat) :
    checkChunk types index b.chunk = .ok b.records.length := by
  rw [checkChunk_eq, forM_ok]
  · rfl
  · intro bytes hbytes
    obtain ⟨r, hr, rfl⟩ := List.mem_map.mp hbytes
    exact checkRecord_bytes (legible r hr) index

lemma garbled_checkChunk {b : Block types} (illegible : ¬ ∀ r ∈ b.records, r.Legible)
    (index : Nat) : Garbled (checkChunk types index b.chunk) := by
  have hgarbled : ∀ r : Stored types, ¬ r.Legible → Garbled
      (do if r.bytes.length < (← dataSize types r.bytes) then throw (.recordOverflow index) :
        Except Fault PUnit) := fun r hr => (Stored.garbled_dataSize hr).bind _
  rw [checkChunk_eq]
  refine (forM_garbled ?_ ?_).bind _
  · intro bytes hbytes
    obtain ⟨r, hr, rfl⟩ := List.mem_map.mp hbytes
    by_cases hlegible : r.Legible
    · exact .inl (checkRecord_bytes hlegible index)
    · exact .inr (hgarbled r hlegible)
  · obtain ⟨r, hr, hlegible⟩ : ∃ r ∈ b.records, ¬ r.Legible := by simpa using illegible
    exact ⟨r.bytes, List.mem_map_of_mem hr, hgarbled r hlegible⟩

namespace Laid

variable {t : Table} {blocks : List (Block types)}

lemma exists_block_of_mem (h : t.Laid blocks) {p : Chunk × Nat} (hp : p ∈ t.chunks.zipIdx) :
    ∃ b ∈ blocks, p.1 = b.chunk := by
  have hmem := List.fst_mem_of_mem_zipIdx hp
  rw [h.chunks_eq] at hmem
  obtain ⟨b, hb, hchunk⟩ := List.mem_map.mp hmem
  exact ⟨b, hb, hchunk.symm⟩

/-- The checks find nothing wrong with a table of legible records. -/
theorem check_eq (h : t.Laid blocks) (legible : ∀ r ∈ contents blocks, r.Legible) :
    t.check = .ok () := by
  have hcounts : (t.chunks.zipIdx.mapM fun p => checkChunk t.schema.types p.2 p.1) =
      .ok (t.chunks.zipIdx.map fun p => p.1.numRecords) := by
    apply mapM_ok
    intro p hp
    obtain ⟨b, hb, hchunk⟩ := h.exists_block_of_mem hp
    rw [hchunk, h.types_eq]
    exact checkChunk_chunk (fun r hr => legible r (List.mem_flatMap_of_mem hb hr)) p.2
  have hsum : (t.chunks.zipIdx.map fun p => p.1.numRecords).sum = t.numRecords := by
    have hmap : (t.chunks.zipIdx.map fun p => p.1.numRecords) =
        (t.chunks.zipIdx.map Prod.fst).map Chunk.numRecords := by
      rw [List.map_map]
      rfl
    rw [hmap, List.zipIdx_map_fst, h.chunks_eq, h.count_eq, Block.sum_numRecords]
  have hcheck : t.check = (do
      let counts ← t.chunks.zipIdx.mapM fun p => checkChunk t.schema.types p.2 p.1
      if counts.sum ≠ t.numRecords then throw .tableMiscount) := rfl
  rw [hcheck, hcounts, ok_bind, if_neg (fun hne => hne hsum)]
  rfl

/-- The checks fail at a record that is not legible. -/
theorem garbled_check (h : t.Laid blocks) (illegible : ¬ ∀ r ∈ contents blocks, r.Legible) :
    Garbled t.check := by
  have hcheck : t.check = (do
      let counts ← t.chunks.zipIdx.mapM fun p => checkChunk t.schema.types p.2 p.1
      if counts.sum ≠ t.numRecords then throw .tableMiscount) := rfl
  rw [hcheck]
  refine (mapM_garbled ?_ ?_).bind _
  · intro p hp
    obtain ⟨b, hb, hchunk⟩ := h.exists_block_of_mem hp
    rw [hchunk, h.types_eq]
    by_cases hlegible : ∀ r ∈ b.records, r.Legible
    · exact .inl ⟨_, checkChunk_chunk hlegible p.2⟩
    · exact .inr (garbled_checkChunk hlegible p.2)
  · obtain ⟨r, hr, hlegible⟩ : ∃ r ∈ contents blocks, ¬ r.Legible := by simpa using illegible
    obtain ⟨b, hb, hr⟩ := List.mem_flatMap.mp hr
    have hmem : b.chunk ∈ t.chunks.zipIdx.map Prod.fst := by
      rw [List.zipIdx_map_fst, h.chunks_eq]
      exact List.mem_map_of_mem hb
    obtain ⟨p, hp, hchunk⟩ := List.mem_map.mp hmem
    refine ⟨p, hp, ?_⟩
    rw [hchunk, h.types_eq]
    exact garbled_checkChunk (fun hall => hlegible (hall r hr)) p.2

end Laid

namespace Holds

variable {t : Table} {blocks : List (Block types)}

lemma length_chunks (h : t.Holds blocks) : t.chunks.length = blocks.length := by
  rw [h.chunks_eq, List.length_map]

lemma chunks_eq_nil (h : t.Holds blocks) (hnone : contents blocks = []) : t.chunks = [] := by
  have hle := length_le_length_contents blocks
  rw [hnone, List.length_nil, Nat.le_zero, ← h.length_chunks] at hle
  exact List.length_eq_zero_iff.mp hle

lemma size_eq (h : t.Holds blocks) : t.schema.size = types.length := by
  rw [← Schema.length_types, h.types_eq]

lemma type?_eq (h : t.Holds blocks) (column : Nat) : t.schema.type? column = types[column]? := by
  rw [← h.types_eq, Schema.type?_eq]

lemma chunk_eq (h : t.Holds blocks) {index : Nat} {b : Block types} (hb : blocks[index]? = some b) :
    t.chunk index = .ok b.chunk := by
  rw [Table.chunk, h.chunks_eq, List.getElem?_map, hb]
  rfl

end Holds

/-! ### Places -/

/-- The chunk, the number of records in front within it, and the place in its buffer. -/
structure Place where
  chunkIndex : Nat
  innerIndex : Nat
  offset : Nat

/-- Where record `index` is. The place behind the last record is in front of a chunk that is not
there. -/
def place : List (Block types) → Nat → Place
  | [], _ => ⟨0, 0, 0⟩
  | b :: blocks, index =>
    if index < b.records.length then
      ⟨0, index, b.head + ((b.records.take index).flatMap Stored.bytes).length⟩
    else
      let p := place blocks (index - b.records.length)
      ⟨p.chunkIndex + 1, p.innerIndex, p.offset⟩

/-- The one cursor of a generation at record `index`, or at the end. -/
def seat (blocks : List (Block types)) (generation index : Nat) : Cursor :=
  let p := place blocks index
  ⟨index, p.chunkIndex, p.innerIndex, p.offset, generation⟩

/-- The cursor is where its record is, or at the end. -/
def Seated (blocks : List (Block types)) (c : Cursor) : Prop :=
  c = seat blocks c.generation c.index ∧ c.index ≤ (contents blocks).length

lemma place_skip (front blocks : List (Block types)) (index : Nat) :
    place (front ++ blocks) ((contents front).length + index) =
      ⟨front.length + (place blocks index).chunkIndex, (place blocks index).innerIndex,
        (place blocks index).offset⟩ := by
  induction front with
  | nil => simp
  | cons b front ih =>
    have hge : ¬ (contents (b :: front)).length + index < b.records.length := by
      rw [Block.contents_cons, List.length_append]
      omega
    have hsub : (contents (b :: front)).length + index - b.records.length =
        (contents front).length + index := by
      rw [Block.contents_cons, List.length_append]
      omega
    rw [List.cons_append, place, if_neg hge, hsub, ih, List.length_cons]
    simp only [Place.mk.injEq, and_self, and_true]
    omega

lemma place_record (front : List (Block types)) (b : Block types) (back : List (Block types))
    {before after : List (Stored types)} {r : Stored types}
    (h : b.records = before ++ r :: after) :
    place (front ++ b :: back) ((contents front).length + before.length) =
      ⟨front.length, before.length, b.head + (before.flatMap Stored.bytes).length⟩ := by
  have hlt : before.length < b.records.length := by
    rw [h, List.length_append, List.length_cons]
    omega
  rw [place_skip, place, if_pos hlt, h, List.take_left]
  rfl

lemma place_end (blocks : List (Block types)) :
    place blocks (contents blocks).length = ⟨blocks.length, 0, 0⟩ := by
  have := place_skip blocks [] 0
  rwa [List.append_nil] at this

/-- The front of a block, or the end. -/
lemma place_front (front back : List (Block types)) :
    place (front ++ back) (contents front).length =
      ⟨front.length, 0, (back.head?.map Block.head).getD 0⟩ := by
  have := place_skip front back 0
  rw [Nat.add_zero] at this
  rw [this]
  cases back with
  | nil => rfl
  | cons b back =>
    rw [place, if_pos b.length_records_pos]
    rfl

/-- Each record is in a block. -/
lemma exists_block {blocks : List (Block types)} {index : Nat}
    (h : index < (contents blocks).length) :
    ∃ front b back before r after, blocks = front ++ b :: back ∧
      b.records = before ++ r :: after ∧ index = (contents front).length + before.length := by
  induction blocks generalizing index with
  | nil => exact absurd h (Nat.not_lt_zero index)
  | cons b blocks ih =>
    by_cases hlt : index < b.records.length
    · obtain ⟨before, after, hrecords, hlength⟩ :=
        exists_around_getElem? (List.getElem?_eq_getElem hlt)
      refine ⟨[], b, blocks, before, _, after, rfl, hrecords, ?_⟩
      rw [hlength, Block.contents_nil, List.length_nil, Nat.zero_add]
    · rw [Block.contents_cons, List.length_append] at h
      obtain ⟨front, b', back, before, r, after, rfl, hrecords, hindex⟩ :=
        @ih (index - b.records.length) (by omega)
      refine ⟨b :: front, b', back, before, r, after, rfl, hrecords, ?_⟩
      rw [Block.contents_cons, List.length_append]
      omega

/-! ### Seated cursors -/

/-- A cursor of another generation is nowhere. -/
lemma isCurrent_iff {t : Table} {c : Cursor} :
    t.isCurrent c = true ↔ c.generation = t.generation := decide_eq_true_iff

lemma isCurrent_seat (t : Table) (blocks : List (Block types)) (index : Nat) :
    t.isCurrent (seat blocks t.generation index) = true := isCurrent_iff.mpr rfl

lemma isValid_of_stale {t : Table} {c : Cursor} (h : t.isCurrent c = false) :
    t.isValid c = false := by
  rw [isValid, h]
  rfl

lemma isPosition_of_stale {t : Table} {c : Cursor} (h : t.isCurrent c = false) :
    t.isPosition c = false := by
  rw [isPosition, h]
  rfl

lemma seated_seat {blocks : List (Block types)} {index : Nat} (generation : Nat)
    (h : index ≤ (contents blocks).length) : Seated blocks (seat blocks generation index) :=
  ⟨rfl, h⟩

/-- A cursor in front of a record of a block is seated. -/
lemma seated_record {front back : List (Block types)} {b : Block types}
    {before after : List (Stored types)} {r : Stored types} (h : b.records = before ++ r :: after)
    {c : Cursor} (hindex : c.index = (contents front).length + before.length)
    (hchunk : c.chunkIndex = front.length) (hinner : c.innerIndex = before.length)
    (hoffset : c.offset = b.head + (before.flatMap Stored.bytes).length) :
    Seated (front ++ b :: back) c := by
  constructor
  · cases c
    simp only [seat, Cursor.mk.injEq, true_and, and_true] at hindex hchunk hinner hoffset ⊢
    rw [hindex, place_record front b back h]
    exact ⟨hchunk, hinner, hoffset⟩
  · rw [hindex, Block.contents_append, Block.contents_cons, h]
    simp only [List.length_append, List.length_cons]
    omega

namespace Seated

variable {blocks : List (Block types)} {c : Cursor}

/-- What is around a cursor at a record. -/
lemma exists_block (h : Seated blocks c) (hlt : c.index < (contents blocks).length) :
    ∃ front b back before r after, blocks = front ++ b :: back ∧
      b.records = before ++ r :: after ∧ c.index = (contents front).length + before.length ∧
      c.chunkIndex = front.length ∧ c.innerIndex = before.length ∧
      c.offset = b.head + (before.flatMap Stored.bytes).length := by
  obtain ⟨front, b, back, before, r, after, rfl, hrecords, hindex⟩ := Table.exists_block hlt
  have hplace := place_record front b back hrecords
  rw [← hindex] at hplace
  have hc := h.1
  rw [seat, hplace] at hc
  refine ⟨front, b, back, before, r, after, rfl, hrecords, hindex, ?_, ?_, ?_⟩
  · exact congrArg Cursor.chunkIndex hc
  · exact congrArg Cursor.innerIndex hc
  · exact congrArg Cursor.offset hc

lemma at_end (h : Seated blocks c) (hend : c.index = (contents blocks).length) :
    c.chunkIndex = blocks.length ∧ c.innerIndex = 0 ∧ c.offset = 0 := by
  have hc := h.1
  rw [seat, hend, place_end] at hc
  exact ⟨congrArg Cursor.chunkIndex hc, congrArg Cursor.innerIndex hc, congrArg Cursor.offset hc⟩

/-- A seated cursor is seated in any generation. -/
lemma carry (h : Seated blocks c) (generation : Nat) :
    Seated blocks { c with generation := generation } :=
  ⟨congrArg (fun d : Cursor => { d with generation := generation }) h.1, h.2⟩

end Seated

namespace Holds

variable {t : Table} {blocks : List (Block types)}

/-- Moving on to a chunk seats a cursor that has counted the records in front of it. -/
lemma seatAt_eq {front back : List (Block types)} (h : t.Holds (front ++ back)) {c : Cursor}
    (hindex : c.index = (contents front).length) :
    t.seatAt c front.length = seat (front ++ back) c.generation c.index := by
  have hhead : (t.chunks[front.length]?.map Chunk.head).getD 0 =
      (back.head?.map Block.head).getD 0 := by
    rw [h.chunks_eq, List.getElem?_map, List.getElem?_append_right le_rfl, Nat.sub_self,
      ← List.head?_eq_getElem?, Option.map_map]
    rfl
  rw [seatAt, hhead, seat, hindex, place_front]

/-- Moving on from a chunk whose records have all been counted. -/
lemma seatAt_next {front back : List (Block types)} {b : Block types}
    (h : t.Holds (front ++ b :: back)) {c : Cursor}
    (hindex : c.index = (contents front).length + b.records.length) :
    t.seatAt c (front.length + 1) = seat (front ++ b :: back) c.generation c.index := by
  have hsplit : front ++ b :: back = (front ++ [b]) ++ back := by
    rw [List.append_assoc, List.singleton_append]
  have hindex' : c.index = (contents (front ++ [b])).length := by
    rw [hindex, Block.contents_append, List.length_append, Block.contents_cons,
      Block.contents_nil, List.append_nil]
  rw [hsplit] at h ⊢
  rw [← h.seatAt_eq hindex', List.length_append, List.length_singleton]

lemma startCursor_eq (h : t.Holds blocks) : t.startCursor = seat blocks t.generation 0 :=
  @seatAt_eq _ _ [] _ h _ rfl

lemma endCursor_eq (h : t.Holds blocks) :
    t.endCursor = seat blocks t.generation (contents blocks).length := by
  rw [endCursor, seat, place_end, h.count_eq, h.length_chunks]

lemma isValid_iff (h : t.Holds blocks) {c : Cursor} (hc : t.isCurrent c → Seated blocks c) :
    t.isValid c = true ↔
      t.isCurrent c = true ∧ Seated blocks c ∧ c.index < (contents blocks).length := by
  simp only [isValid, Bool.and_eq_true, decide_eq_true_eq, h.count_eq, h.length_chunks]
  constructor
  · rintro ⟨⟨hcurrent, hlt⟩, -⟩
    exact ⟨hcurrent, hc hcurrent, hlt⟩
  · rintro ⟨hcurrent, hseated, hlt⟩
    obtain ⟨front, b, back, before, r, after, rfl, -, -, hchunk, -, -⟩ := hseated.exists_block hlt
    refine ⟨⟨hcurrent, hlt⟩, ?_⟩
    rw [hchunk, List.length_append, List.length_cons]
    omega

/-- A cursor that is not in front of the end is not at a record. -/
lemma isValid_of_length_le (h : t.Holds blocks) {c : Cursor}
    (hend : (contents blocks).length ≤ c.index) : t.isValid c = false := by
  have hlt : decide (c.index < t.numRecords) = false := by
    rw [h.count_eq, decide_eq_false_iff_not]
    exact Nat.not_lt.mpr hend
  rw [isValid, hlt, Bool.and_false, Bool.false_and]

lemma isPosition_iff (h : t.Holds blocks) {c : Cursor} (hc : t.isCurrent c → Seated blocks c) :
    t.isPosition c = true ↔ t.isCurrent c = true ∧ Seated blocks c := by
  simp only [isPosition, Bool.and_eq_true, decide_eq_true_eq, h.count_eq]
  constructor
  · rintro ⟨hcurrent, -⟩
    exact ⟨hcurrent, hc hcurrent⟩
  · rintro ⟨hcurrent, hseated⟩
    exact ⟨hcurrent, hseated.2⟩

end Holds

end RecordStore.Table
