import Mathlib
import RecordStore.Proofs.Session.Sound

/-!
# The storage invariant

What the bytes of a table in use look like, whatever the run: chunks within their capacity, each a
gapless run of at least one record, each record with its own length in its header and one field for
each column. As long as the columns tell the types of all values, every field is found again, and
nothing that a caller can ask for finds the storage in disorder.
-/

namespace RecordStore

open Table (Block Cursor)
open Table.Block (contents)
open Record (Stored headerBytes)

variable {types : List ValueType}

/-! ### Well-formed storage -/

/-- The bytes are one record: a header with their own number, a field for each type, and slack. -/
structure Record.IsRecord (types : List ValueType) (bytes : Bytes) (fields : List Bytes)
    (slack : Bytes) : Prop where
  header_eq : LittleEndian.decode (bytes.take headerBytes) = bytes.length
  length_eq : bytes.length = headerBytes + (fields.map List.length).sum + slack.length
  body_eq : bytes.drop headerBytes = fields.flatten ++ slack
  isField : List.Forall₂ Field.IsField types fields

/-- The chunk is within its bounds and consists of as many records as it says, at least one. In a
compact table no record has slack. -/
structure Table.Chunk.WellFormed (types : List ValueType) (compact : Bool) (c : Chunk) : Prop where
  head_le : c.head ≤ c.tail
  tail_le : c.tail ≤ c.capacity
  occupied : 0 < c.numRecords
  framed : ∃ records : List Bytes, c.live = records.flatten ∧ records.length = c.numRecords ∧
    ∀ bytes ∈ records, ∃ fields slack, Record.IsRecord types bytes fields slack ∧
      (compact = true → slack = [])

/-- The sizes of all records of the chunk are told by their fields, whether these are checked or
not. -/
def Table.Chunk.IsLegible (types : List ValueType) (c : Chunk) : Prop :=
  ∃ records, c.records = .ok records ∧ ∀ record ∈ records, ∃ used,
    Record.dataSize? types record = some used ∧ Record.dataSize types record = .ok used ∧
      used ≤ record.length

/-- Every chunk is well-formed, and the counts of the chunks add up to the count of the table. -/
structure Table.WellFormed (t : Table) : Prop where
  chunks : ∀ c ∈ t.chunks, c.WellFormed t.schema.types t.compact
  count_eq : (t.chunks.map Chunk.numRecords).sum = t.numRecords

lemma Record.Stored.isRecord (r : Stored types) :
    Record.IsRecord types r.bytes r.fields r.slack where
  header_eq := by
    rw [r.length_bytes, bytes, List.take_left' (LittleEndian.length_encode _ _),
      LittleEndian.decode_encode_of_lt r.size_lt]
  length_eq := by
    rw [r.length_bytes, size, dataSize, List.length_flatten]
  body_eq := r.drop_header
  isField := r.isField

/-- The chunk of a block is well-formed. -/
lemma Table.Block.wellFormed_chunk (b : Block types) {compact : Bool}
    (hdense : compact = true → ∀ r ∈ b.records, r.slack = []) :
    b.chunk.WellFormed types compact where
  head_le := Nat.le_add_right _ _
  tail_le := b.room
  occupied := b.length_records_pos
  framed := by
    refine ⟨b.records.map Stored.bytes, List.flatMap_def, List.length_map _, ?_⟩
    intro bytes hbytes
    obtain ⟨r, hr, rfl⟩ := List.mem_map.mp hbytes
    exact ⟨r.fields, r.slack, r.isRecord, fun hcompact => hdense hcompact r hr⟩

namespace Session

namespace Sound

variable {s : Session} {blocks : List (Block types)}

/-- The table of a sound session is well-formed. -/
theorem wellFormed (h : s.Sound blocks) : s.table.WellFormed where
  chunks := by
    intro c hc
    rw [h.holds.chunks_eq] at hc
    obtain ⟨b, hb, rfl⟩ := List.mem_map.mp hc
    rw [h.holds.types_eq]
    refine b.wellFormed_chunk fun hcompact r hr => h.dense hcompact r ?_
    exact List.mem_flatMap.mpr ⟨b, hb, hr⟩
  count_eq := by
    rw [h.holds.chunks_eq, h.holds.count_eq, Block.sum_numRecords]

/-- A cursor that was handed out reads a value from every column, the plain null if it is at no
record or there is no such column. -/
lemma exists_cell (h : s.Sound blocks) (legible : ∀ r ∈ contents blocks, r.Legible) {c : Cursor}
    (hc : c ∈ s.cursors) (column : Nat) : ∃ v, s.table.cell c column = .ok v := by
  cases hvalid : s.table.isValid c with
  | false => exact ⟨_, Table.Holds.cell_eq_null hvalid column⟩
  | true =>
    obtain ⟨hcurrent, hseated, hlt⟩ := (h.holds.isValid_iff (h.seated c hc)).mp hvalid
    have hlegible := legible _ (List.getElem_mem hlt)
    exact ⟨_, h.holds.cell_eq hcurrent hseated (List.getElem?_eq_getElem hlt) hlegible column⟩

/-- The fields of every record are found again, with and without checks. -/
lemma isLegible (h : s.Sound blocks) (legible : ∀ r ∈ contents blocks, r.Legible) :
    ∀ c ∈ s.table.chunks, c.IsLegible s.table.schema.types := by
  intro c hc
  rw [h.holds.chunks_eq] at hc
  obtain ⟨b, hb, rfl⟩ := List.mem_map.mp hc
  rw [h.holds.types_eq]
  refine ⟨_, b.records_chunk, ?_⟩
  intro record hrecord
  obtain ⟨r, hr, rfl⟩ := List.mem_map.mp hrecord
  have hlegible := legible r (List.mem_flatMap.mpr ⟨b, hb, hr⟩)
  refine ⟨r.dataSize, Stored.dataSize?_bytes hlegible, Stored.dataSize_bytes hlegible, ?_⟩
  rw [r.length_bytes]
  exact Nat.le_add_right _ _

end Sound

/-- Whatever the run, the table is well-formed, a removal splits no chunk, and a request that is
admitted is carried out or fails. In a run in which the columns tell the types of all values all
fields are found again, the check of the table finds nothing wrong, all its rows and all cells at
cursors that were handed out can be read, and a request fails only if it asks for a record that
would not fit its header. The check finds something wrong once a value is put in whose type its
column does not tell. -/
theorem Reachable.storage {s : Session} (h : s.Reachable) :
    s.table.WellFormed ∧
      (∀ c ∈ s.table.chunks, ∀ before after old,
        (Table.Resize.choose c before after old 0).isSplit = false) ∧
      (∀ request, s.Admits request → (∃ s', s.step request = .ok s') ∨ s.Fails request) ∧
      (s.Told →
        (∀ c ∈ s.table.chunks, c.IsLegible s.table.schema.types) ∧
        s.table.check = .ok () ∧ (∃ rows, s.table.values = .ok rows) ∧
        (∀ c ∈ s.cursors, ∀ column, ∃ v, s.table.cell c column = .ok v) ∧
        ∀ request, s.Admits request →
          (s.table.Tells request → (∃ s', s.step request = .ok s') ∨
            ∃ size, s.Asks size request ∧ 2 ^ 32 ≤ size ∧
              s.step request = .error (.recordTooLarge size)) ∧
          ∀ s', s.step request = .ok s' →
            (s'.table.check = .ok () ↔ s.table.Tells request)) := by
  obtain ⟨types, blocks, hsound⟩ := h.sound
  refine ⟨hsound.wellFormed, ?_, fun request hadmits => hsound.step_ok_or_fails hadmits,
    fun hs => ?_⟩
  · intro c _ before after old
    exact Table.Resize.isSplit_choose_of_le c before after (Nat.zero_le old)
  · have legible := hsound.check_iff.mp hs.check_eq
    refine ⟨hsound.isLegible legible, hs.check_eq, ⟨_, hsound.holds.values_eq legible⟩,
      fun c hc => hsound.exists_cell legible hc, fun request hadmits => ⟨?_, fun s' hrun => ?_⟩⟩
    · exact hsound.step_ok_or_tooLarge hadmits hs.check_eq
    · obtain ⟨types', blocks', hsound', heffect⟩ := (hsound.step_yields hadmits).post_of_ok hrun
      rw [hsound'.check_iff, hsound.legible_iff_tells hadmits heffect legible]

theorem storage_of_pushed_byte :
    ∃ s : Session, s.Reachable ∧ s.Told ∧ s.table.chunks = [⟨8192, 0, [5, 0, 0, 0, 7], 1⟩] ∧
      s.table.WellFormed ∧ s.table.check = .ok () := by
  obtain ⟨s, hs, -, hchunks⟩ := exists_pushed_byte
  obtain ⟨hwellFormed, -, -, htold⟩ := hs.reachable.storage
  exact ⟨s, hs.reachable, hs, hchunks, hwellFormed, (htold hs).2.1⟩

/-- The tag of a type with a flag that has no name is not read. So the check fails at the integer
five under such a type, and so do packing and replacing it. -/
theorem storage_corrupt_by_unnamed_type :
    unnamedFive.Reachable ∧
      unnamedFive.table.check = .error (.corruptField (.dynamic .bits8)) ∧
      unnamedFive.step .optimize = .error (.corruptField (.dynamic .bits8)) ∧
      unnamedFive.Admits (.setField ⟨0, 0, 0, 0, 1⟩ 0 .plainNull) ∧
      unnamedFive.step (.setField ⟨0, 0, 0, 0, 1⟩ 0 .plainNull) =
        .error (.corruptField (.dynamic .bits8)) := by
  have hoptimize : unnamedFive.table.optimize = .error (.corruptField (.dynamic .bits8)) := by
    decide +kernel
  refine ⟨reachable_unnamedFive, by decide +kernel, ?_, ⟨List.mem_singleton_self _, trivial⟩, rfl⟩
  rw [step, hoptimize]
  rfl

end Session

end RecordStore
