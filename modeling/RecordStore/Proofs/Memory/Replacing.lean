import Mathlib
import RecordStore.Proofs.Memory.Frame
import RecordStore.Proofs.Memory.Slack

/-!
# A field that is replaced, and what is around it

In every table in use, wherever it lies in memory, replacing a field of a record changes this field
only. The other fields of the record and all other records keep their bytes and their order. The
record keeps its size and its place as long as it has room, and then no byte around it changes; else
it grows with the field and keeps its slack. Where there is no such record or column, nothing
changes at all. Only in a record that is not legible a field cannot be replaced.
-/

namespace RecordStore

open Table (Block Buffer Chunk Cursor Edited)
open Table.Block (contents)
open Record (Stored headerBytes)

variable {types : List ValueType}

/-! ### Tables in memory -/

namespace Table.Chunk

lemma head_le_tail (c : Chunk) : c.head ≤ c.tail := Nat.le_add_right _ _

lemma tail_le_length (c : Chunk) :
    c.tail ≤ (Bytes.zeros c.head ++ (c.live ++ Bytes.zeros (c.capacity - c.tail))).length := by
  simp only [tail, List.length_append, Bytes.length_zeros]
  omega

end Table.Chunk

namespace Table.Buffer

/-- A buffer in which zeros are around the records of a chunk. -/
def ofChunk (c : Chunk) : Buffer where
  data := .zeros c.head ++ (c.live ++ .zeros (c.capacity - c.tail))
  head := c.head
  tail := c.tail
  numRecords := c.numRecords
  head_le := c.head_le_tail
  tail_le := c.tail_le_length

lemma chunk_ofChunk {c : Chunk} (h : c.tail ≤ c.capacity) : (ofChunk c).chunk = c := by
  have hlive : (ofChunk c).live = c.live := Bytes.slice_append _ (Bytes.length_zeros _) rfl
  have hlength : (ofChunk c).data.length = c.capacity := by
    rw [Chunk.tail] at h
    simp only [ofChunk, Chunk.tail, List.length_append, Bytes.length_zeros]
    omega
  rw [chunk, hlive, hlength]
  rfl

end Table.Buffer

/-- A table laid into memory. -/
def Memory.ofTable (t : Table) : Memory where
  schema := t.schema
  buffers := t.chunks.map Buffer.ofChunk
  numRecords := t.numRecords
  config := t.config
  generation := t.generation
  compact := t.compact

lemma Memory.table_ofTable {t : Table} (h : ∀ c ∈ t.chunks, c.tail ≤ c.capacity) :
    (Memory.ofTable t).table = t := by
  have hchunks : (t.chunks.map Buffer.ofChunk).map Buffer.chunk = t.chunks := by
    rw [List.map_map]
    exact (List.map_congr_left fun c hc => Buffer.chunk_ofChunk (h c hc)).trans (List.map_id _)
  rw [table, ofTable, hchunks]

/-- Every table in use can lie in memory. -/
lemma Session.Reachable.exists_resident {s : Session} (hs : s.Reachable) :
    ∃ r : Resident, r.session = s := by
  obtain ⟨types, blocks, h⟩ := hs.sound
  refine ⟨⟨.ofTable s.table, s.cursors⟩, ?_⟩
  rw [Resident.session, Memory.table_ofTable]
  intro c hc
  rw [h.holds.chunks_eq] at hc
  obtain ⟨b, -, rfl⟩ := List.mem_map.mp hc
  exact b.room

/-! ### The records around a field -/

/-- All records in order, slack included. -/
def Table.storedRecords (t : Table) : Except Fault (List Bytes) :=
  List.flatten <$> t.chunks.mapM Chunk.records

lemma Table.Holds.storedRecords_eq {t : Table} {blocks : List (Block types)} (h : t.Holds blocks) :
    t.storedRecords = .ok ((contents blocks).map Stored.bytes) := by
  obtain ⟨records, hrecords, hflatten⟩ := h.mapM_records
  rw [storedRecords, hrecords, ← hflatten]
  rfl

/-- The records in front of one of them, and those behind it. -/
lemma Table.Holds.storedRecords_around {t : Table} {blocks : List (Block types)}
    (h : t.Holds blocks) {index : Nat} {r : Stored types}
    (hr : (contents blocks)[index]? = some r) :
    t.storedRecords = .ok (((contents blocks).take index).map Stored.bytes ++
      r.bytes :: ((contents blocks).drop (index + 1)).map Stored.bytes) := by
  obtain ⟨hlt, hget⟩ := List.getElem?_eq_some_iff.mp hr
  have hsplit : r :: (contents blocks).drop (index + 1) = (contents blocks).drop index := by
    rw [List.drop_eq_getElem_cons hlt, hget]
  rw [h.storedRecords_eq, ← List.map_cons, hsplit, ← List.map_append, List.take_append_drop]

/-- The record at the cursor has got another field in the column, and all else is as it was. -/
structure Memory.Replaces (m : Memory) (c : Cursor) (column : Nat) (field : Bytes)
    (fields : List Bytes) (record record' : Bytes) (result : Memory × Cursor) : Prop where
  schema_eq : result.1.schema = m.schema
  numRecords_eq : result.1.numRecords = m.numRecords
  index_eq : result.2.index = c.index
  record_eq : m.table.record c = .ok record
  record_eq' : result.1.table.record result.2 = .ok record'
  /-- The other records. -/
  others_eq : ∃ before after, before.length = c.index ∧
    m.table.storedRecords = .ok (before ++ record :: after) ∧
    result.1.table.storedRecords = .ok (before ++ record' :: after)
  fields_eq : Record.storedFields m.schema.types record = .ok fields
  isRecord' : ∃ slack, Record.IsRecord m.schema.types record' (fields.set column field) slack
  /-- If the new field is legible, all fields are found again. -/
  fields_eq' : (∀ type, m.schema.type? column = some type → Field.Legible type field) →
    Record.storedFields m.schema.types record' = .ok (fields.set column field)
  /-- If the record has room, it stays where it is, and nothing around it is touched. -/
  fits : headerBytes + (fields.set column field).flatten.length ≤ record.length →
    record'.length = record.length ∧ result.2 = { c with generation := m.generation + 1 } ∧
      m.SameAround c record.length result.1
  /-- Else it grows as the field does, and its slack is kept. -/
  grows : record.length < headerBytes + (fields.set column field).flatten.length →
    record'.length + ((fields[column]?).getD []).length = record.length + field.length ∧
      ∃ slack, record.length = headerBytes + fields.flatten.length + slack ∧
        record'.length = headerBytes + (fields.set column field).flatten.length + slack

namespace Record.Stored

variable {r r' : Stored types} {column : Nat} {old field : Bytes}

/-- The size of the fields with another one among them. -/
lemma dataSize_sub_add (r : Stored types) (hold : r.fields[column]? = some old) (field : Bytes) :
    r.dataSize - old.length + field.length =
      headerBytes + (r.fields.set column field).flatten.length := by
  have hset := r.length_flatten_set hold field
  have hle := length_le_of_getElem? hold
  rw [dataSize]
  omega

/-- A changed record keeps its size where it has room. -/
lemma IsChanged.size_of_fits (h : r.IsChanged column field r') (hold : r.fields[column]? = some old)
    (hfits : headerBytes + (r.fields.set column field).flatten.length ≤ r.size) :
    r'.size = r.size := by
  rw [h.size_eq, hold, sizeWith]
  refine if_neg (Nat.not_lt.mpr ?_)
  rw [Option.getD_some, r.dataSize_sub_add hold]
  exact hfits

/-- A changed record grows as its field does where it has no room. -/
lemma IsChanged.size_of_grows (h : r.IsChanged column field r')
    (hold : r.fields[column]? = some old)
    (hgrows : r.size < headerBytes + (r.fields.set column field).flatten.length) :
    r'.size + old.length = r.size + field.length := by
  have hle := length_le_of_getElem? hold
  have hdata : r.size = headerBytes + r.fields.flatten.length + r.slack.length := rfl
  rw [h.size_eq, hold, sizeWith, if_pos]
  · rw [Option.getD_some]
    omega
  · rw [Option.getD_some, r.dataSize_sub_add hold]
    exact hgrows

end Record.Stored

/-- Where a stored record has room for the new field, nothing around it is touched. -/
lemma Memory.sameAround_of_fits {m : Memory} {blocks : List (Block types)}
    (h : m.table.Holds blocks) {c : Cursor} (hcurrent : m.table.isCurrent c = true)
    (hseated : Table.Seated blocks c) {stored : Stored types}
    (hr : (contents blocks)[c.index]? = some stored) (legible : stored.Legible) {column : Nat}
    {value : Value} {type : ValueType} (htype : types[column]? = some type)
    (hnull : type.isNull = false)
    {result : Memory × Cursor} (hrun : m.setField c column value = .ok result)
    (hfits : headerBytes +
      (stored.fields.set column (Field.encode type (value.convertTo type))).flatten.length ≤
        stored.bytes.length) :
    result.2 = { c with generation := m.generation + 1 } ∧
      m.SameAround c stored.bytes.length result.1 := by
  have htypes : m.schema.types = types := h.types_eq
  have hvalid : m.table.isValid c = true :=
    (h.isValid_iff fun _ => hseated).mpr
      ⟨hcurrent, hseated, (List.getElem?_eq_some_iff.mp hr).1⟩
  have hcolumn : m.schema.type? column = some type := by rw [Schema.type?_eq, htypes, htype]
  have hstart : Record.fieldOffset m.schema.types stored.bytes column =
      .ok (headerBytes + (stored.fields.take column).flatten.length) := by
    rw [htypes, Stored.fieldOffset_bytes legible]
  have hend : Record.dataSize m.schema.types stored.bytes = .ok stored.dataSize := by
    rw [htypes, Stored.dataSize_bytes legible]
  obtain ⟨old, hold, -⟩ := stored.exists_field htype
  refine Memory.sameAround_setField hrun hvalid hcolumn hnull (h.record_eq hseated hr) hstart
    (Stored.fieldSize_bytes legible htype hold) hend ?_
  rw [stored.dataSize_sub_add hold]
  exact hfits

namespace Resident

open Session (pushedText unnamedFive reachable_unnamedFive)

variable {r : Resident} {blocks : List (Block types)} {c : Cursor} {column : Nat} {value : Value}
  {type : ValueType}

/-- Replacing a field is a change of one record in its place. -/
lemma replaces_of_edited (h : r.session.Sound blocks) (hadmits : r.session.Admits
      (.setField c column value)) (hcurrent : r.memory.table.isCurrent c = true)
    {stored stored' : Stored types} (hr : (contents blocks)[c.index]? = some stored)
    (legible : stored.Legible) (htype : types[column]? = some type) {result : Memory × Cursor}
    (hrun : r.memory.setField c column value = .ok result)
    (hchanged : stored.IsChanged column (Field.encode type (value.convertTo type)) stored')
    (hedited : Edited r.memory.table c ((contents blocks).set c.index stored')
      (Memory.seen result)) :
    r.memory.Replaces c column (Field.encode type (value.convertTo type)) stored.fields
      stored.bytes stored'.bytes result := by
  have hlt := (List.getElem?_eq_some_iff.mp hr).1
  have hseated := h.seated c hadmits.1 hcurrent
  have htypes : r.memory.schema.types = types := h.holds.types_eq
  have hschema : result.1.schema = r.memory.schema := hedited.schema_eq
  obtain ⟨old, hold, -⟩ := stored.exists_field htype
  obtain ⟨blocks', hholds, hcontents, hseated'⟩ := hedited.layout
  have hindex : result.2.index = c.index := hedited.index_eq
  have hr' : (contents blocks')[c.index]? = some stored' := by
    rw [hcontents, List.getElem?_set_self hlt]
  refine ⟨hschema, ?_, hindex, h.holds.record_eq hseated hr,
    hholds.record_eq hseated' (hindex ▸ hr'), ?_, ?_, ?_, ?_, ?_, ?_⟩
  · have hcount : result.1.numRecords = (contents blocks').length := hholds.count_eq
    rw [hcount, hcontents, List.length_set]
    exact h.holds.count_eq.symm
  · have hafter := hholds.storedRecords_around hr'
    rw [hcontents, List.take_set_of_le le_rfl, List.drop_set_of_lt (Nat.lt_succ_self _)] at hafter
    refine ⟨_, _, ?_, h.holds.storedRecords_around hr, hafter⟩
    rw [List.length_map, List.length_take, Nat.min_eq_left hlt.le]
  · rw [htypes, Stored.storedFields_bytes legible]
  · rw [htypes, ← hchanged.fields_eq]
    exact ⟨_, stored'.isRecord⟩
  · intro hfield
    have hcolumn := (h.holds.type?_eq column).trans htype
    have legible' := (hchanged.legible_iff htype legible).mpr (hfield type hcolumn)
    rw [htypes, Stored.storedFields_bytes legible', hchanged.fields_eq]
  · intro hfits
    refine ⟨?_, Memory.sameAround_of_fits h.holds hcurrent hseated hr legible htype
      (h.isNull_eq_false type (List.mem_of_getElem? htype)) hrun hfits⟩
    rw [stored.length_bytes] at hfits
    rw [stored'.length_bytes, stored.length_bytes, hchanged.size_of_fits hold hfits]
  · intro hgrows
    rw [stored.length_bytes] at hgrows
    have hsize := hchanged.size_of_grows hold hgrows
    have hset := stored.length_flatten_set hold (Field.encode type (value.convertTo type))
    have hslack : stored.size = headerBytes + stored.fields.flatten.length + stored.slack.length :=
      rfl
    rw [stored'.length_bytes, stored.length_bytes, hold, Option.getD_some]
    exact ⟨hsize, stored.slack.length, hslack, by omega⟩

/-- A table in use can lie in memory. Wherever it does, replacing a field through a cursor that is
at no record, or in a column that is not there, leaves the whole memory as it is. Else the field is
replaced in the record at the cursor, and all other fields and records are as they were, unless the
record would get too large or the type of a field is not told, which does not happen in a table that
passes its check and to a value whose type its column tells. -/
theorem replaced_field_frame {s : Session} (hs : s.Reachable) :
    (∃ r : Resident, r.session = s) ∧
    ∀ r : Resident, r.session = s → ∀ c column value,
      (r.memory.table.isValid c = false ∨ r.memory.schema.type? column = none →
        r.memory.setField c column value = .ok (r.memory, c)) ∧
      ∀ type, r.memory.table.isValid c = true → r.memory.schema.type? column = some type →
        s.Admits (.setField c column value) →
        (∃ fields record record' result, r.memory.setField c column value = .ok result ∧
          r.memory.Replaces c column (Field.encode type (value.convertTo type)) fields record
            record' result) ∨
          s.Fails (.setField c column value) := by
  refine ⟨hs.exists_resident, ?_⟩
  rintro r rfl c column value
  refine ⟨fun hnone => Memory.setField_eq_self hnone value, ?_⟩
  intro type hvalid hcolumn hadmits
  obtain ⟨types, blocks, h⟩ := hs.sound
  obtain ⟨hcurrent, hseated, hlt⟩ := (h.holds.isValid_iff (h.seated c hadmits.1)).mp hvalid
  have htype : types[column]? = some type := (h.holds.type?_eq column).symm.trans hcolumn
  have hstored := List.getElem?_eq_getElem hlt
  have hyields := h.setField_yields hadmits hcurrent hstored htype
  refine (h.exists_or_fails hyields rfl).imp_left ?_
  rintro ⟨seen, hseen, legible, stored', hchanged, hedited⟩
  obtain ⟨result, hrun, rfl⟩ := exists_of_map_ok ((r.memory.map_setField c column value).trans
    hseen)
  exact ⟨_, _, _, result, hrun,
    replaces_of_edited h hadmits hcurrent hstored legible htype hrun hchanged hedited⟩

/-- A text in front of which bytes of a removed one are still there. A text that takes up its slack
touches nothing else, and one byte more makes the record grow by three. Through a cursor of an
earlier generation nothing is done. -/
theorem replaced_field_frame_where_text_was :
    (∃ b ∈ reused.memory.buffers, b.data.take b.head = [13, 0, 0, 0, 8, 97]) ∧
      (∃ record record' result,
        reused.memory.setField ⟨0, 0, 0, 6, 4⟩ 0 (.string .bits8 [97, 98]) = .ok result ∧
        reused.memory.Replaces ⟨0, 0, 0, 6, 4⟩ 0 [2, 97, 98] [[0]] record record' result ∧
        record'.length = 7 ∧ reused.memory.SameAround ⟨0, 0, 0, 6, 4⟩ 7 result.1) ∧
      (∃ record record' result,
        reused.memory.setField ⟨0, 0, 0, 6, 4⟩ 0 (.string .bits8 [97, 98, 99]) = .ok result ∧
        reused.memory.Replaces ⟨0, 0, 0, 6, 4⟩ 0 [3, 97, 98, 99] [[0]] record record' result ∧
        record'.length = 10) ∧
      reused.memory.setField ⟨0, 0, 0, 13, 3⟩ 0 (.string .bits8 [97]) =
        .ok (reused.memory, ⟨0, 0, 0, 13, 3⟩) ∧
      ∃ r : Resident, r.session = pushedText := by
  obtain ⟨-, hframe⟩ := replaced_field_frame built_reused.session.reachable
  obtain ⟨hresident, -⟩ := replaced_field_frame Session.built_pushedText.reachable
  have hcursor : (⟨0, 0, 0, 6, 4⟩ : Cursor) ∈ reused.session.cursors := List.mem_cons_self
  refine ⟨⟨_, List.mem_cons_self, rfl⟩, ?_, ?_, (hframe reused rfl _ _ _).1 (.inl rfl), hresident⟩
  · rcases (hframe reused rfl ⟨0, 0, 0, 6, 4⟩ 0 (.string .bits8 [97, 98])).2 _ rfl rfl
      ⟨hcursor, by decide⟩ with ⟨fields, record, record', result, hrun, h⟩ |
        ⟨_, -, -, hfails⟩ | ⟨-, _, hfails⟩
    · obtain rfl : [7, 0, 0, 0, 0, 0, 0] = record := Except.ok.inj h.record_eq
      obtain rfl : [[0]] = fields := Except.ok.inj h.fields_eq
      obtain ⟨hlength, -, haround⟩ := h.fits (by decide)
      exact ⟨_, _, result, hrun, h, hlength, haround⟩
    · cases hfails
    · cases hfails
  · rcases (hframe reused rfl ⟨0, 0, 0, 6, 4⟩ 0 (.string .bits8 [97, 98, 99])).2 _ rfl rfl
      ⟨hcursor, by decide⟩ with ⟨fields, record, record', result, hrun, h⟩ |
        ⟨_, -, -, hfails⟩ | ⟨-, _, hfails⟩
    · obtain rfl : [7, 0, 0, 0, 0, 0, 0] = record := Except.ok.inj h.record_eq
      obtain rfl : [[0]] = fields := Except.ok.inj h.fields_eq
      obtain ⟨hlength, -⟩ := h.grows (by decide)
      exact ⟨_, _, result, hrun, h, Nat.add_right_cancel hlength⟩
    · cases hfails
    · cases hfails

/-- In the record of the integer five under a type with a flag that has no name, no field is
replaced, wherever it lies in memory. -/
theorem no_field_replaced_behind_unnamed_type :
    ∃ r : Resident, r.session.Reachable ∧ r.memory.table.isValid ⟨0, 0, 0, 0, 1⟩ = true ∧
      r.memory.schema.type? 0 = some (.dynamic .bits8) ∧
      r.session.Admits (.setField ⟨0, 0, 0, 0, 1⟩ 0 .plainNull) ∧
      r.memory.setField ⟨0, 0, 0, 0, 1⟩ 0 .plainNull =
        .error (.corruptField (.dynamic .bits8)) := by
  obtain ⟨r, hr⟩ := reachable_unnamedFive.exists_resident
  have htable : r.memory.table = unnamedFive.table := congrArg Session.table hr
  have hschema : r.memory.schema = unnamedFive.table.schema := congrArg Table.schema htable
  have hset := r.memory.map_setField ⟨0, 0, 0, 0, 1⟩ 0 .plainNull
  have hfails : unnamedFive.table.setField ⟨0, 0, 0, 0, 1⟩ 0 .plainNull =
      .error (.corruptField (.dynamic .bits8)) := rfl
  refine ⟨r, ?_⟩
  rw [hr, htable, hschema]
  refine ⟨reachable_unnamedFive, rfl, rfl, ⟨List.mem_singleton_self _, trivial⟩, ?_⟩
  rw [htable, hfails] at hset
  cases hrun : r.memory.setField ⟨0, 0, 0, 0, 1⟩ 0 .plainNull with
  | error fault =>
    rw [hrun] at hset
    exact congrArg Except.error (Except.error.inj hset)
  | ok result =>
    rw [hrun] at hset
    cases hset

end Resident

end RecordStore
