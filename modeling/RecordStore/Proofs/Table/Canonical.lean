import Mathlib
import RecordStore.Proofs.Table.Codec
import RecordStore.Proofs.Table.Walk

/-!
# The packed form

The stored rows of a table are the bytes of its fields, record by record; in a dynamic column these
start with the tag of the value. Packing lays them out by the size of a chunk and by nothing else,
so two tables with the same stored rows are packed to the same chunks and written as the same bytes.
-/

namespace RecordStore

/-! ### Stored rows -/

namespace Record

/-- The bytes of the fields of a record, column by column. -/
def storedFields (types : List ValueType) (record : Bytes) : Except Fault (List Bytes) :=
  types.zipIdx.mapM fun (type, column) => do
    let start ← fieldOffset types record column
    let size ← Field.size type (record.drop start)
    return (record.drop start).take size

namespace Stored

variable {types : List ValueType}

/-- A field is cut out of its record, if it and those in front of it are legible. -/
lemma storedField_cases (r : Stored types) {column : Nat} {type : ValueType} {field : Bytes}
    (htype : types[column]? = some type) (hfield : r.fields[column]? = some field) :
    (do
      let start ← fieldOffset types r.bytes column
      let size ← Field.size type (r.bytes.drop start)
      return (r.bytes.drop start).take size) = .ok field ∧ Field.Legible type field ∨
      ¬ r.Legible ∧ Garbled (do
        let start ← fieldOffset types r.bytes column
        let size ← Field.size type (r.bytes.drop start)
        return (r.bytes.drop start).take size) := by
  have hisField := rel_of_getElem? r.isField htype hfield
  rcases r.fieldOffset_bytes_cases column with ⟨-, hoffset⟩ | ⟨hillegible, hgarbled⟩
  · rw [hoffset, ok_bind, bytes,
      drop_append_of_getElem? (LittleEndian.length_encode _ _) hfield, Field.size]
    by_cases hlegible : Field.Legible type field
    · rw [Field.size?_append hisField hlegible]
      refine .inl ⟨?_, hlegible⟩
      rw [ok_bind, List.take_left]
      rfl
    · rw [Field.size?_eq_none hisField hlegible]
      exact .inr ⟨fun hall => hlegible (rel_of_getElem? hall htype hfield), type, rfl⟩
  · exact .inr ⟨fun hall => hillegible (List.forall₂_take column hall), hgarbled.bind _⟩

lemma storedFields_bytes {r : Stored types} (legible : r.Legible) :
    storedFields types r.bytes = .ok r.fields := by
  rw [storedFields, mapM_ok (g := fun p => (r.fields[p.2]?).getD [])]
  · congr 1
    apply List.ext_getElem
    · rw [List.length_map, List.length_zipIdx, r.length_fields]
    · intro i hi hi'
      rw [List.getElem_map, List.getElem_zipIdx, Nat.zero_add, List.getElem?_eq_getElem hi']
      rfl
  · rintro ⟨type, column⟩ hmem
    have htype : types[column]? = some type := List.mk_mem_zipIdx_iff_getElem?.mp hmem
    obtain ⟨field, hfield, -⟩ := r.exists_field htype
    rcases r.storedField_cases htype hfield with ⟨hrun, -⟩ | ⟨hillegible, -⟩
    · rw [hfield]
      exact hrun
    · exact absurd legible hillegible

lemma garbled_storedFields {r : Stored types} (illegible : ¬ r.Legible) :
    Garbled (storedFields types r.bytes) := by
  refine mapM_garbled ?_ ?_
  · rintro ⟨type, column⟩ hmem
    have htype : types[column]? = some type := List.mk_mem_zipIdx_iff_getElem?.mp hmem
    obtain ⟨field, hfield, -⟩ := r.exists_field htype
    exact (r.storedField_cases htype hfield).imp (fun hrun => ⟨field, hrun.1⟩) And.right
  · -- If no field were garbled, all of them would be legible.
    by_contra hnone
    refine illegible (List.forall₂_iff_get.mpr ⟨r.length_fields.symm, fun column hlt hlt' => ?_⟩)
    have htype := List.getElem?_eq_getElem hlt
    rcases r.storedField_cases htype (List.getElem?_eq_getElem hlt') with
      ⟨-, hlegible⟩ | ⟨-, hgarbled⟩
    · exact hlegible
    · exact absurd ⟨_, List.mk_mem_zipIdx_iff_getElem?.mpr htype, hgarbled⟩ hnone

end Stored

end Record

namespace Table

open Record
open Block (contents)

/-- The fields of all rows as they are stored, without headers and slack. -/
def storedRows (t : Table) : Except Fault (List (List Bytes)) := do
  (← t.rows.cursors).mapM fun c => do storedFields t.schema.types (← t.record c)

variable {types : List ValueType} {t t' : Table} {blocks blocks' : List (Block types)}

/-- The stored rows are those of the records, unless a record is not legible. -/
lemma Holds.storedRows_cases (h : t.Holds blocks) :
    (∀ r ∈ contents blocks, r.Legible) ∧
        t.storedRows = .ok ((contents blocks).map Stored.fields) ∨
      (¬ ∀ r ∈ contents blocks, r.Legible) ∧ Garbled t.storedRows := by
  have hrow : ∀ i r, (contents blocks)[i]? = some r →
      (do storedFields t.schema.types (← t.record (seat blocks t.generation i))) =
        storedFields types r.bytes := by
    intro i r hr
    have hlt := (List.getElem?_eq_some_iff.mp hr).1
    rw [h.record_eq (seated_seat t.generation hlt.le) hr, ok_bind, h.types_eq]
  by_cases legible : ∀ r ∈ contents blocks, r.Legible
  · refine .inl ⟨legible, h.mapM_rows fun c r _ hc hr => ?_⟩
    rw [h.record_eq hc hr, ok_bind, h.types_eq,
      Stored.storedFields_bytes (legible r (List.mem_of_getElem? hr))]
  · refine .inr ⟨legible, ?_⟩
    rw [storedRows, h.cursors_eq, ok_bind]
    refine mapM_garbled ?_ ?_
    · intro c hc
      obtain ⟨i, hi, rfl⟩ := List.mem_map.mp hc
      have hlt := List.mem_range.mp hi
      rw [hrow i _ (List.getElem?_eq_getElem hlt)]
      by_cases hlegible : (contents blocks)[i].Legible
      · exact .inl ⟨_, Stored.storedFields_bytes hlegible⟩
      · exact .inr (Stored.garbled_storedFields hlegible)
    · obtain ⟨r, hr, hlegible⟩ : ∃ r ∈ contents blocks, ¬ r.Legible := by simpa using legible
      obtain ⟨i, hi⟩ := List.mem_iff_getElem?.mp hr
      refine ⟨_, List.mem_map_of_mem (List.mem_range.mpr (List.getElem?_eq_some_iff.mp hi).1), ?_⟩
      rw [hrow i r hi]
      exact Stored.garbled_storedFields hlegible

lemma Holds.storedRows_eq (h : t.Holds blocks) (legible : ∀ r ∈ contents blocks, r.Legible) :
    t.storedRows = .ok ((contents blocks).map Stored.fields) := by
  rcases h.storedRows_cases with ⟨-, hrows⟩ | ⟨hillegible, -⟩
  · exact hrows
  · exact absurd legible hillegible

/-- Rows that are told are those of the records, and all of these are legible. -/
lemma Holds.eq_of_storedRows (h : t.Holds blocks) {rows : List (List Bytes)}
    (hrows : t.storedRows = .ok rows) :
    (∀ r ∈ contents blocks, r.Legible) ∧ rows = (contents blocks).map Stored.fields := by
  rcases h.storedRows_cases with ⟨legible, hfields⟩ | ⟨-, hgarbled⟩
  · exact ⟨legible, Except.ok.inj (hrows.symm.trans hfields)⟩
  · exact absurd hrows (hgarbled.ne_ok rows)

/-- Records with the same fields are the same without slack. -/
lemma map_bytes_trim_congr {records records' : List (Stored types)}
    (h : records.map Stored.fields = records'.map Stored.fields) :
    (records.map fun r => r.trim.bytes) = records'.map fun r => r.trim.bytes := by
  have hfields : ∀ l : List (Stored types), (l.map fun r => r.trim.bytes) =
      (l.map Stored.fields).map fun fields =>
        LittleEndian.encode headerBytes (headerBytes + fields.flatten.length) ++
          fields.flatten := by
    intro l
    rw [List.map_map]
    exact List.map_congr_left fun r _ => r.bytes_trim
  rw [hfields, hfields, h]

/-! ### Packed tables -/

/-- The chunks are those that packing makes of their records. -/
def IsPacked (t : Table) : Prop :=
  ∃ records, t.chunks.mapM Chunk.records = .ok records ∧
    t.chunks = pack t.config.chunkSize records.flatten

lemma isPacked_of_chunks_eq_nil (h : t.chunks = []) : t.IsPacked := by
  refine ⟨[], ?_, ?_⟩
  · rw [h]
    rfl
  · rw [h]
    rfl

namespace Holds

lemma isPacked_iff (h : t.Holds blocks) :
    t.IsPacked ↔ t.chunks = pack t.config.chunkSize ((contents blocks).map Stored.bytes) := by
  obtain ⟨records, hrecords, hflatten⟩ := h.mapM_records
  rw [← hflatten]
  constructor
  · rintro ⟨records', hrecords', hchunks⟩
    obtain rfl := Except.ok.inj (hrecords.symm.trans hrecords')
    exact hchunks
  · intro hchunks
    exact ⟨records, hrecords, hchunks⟩

/-- Packing leaves a packed table. -/
lemma isPacked_optimize (h : t.Holds blocks) (hcompact : t.compact = false)
    (hrun : t.optimize = .ok t') : t'.IsPacked := by
  have legible := h.legible_of_optimize hcompact hrun
  obtain ⟨blocks', hchunks, hholds, hpacked⟩ := h.exists_pack legible
  obtain rfl := Except.ok.inj (hrun.symm.trans (h.optimize_eq_pack legible hcompact))
  rw [hchunks, hholds.isPacked_iff, hpacked.contents_eq, List.map_map]
  exact hchunks.symm

/-- Whether it is packed now or has been before, a table is written in its packed form. -/
theorem exists_write (h : t.Holds blocks) (legible : ∀ r ∈ contents blocks, r.Legible)
    (hdense : t.compact = true → ∀ r ∈ contents blocks, r.slack = [])
    (hpacked : t.compact = true → t.IsPacked) :
    ∃ packed, (∀ sink, t.write sink = .ok (packed, packed.writeAsIs sink)) ∧
      packed.schema = t.schema ∧
      packed.chunks = pack t.config.chunkSize ((contents blocks).map fun r => r.trim.bytes) := by
  cases hcompact : t.compact with
  | false => exact ⟨_, fun sink => write_eq (h.optimize_eq_pack legible hcompact) sink, rfl, rfl⟩
  | true =>
    refine ⟨t, fun sink => write_eq (optimize_of_compact hcompact) sink, rfl, ?_⟩
    rw [h.isPacked_iff.mp (hpacked hcompact)]
    congr 1
    refine List.map_congr_left fun r hr => ?_
    rw [Stored.trim_of_slack_eq_nil (hdense hcompact r hr)]

end Holds

/-- Only the schema and the chunks of a table are written. -/
lemma writeAsIs_congr (hschema : t.schema = t'.schema) (hchunks : t.chunks = t'.chunks) :
    t.writeAsIs = t'.writeAsIs := by
  rw [writeAsIs, writeAsIs, hschema, hchunks]

end Table

end RecordStore
