import Mathlib
import RecordStore.Proofs.Table.Room
import RecordStore.Proofs.Table.Walk
import RecordStore.Table.Edit

/-!
# Changes to a sound table

A change does to the list of records what its name says, at the index of its cursor. The table is
sound again in a new generation, and the cursor is seated in it at the index that it had. A change
fails where it asks for a record that is too large, where it reads a field that is not legible, and
where the table checks its records and the change would leave it one that is not legible.
-/

namespace RecordStore.Table

open Record
open Block (contents)

variable {types : List ValueType} {t : Table} {blocks : List (Block types)} {c : Cursor}

/-- What a change leaves: a sound table of the records in the next generation, and its cursor. -/
structure Edited (t : Table) (c : Cursor) (records : List (Stored types))
    (result : Table × Cursor) : Prop where
  layout : ∃ blocks, result.1.Holds blocks ∧ contents blocks = records ∧ Seated blocks result.2
  schema_eq : result.1.schema = t.schema
  config_eq : result.1.config = t.config
  generation_eq : result.1.generation = t.generation + 1
  compact_eq : result.1.compact = false
  index_eq : result.2.index = c.index
  current : result.1.isCurrent result.2 = true

/-- The resizing that makes room for another field in a column of the record at the cursor. -/
def fieldRoom (t : Table) (c : Cursor) (column : Nat) (field : Bytes) : Except Fault Resizing := do
  let some type := t.schema.type? column | throw .outOfBounds
  let record ← t.record c
  let start ← Record.fieldOffset t.schema.types record column
  let old ← Field.size type (record.drop start)
  let dataEnd ← Record.dataSize t.schema.types record
  let grown := record.length - old + field.length
  let size := if record.length < dataEnd - old + field.length then grown else record.length
  return ⟨t, c, record.length, size⟩

/-- A table that checks its records finds one that is not legible. -/
lemma Laid.garbled_touchAt (h : t.Laid blocks) (hchecks : t.config.checkInvariants = true)
    (illegible : ¬ ∀ r ∈ contents blocks, r.Legible) (c : Cursor) : Garbled (t.touchAt c) := by
  have hlaid : Laid { t with generation := t.generation + 1, compact := false } blocks :=
    ⟨h.types_eq, h.chunks_eq, h.count_eq⟩
  have hcheck := hlaid.garbled_check illegible
  rw [touchAt, touch]
  simp only [hchecks, if_true]
  exact (hcheck.bind _).bind _

namespace Holds

/-- A new generation of a sound table. -/
lemma touch_eq (h : t.Holds blocks) :
    t.touch = .ok { t with generation := t.generation + 1, compact := false } := by
  rw [touch]
  by_cases hchecks : t.config.checkInvariants = true
  · have hlaid : Laid { t with generation := t.generation + 1, compact := false } blocks :=
      ⟨h.types_eq, h.chunks_eq, h.count_eq⟩
    have hcheck := hlaid.check_eq (h.checked hchecks)
    simp only [hchecks, if_true, hcheck]
    rfl
  · simp only [hchecks]
    rfl

lemma touchAt_eq (h : t.Holds blocks) (c : Cursor) :
    t.touchAt c = .ok ({ t with generation := t.generation + 1, compact := false },
      { c with generation := t.generation + 1 }) := by
  rw [touchAt, h.touch_eq]
  rfl

/-- A change that leaves a sound table and a seated cursor. -/
lemma edited_touchAt {t' : Table} (h : t'.Holds blocks) (hc : Seated blocks c)
    {d : Cursor} (hindex : c.index = d.index) (hschema : t'.schema = t.schema)
    (hconfig : t'.config = t.config) (hgeneration : t'.generation = t.generation) :
    ∃ result, t'.touchAt c = .ok result ∧ result.1.chunks = blocks.map Block.chunk ∧
      Edited t d (contents blocks) result := by
  refine ⟨_, h.touchAt_eq c, h.chunks_eq, ?_⟩
  refine ⟨⟨blocks, ⟨⟨h.types_eq, h.chunks_eq, h.count_eq⟩, h.checked⟩, rfl, ?_⟩, hschema, hconfig,
    ?_, rfl, hindex, ?_⟩
  · exact hc.carry _
  · exact congrArg (· + 1) hgeneration
  · exact isCurrent_iff.mpr rfl

/-- A change that leaves a record in place of the open middle, and no other that was not there. -/
lemma edited_close (h : t.Holds blocks) {t' : Table} (o : Opening types) (r : Stored types)
    (hothers : ∀ r' ∈ o.ahead ++ o.behind, r' ∈ contents blocks)
    (hlength : o.middle.length = r.size) (hchunks : t'.chunks = (o.close r hlength).map Block.chunk)
    (hcount : t'.numRecords = (o.ahead ++ r :: o.behind).length)
    (hindex : c.index = o.ahead.length) (hschema : t'.schema = t.schema)
    (hconfig : t'.config = t.config) (hgeneration : t'.generation = t.generation)
    {asks : Nat → Prop} :
    Yields asks (t.config.checkInvariants = true ∧ ¬ r.Legible)
      (fun result => result.1.chunks = (o.close r hlength).map Block.chunk ∧
        Edited t c (o.ahead ++ r :: o.behind) result)
      (t'.touchAt (o.seat c)) := by
  have hcontents := o.contents_close r hlength
  have hlaid : t'.Laid (o.close r hlength) := by
    refine ⟨?_, hchunks, ?_⟩
    · rw [hschema]
      exact h.types_eq
    · rw [hcontents]
      exact hcount
  by_cases hbad : t.config.checkInvariants = true ∧ ¬ r.Legible
  · refine .of_garbled (hlaid.garbled_touchAt (hconfig ▸ hbad.1) ?_ _) hbad
    rw [hcontents]
    exact fun hall => hbad.2 (hall r (by simp))
  · have hholds : t'.Holds (o.close r hlength) := by
      refine ⟨hlaid, fun hchecks => ?_⟩
      rw [hcontents]
      intro r' hr'
      rw [hconfig] at hchecks
      rcases List.mem_append.mp hr' with hmem | hmem
      · exact h.checked hchecks r' (hothers r' (List.mem_append_left _ hmem))
      · rcases List.mem_cons.mp hmem with rfl | hmem
        · by_contra hillegible
          exact hbad ⟨hchecks, hillegible⟩
        · exact h.checked hchecks r' (hothers r' (List.mem_append_right _ hmem))
    have hseated := o.seated_close r hlength hindex
    rw [← hcontents]
    exact .of_exists (edited_touchAt hholds hseated rfl hschema hconfig hgeneration)

/-! ### Inserting -/

/-- Once there is room for a new record, it is written there. -/
lemma insert_eq_write (h : t.Holds blocks) (hposition : t.isPosition c = true)
    {values : List Value} {o : Opening types}
    (hroom : t.makeRoom c (reserveSize types values t.config.minStringReserve) =
      .ok ({ t with chunks := o.chunks }, o.seat c)) :
    t.insert c values = (do
      let header ← header (reserveSize types values t.config.minStringReserve)
      let k ← o.chunk.overwrite (o.seat c).offset
        (header ++ encodeFields (Record.cells types values))
      let t' := setChunk { t with chunks := o.chunks } o.front.length
        { k with numRecords := k.numRecords + 1 }
      { t' with numRecords := t.numRecords + 1 }.touchAt (o.seat c)) := by
  have hchunk : Table.chunk { t with chunks := o.chunks } (o.seat c).chunkIndex =
      .ok o.chunk := o.chunk_seat c rfl
  rw [insert, hposition, h.types_eq]
  simp only [hroom, ok_bind, hchunk]
  rfl

/-- A new record is written into the room that was made for it, unless it is too large. -/
theorem insert_closes (h : t.Holds blocks) (hposition : t.isPosition c = true)
    {values : List Value} (hvalues : ∀ v ∈ values, v.Proper) {o : Opening types}
    (hroom : t.makeRoom c (reserveSize types values t.config.minStringReserve) =
      .ok ({ t with chunks := o.chunks }, o.seat c))
    (hmiddle : o.middle = Bytes.zeros (reserveSize types values t.config.minStringReserve))
    (hcounted : o.counted = 0) (hdivides : o.Divides (contents blocks) c.index) :
    Yields (· = reserveSize types values t.config.minStringReserve)
      (t.config.checkInvariants = true ∧ ¬ LegibleRow types values)
      (fun result => ∃ (r : Stored types) (hlength : o.middle.length = r.size),
        r.IsFresh values t.config.minStringReserve ∧
          result.1.chunks = (o.close r hlength).map Block.chunk ∧
          Edited t c ((contents blocks).insertIdx c.index r) result)
      (t.insert c values) := by
  rw [h.insert_eq_write hposition hroom]
  refine .header_bind (fun _ => rfl) ?_
  intro hsmall
  obtain ⟨r, hfresh, hbytes⟩ := Stored.exists_isFresh hvalues hsmall
  have hlength : o.middle.length = r.size := by
    rw [hmiddle, Bytes.length_zeros, hfresh.size_eq]
  have hpatch : (LittleEndian.encode headerBytes
      (reserveSize types values t.config.minStringReserve) ++
        encodeFields (Record.cells types values)).length =
      headerBytes + (encodeFields (Record.cells types values)).length := by
    rw [List.length_append, LittleEndian.length_encode]
  have hfits : headerBytes + (encodeFields (Record.cells types values)).length ≤
      o.middle.length := by
    have hle := length_freshFields_le types values t.config.minStringReserve
    rw [freshFields_flatten, List.length_append, ← Nat.add_assoc] at hle
    rw [hmiddle, Bytes.length_zeros]
    exact (Nat.le_add_right _ _).trans hle
  have hwrite : o.chunk.overwrite (o.seat c).offset
      (LittleEndian.encode headerBytes (reserveSize types values t.config.minStringReserve) ++
        encodeFields (Record.cells types values)) =
      .ok { o.chunk with
        live := o.before.flatMap Stored.bytes ++ r.bytes ++ o.after.flatMap Stored.bytes } := by
    rw [o.overwrite_chunk (hpatch.trans_le hfits), hpatch, hmiddle, ← hbytes]
  rw [hwrite, ok_bind]
  have hcount : t.numRecords + 1 = (o.ahead ++ r :: o.behind).length := by
    have hlen := congrArg List.length hdivides.records_eq
    rw [List.length_append] at hlen
    rw [List.length_append, List.length_cons, ← Nat.add_assoc, ← hlen, ← h.count_eq]
  have hnumber : o.chunk.numRecords + 1 = o.before.length + 1 + o.after.length := by
    change o.before.length + o.counted + o.after.length + 1 = _
    rw [hcounted, Nat.add_zero, Nat.add_right_comm]
  have hothers : ∀ r' ∈ o.ahead ++ o.behind, r' ∈ contents blocks := by
    rw [← hdivides.records_eq]
    exact fun _ => id
  refine Yields.mono (Yields.widen (h.edited_close o r hothers hlength ?_ hcount hdivides.index_eq
    (by rfl) (by rfl) (by rfl)) (fun _ => id) (And.imp_right hfresh.legible_iff.not.mp)) ?_
  · rw [← o.set_chunks_close r hlength, ← hnumber]
    rfl
  · rintro result ⟨hchunks, hedited⟩
    rw [← hdivides.insertIdx_eq] at hedited
    exact ⟨r, hlength, hfresh, hchunks, hedited⟩

/-- A new record goes in front of the record at the cursor, unless it is too large. -/
theorem insert_yields (h : t.Holds blocks) (hcurrent : t.isCurrent c = true)
    (hc : Seated blocks c) {values : List Value} (hvalues : ∀ v ∈ values, v.Proper) :
    Yields (· = reserveSize types values t.config.minStringReserve)
      (t.config.checkInvariants = true ∧ ¬ LegibleRow types values)
      (fun result => ∃ r : Stored types, r.IsFresh values t.config.minStringReserve ∧
        Edited t c ((contents blocks).insertIdx c.index r) result)
      (t.insert c values) := by
  have hposition : t.isPosition c = true := (h.isPosition_iff fun _ => hc).mpr ⟨hcurrent, hc⟩
  obtain ⟨o, hroom, hmiddle, hcounted, hdivides⟩ :=
    h.makeRoom_eq hc (reserveSize types values t.config.minStringReserve)
  refine (h.insert_closes hposition hvalues hroom hmiddle hcounted hdivides).mono ?_
  rintro result ⟨r, -, hfresh, -, hedited⟩
  exact ⟨r, hfresh, hedited⟩

lemma seated_endCursor (h : t.Holds blocks) : Seated blocks t.endCursor := by
  rw [h.endCursor_eq]
  exact seated_seat _ le_rfl

/-- A new record goes behind all others. -/
lemma push_yields (h : t.Holds blocks) {values : List Value} (hvalues : ∀ v ∈ values, v.Proper) :
    Yields (· = reserveSize types values t.config.minStringReserve)
      (t.config.checkInvariants = true ∧ ¬ LegibleRow types values)
      (fun result => ∃ r : Stored types, r.IsFresh values t.config.minStringReserve ∧
        Edited t t.endCursor (contents blocks ++ [r]) result)
      (t.push values) := by
  have hindex : t.endCursor.index = (contents blocks).length := h.count_eq
  refine (h.insert_yields (isCurrent_iff.mpr rfl) h.seated_endCursor hvalues).mono ?_
  rintro result ⟨r, hfresh, hedited⟩
  rw [hindex, List.insertIdx_length_self] at hedited
  exact ⟨r, hfresh, hedited⟩

/-! ### Removing -/

/-- Once the record at the cursor has no bytes left, its chunk counts one record less, and goes if
that was the last one. -/
lemma remove_eq_erase (h : t.Holds blocks) (hc : Seated blocks c)
    {r : Stored types} (hr : (contents blocks)[c.index]? = some r) (hvalid : t.isValid c = true)
    {o : Opening types} (hcounted : o.counted = 1)
    (hrun : t.resizeSegment c r.bytes.length 0 = .ok ({ t with chunks := o.chunks }, o.seat c)) :
    t.remove c =
      (if o.before.length + o.after.length = 0 then
        touchAt { t with
            chunks := o.chunks.eraseIdx o.front.length
            numRecords := t.numRecords - 1 }
          (seatAt { t with
            chunks := o.chunks.eraseIdx o.front.length
            numRecords := t.numRecords - 1 } (o.seat c) o.front.length)
      else
        touchAt { t with
            chunks := o.chunks.set o.front.length
              { o.chunk with numRecords := o.before.length + o.after.length }
            numRecords := t.numRecords - 1 }
          (if (o.seat c).offset < o.chunk.tail then o.seat c
            else seatAt { t with
              chunks := o.chunks.set o.front.length
                { o.chunk with numRecords := o.before.length + o.after.length }
              numRecords := t.numRecords - 1 } (o.seat c) (o.front.length + 1))) := by
  have hcount : o.chunk.numRecords - 1 = o.before.length + o.after.length := by
    change o.before.length + o.counted + o.after.length - 1 = _
    rw [hcounted]
    omega
  rw [remove, hvalid, h.record_eq hc hr, ← hcount]
  change (do let p ← t.resizeSegment c r.bytes.length 0; _) = _
  rw [hrun]
  change (do let k ← Table.chunk { t with chunks := o.chunks } (o.seat c).chunkIndex; _) = _
  rw [o.chunk_seat c rfl]
  rfl

/-- A change that takes out a chunk with its last record. -/
lemma edited_eraseIdx (h : t.Holds blocks) {t' : Table} (o : Opening types)
    (hkept : ∀ r' ∈ o.ahead ++ o.behind, r' ∈ contents blocks)
    (hempty : o.before ++ o.after = []) (hchunks : t'.chunks = o.chunks.eraseIdx o.front.length)
    (hcount : t'.numRecords = (o.ahead ++ o.behind).length) (hindex : c.index = o.ahead.length)
    (hschema : t'.schema = t.schema) (hconfig : t'.config = t.config)
    (hgeneration : t'.generation = t.generation) :
    ∃ result, t'.touchAt (t'.seatAt (o.seat c) o.front.length) = .ok result ∧
      result.1.chunks = (o.front ++ o.back).map Block.chunk ∧
      Edited t c (o.ahead ++ o.behind) result := by
  have hcontents := o.contents_eraseIdx hempty
  have hholds : t'.Holds (o.front ++ o.back) := by
    refine ⟨⟨?_, ?_, ?_⟩, fun hchecks r' hr' => ?_⟩
    · rw [hschema]
      exact h.types_eq
    · rw [hchunks]
      exact o.eraseIdx_chunks
    · rw [hcontents]
      exact hcount
    · rw [hcontents] at hr'
      exact h.checked (hconfig ▸ hchecks) r' (hkept r' hr')
  have hfront : (o.seat c).index = (contents o.front).length := by
    rw [Opening.ahead, (List.append_eq_nil_iff.mp hempty).1, List.append_nil] at hindex
    exact hindex
  rw [hholds.seatAt_eq hfront, ← hcontents]
  refine edited_touchAt hholds (seated_seat _ ?_) rfl hschema hconfig hgeneration
  rw [Block.contents_append, List.length_append, ← hfront]
  exact Nat.le_add_right _ _

/-- A change that takes out a record and leaves others in its chunk. -/
lemma edited_without (h : t.Holds blocks) {t' : Table} (o : Opening types)
    (hkept : ∀ r' ∈ o.ahead ++ o.behind, r' ∈ contents blocks)
    (hmiddle : o.middle = []) (hothers : o.before ++ o.after ≠ [])
    (hchunks : t'.chunks = o.chunks.set o.front.length
      { o.chunk with numRecords := o.before.length + o.after.length })
    (hcount : t'.numRecords = (o.ahead ++ o.behind).length) (hindex : c.index = o.ahead.length)
    (hschema : t'.schema = t.schema) (hconfig : t'.config = t.config)
    (hgeneration : t'.generation = t.generation) :
    ∃ result, t'.touchAt (if (o.seat c).offset < o.chunk.tail then o.seat c
        else t'.seatAt (o.seat c) (o.front.length + 1)) = .ok result ∧
      result.1.chunks = (o.without hothers).map Block.chunk ∧
      Edited t c (o.ahead ++ o.behind) result := by
  have hcontents := o.contents_without hothers
  have hholds : t'.Holds (o.without hothers) := by
    refine ⟨⟨?_, ?_, ?_⟩, fun hchecks r' hr' => ?_⟩
    · rw [hschema]
      exact h.types_eq
    · rw [hchunks]
      exact o.set_chunks_without hmiddle hothers
    · rw [hcontents]
      exact hcount
    · rw [hcontents] at hr'
      exact h.checked (hconfig ▸ hchecks) r' (hkept r' hr')
  rw [← hcontents]
  refine edited_touchAt hholds (o.seated_without hmiddle hothers hholds hindex) ?_ hschema hconfig
    hgeneration
  split_ifs <;> rfl

/-- Once the record at the cursor has no bytes left, the blocks are those around it. -/
theorem remove_clears (h : t.Holds blocks) (hc : Seated blocks c) {r : Stored types}
    (hr : (contents blocks)[c.index]? = some r) (hvalid : t.isValid c = true) {o : Opening types}
    (hmiddle : o.middle = []) (hcounted : o.counted = 1)
    (hcovers : o.Covers (contents blocks) c.index r)
    (hrun : t.resizeSegment c r.size 0 = .ok ({ t with chunks := o.chunks }, o.seat c)) :
    ∃ result, t.remove c = .ok result ∧ result.1.chunks = o.cleared.map Block.chunk ∧
      Edited t c ((contents blocks).eraseIdx c.index) result := by
  have hcount : t.numRecords - 1 = (o.ahead ++ o.behind).length := by
    rw [h.count_eq, hcovers.records_eq, List.length_append, List.length_cons, List.length_append,
      ← Nat.add_assoc, Nat.add_sub_cancel]
  have hkept : ∀ r' ∈ o.ahead ++ o.behind, r' ∈ contents blocks := by
    intro r' hr'
    rw [← hcovers.eraseIdx_eq] at hr'
    exact List.mem_of_mem_eraseIdx hr'
  rw [← r.length_bytes] at hrun
  rw [h.remove_eq_erase hc hr hvalid hcounted hrun, hcovers.eraseIdx_eq, Opening.cleared]
  by_cases hempty : o.before ++ o.after = []
  · rw [if_pos (by rw [← List.length_append, hempty]; rfl), dif_pos hempty]
    exact h.edited_eraseIdx o hkept hempty rfl hcount hcovers.index_eq rfl rfl rfl
  · rw [if_neg (by rw [← List.length_append, List.length_eq_zero_iff]; exact hempty),
      dif_neg hempty]
    exact h.edited_without o hkept hmiddle hempty rfl hcount hcovers.index_eq rfl rfl rfl

/-- The record at the cursor can be given another size: the opening around it, and what it
becomes. -/
lemma resizeSegment_around (h : t.Holds blocks) (hc : Seated blocks c) {r : Stored types}
    (hr : (contents blocks)[c.index]? = some r) (new : Nat) :
    ∃ o o' : Opening types, o.seat c = c ∧ t.chunks = o.chunks ∧ o.middle = r.bytes ∧
      o.counted = 1 ∧ o.Becomes t.config.chunkSize new (o.way new) o' ∧
      o'.Covers (contents blocks) c.index r ∧
      t.resizeSegment c r.size new = .ok ({ t with chunks := o'.chunks }, o'.seat c) := by
  obtain ⟨o, hseat, hchunks, hmiddle, hcounted, hcovers⟩ := h.exists_around hc hr
  have hone : o.counted = if o.middle.length = 0 then 0 else 1 := by
    rw [hmiddle, Stored.length_bytes, if_neg r.size_pos.ne', hcounted]
  obtain ⟨o', hbecomes, hrun⟩ := o.resizeSegment_becomes c hchunks hone new
  rw [hseat, hmiddle, r.length_bytes] at hrun
  exact ⟨o, o', hseat, hchunks, hmiddle, hcounted, hbecomes, hbecomes.resized.covers hcovers, hrun⟩

/-- The record at the cursor goes, and nothing else. -/
theorem remove_eq (h : t.Holds blocks) (hcurrent : t.isCurrent c = true) (hc : Seated blocks c)
    (hlt : c.index < (contents blocks).length) :
    ∃ result, t.remove c = .ok result ∧
      Edited t c ((contents blocks).eraseIdx c.index) result := by
  have hvalid : t.isValid c = true := (h.isValid_iff fun _ => hc).mpr ⟨hcurrent, hc, hlt⟩
  obtain ⟨r, hr⟩ : ∃ r, (contents blocks)[c.index]? = some r :=
    ⟨_, List.getElem?_eq_getElem hlt⟩
  obtain ⟨o, o', -, -, -, hcounted, hbecomes, hcovers, hrun⟩ := h.resizeSegment_around hc hr 0
  have hresized := hbecomes.resized
  have hmiddle : o'.middle = [] := by
    rw [hresized.middle_eq, Bytes.resize, List.take_zero, Nat.zero_sub]
    rfl
  obtain ⟨result, hresult, -, hedited⟩ :=
    h.remove_clears hc hr hvalid hmiddle (hresized.counted_eq.trans hcounted) hcovers hrun
  exact ⟨result, hresult, hedited⟩

/-! ### Replacing a field -/

lemma fieldRoom_eq (h : t.Holds blocks) (hc : Seated blocks c) {r : Stored types}
    (hr : (contents blocks)[c.index]? = some r) (legible : r.Legible) {column : Nat}
    {type : ValueType} (ht : types[column]? = some type) {old : Bytes}
    (hold : r.fields[column]? = some old) (field : Bytes) : t.fieldRoom c column field =
      .ok ⟨t, c, r.size, r.sizeWith old.length field.length⟩ := by
  have htype : t.schema.type? column = some type := by rw [h.type?_eq, ht]
  rw [fieldRoom, htype]
  simp only [h.record_eq hc hr, h.types_eq, ok_bind, Stored.fieldOffset_bytes legible,
    Stored.fieldSize_bytes legible ht hold, Stored.dataSize_bytes legible, Stored.length_bytes]
  rfl

/-- There is no room for another field in a record that is not legible. -/
lemma garbled_fieldRoom (h : t.Holds blocks) (hc : Seated blocks c) {r : Stored types}
    (hr : (contents blocks)[c.index]? = some r) (illegible : ¬ r.Legible) {column : Nat}
    {type : ValueType} (ht : types[column]? = some type) (field : Bytes) :
    Garbled (t.fieldRoom c column field) := by
  have htype : t.schema.type? column = some type := by rw [h.type?_eq, ht]
  rw [fieldRoom, htype]
  simp only [h.record_eq hc hr, h.types_eq, ok_bind]
  exact Stored.garbled_places illegible ht _

/-- So a record with room for another field is legible. -/
lemma legible_of_fieldRoom (h : t.Holds blocks) (hc : Seated blocks c) {r : Stored types}
    (hr : (contents blocks)[c.index]? = some r) {column : Nat} {type : ValueType}
    (ht : types[column]? = some type) {field : Bytes} {z : Resizing}
    (hrun : t.fieldRoom c column field = .ok z) : r.Legible := by
  by_contra hillegible
  exact (h.garbled_fieldRoom hc hr hillegible ht field).ne_ok z hrun

lemma garbled_setField (h : t.Holds blocks) (hc : Seated blocks c) {r : Stored types}
    (hr : (contents blocks)[c.index]? = some r) (hvalid : t.isValid c = true)
    (illegible : ¬ r.Legible) {column : Nat} {type : ValueType} (ht : types[column]? = some type)
    (hnull : type.isNull = false) (value : Value) : Garbled (t.setField c column value) := by
  have htype : t.schema.type? column = some type := by rw [h.type?_eq, ht]
  rw [setField, hvalid, htype]
  simp only [Bool.not_true, Bool.false_eq_true, if_false, hnull, h.record_eq hc hr, h.types_eq,
    ok_bind]
  exact Stored.garbled_places illegible ht _

/-- Once the record at the cursor has its new size, it is written with the other field. -/
lemma setField_eq_write (h : t.Holds blocks) (hc : Seated blocks c)
    {r : Stored types} (hr : (contents blocks)[c.index]? = some r) (legible : r.Legible)
    (hvalid : t.isValid c = true)
    {column : Nat} {type : ValueType} (ht : types[column]? = some type)
    (hnull : type.isNull = false) {old field : Bytes} (hold : r.fields[column]? = some old)
    {value : Value} (hfield : Field.encode type (value.convertTo type) = field)
    {o : Opening types}
    (hrun : t.resizeSegment c r.size (r.sizeWith old.length field.length) =
      .ok ({ t with chunks := o.chunks }, o.seat c)) :
    t.setField c column value = (do
      let header ← header (r.sizeWith old.length field.length)
      let changed := replaceField (r.bytes.resize (r.sizeWith old.length field.length))
        (headerBytes + (r.fields.take column).flatten.length) old.length r.dataSize field
      let k ← o.chunk.overwrite (o.seat c).offset (header ++ changed.drop headerBytes)
      (setChunk { t with chunks := o.chunks } o.front.length k).touchAt (o.seat c)) := by
  have htype : t.schema.type? column = some type := by rw [h.type?_eq, ht]
  have hsize : (if r.size < r.dataSize - old.length + field.length then
      r.size - old.length + field.length else r.size) = r.sizeWith old.length field.length := rfl
  have hchunk : Table.chunk { t with chunks := o.chunks } (o.seat c).chunkIndex =
      .ok o.chunk := o.chunk_seat c rfl
  rw [setField, hvalid, htype]
  simp only [Bool.not_true, Bool.false_eq_true, if_false, hnull, hfield, h.record_eq hc hr,
    h.types_eq, ok_bind, Stored.fieldOffset_bytes legible,
    Stored.fieldSize_bytes legible ht hold, Stored.dataSize_bytes legible, Stored.length_bytes,
    hsize, hrun, hchunk]
  rfl

/-- The record at the cursor is written with another field in the column into its new room, unless
it is too large. -/
theorem setField_closes (h : t.Holds blocks) (hc : Seated blocks c) {r : Stored types}
    (hr : (contents blocks)[c.index]? = some r) (legible : r.Legible)
    (hvalid : t.isValid c = true) {column : Nat} {type : ValueType}
    (ht : types[column]? = some type) (hnull : type.isNull = false)
    {value : Value} (hvalue : value.Proper) {old field : Bytes}
    (hold : r.fields[column]? = some old)
    (hfield : Field.encode type (value.convertTo type) = field) {o : Opening types}
    (hmiddle : o.middle = r.bytes.resize (r.sizeWith old.length field.length))
    (hcounted : o.counted = 1) (hcovers : o.Covers (contents blocks) c.index r)
    (hrun : t.resizeSegment c r.size (r.sizeWith old.length field.length) =
      .ok ({ t with chunks := o.chunks }, o.seat c)) :
    Yields (· = r.size - old.length + field.length)
      (t.config.checkInvariants = true ∧ ¬ Field.Legible type field)
      (fun result => ∃ (r' : Stored types) (hlength : o.middle.length = r'.size),
        r.IsChanged column field r' ∧ result.1.chunks = (o.close r' hlength).map Block.chunk ∧
          Edited t c ((contents blocks).set c.index r') result)
      (t.setField c column value) := by
  have hnew : Field.IsField type field := hfield ▸
    Field.isField_encode (Value.proper_convertTo hvalue type) (Field.fits_convertTo type value)
  rw [h.setField_eq_write hc hr legible hvalid ht hnull hold hfield hrun]
  refine .header_bind ?_ ?_
  · intro hlarge
    exact r.sizeWith_of_large hlarge
  · intro hsmall
    obtain ⟨r', hchanged, hbytes⟩ := r.exists_isChanged hold ht hnew hsmall
    have hlength : o.middle.length = r'.size := by
      rw [hmiddle, Bytes.length_resize, hchanged.size_eq, hold]
      rfl
    have hwrite : o.chunk.overwrite (o.seat c).offset r'.bytes =
        .ok { o.chunk with
          live := o.before.flatMap Stored.bytes ++ r'.bytes ++ o.after.flatMap Stored.bytes } := by
      rw [o.overwrite_chunk (by rw [r'.length_bytes, hlength]), r'.length_bytes, ← hlength,
        List.drop_length, List.append_nil]
    simp only [hbytes]
    rw [hwrite, ok_bind]
    have hcount : t.numRecords = (o.ahead ++ r' :: o.behind).length := by
      have hlen := congrArg List.length hcovers.records_eq
      rw [← h.count_eq, List.length_append, List.length_cons] at hlen
      rw [List.length_append, List.length_cons]
      exact hlen
    have hnumber : o.chunk.numRecords = o.before.length + 1 + o.after.length := by
      rw [← hcounted]
      rfl
    have hothers : ∀ r'' ∈ o.ahead ++ o.behind, r'' ∈ contents blocks := by
      intro r'' hr''
      rw [← hcovers.eraseIdx_eq] at hr''
      exact List.mem_of_mem_eraseIdx hr''
    have hdamage : ¬ r'.Legible → ¬ Field.Legible type field :=
      mt (hchanged.legible_iff ht legible).mpr
    refine Yields.mono (Yields.widen (h.edited_close o r' hothers hlength ?_ ?_
      hcovers.index_eq (by rfl) (by rfl) (by rfl)) (fun _ => id) (And.imp_right hdamage)) ?_
    · rw [← o.set_chunks_close r' hlength, ← hnumber]
      rfl
    · exact hcount
    · rintro result ⟨hchunks, hedited⟩
      rw [← hcovers.set_eq r'] at hedited
      exact ⟨r', hlength, hchanged, hchunks, hedited⟩

/-- The record at the cursor gets another field in the column, unless it gets too large. -/
theorem setField_yields (h : t.Holds blocks) (hcurrent : t.isCurrent c = true)
    (hc : Seated blocks c) {r : Stored types} (hr : (contents blocks)[c.index]? = some r)
    {column : Nat} {type : ValueType} (ht : types[column]? = some type)
    (hnull : type.isNull = false) {value : Value} (hvalue : value.Proper) :
    Yields (fun size => r.Legible ∧ size = r.size - ((r.fields[column]?).getD []).length +
        (Field.encode type (value.convertTo type)).length)
      (¬ r.Legible ∨ t.config.checkInvariants = true ∧
        ¬ Field.Legible type (Field.encode type (value.convertTo type)))
      (fun result => r.Legible ∧ ∃ r' : Stored types,
        r.IsChanged column (Field.encode type (value.convertTo type)) r' ∧
          Edited t c ((contents blocks).set c.index r') result)
      (t.setField c column value) := by
  have hlt := (List.getElem?_eq_some_iff.mp hr).1
  have hvalid : t.isValid c = true := (h.isValid_iff fun _ => hc).mpr ⟨hcurrent, hc, hlt⟩
  by_cases legible : r.Legible
  swap
  · exact .of_garbled (h.garbled_setField hc hr hvalid legible ht hnull value) (.inl legible)
  obtain ⟨old, hold, -⟩ := r.exists_field ht
  obtain ⟨o, o', -, -, hmiddle, hcounted, hbecomes, hcovers, hrun⟩ := h.resizeSegment_around hc hr
    (r.sizeWith old.length (Field.encode type (value.convertTo type)).length)
  have hresized := hbecomes.resized
  rw [hold, Option.getD_some]
  refine ((h.setField_closes hc hr legible hvalid ht hnull hvalue hold rfl
    (hmiddle ▸ hresized.middle_eq) (hresized.counted_eq.trans hcounted) hcovers hrun).widen
    (fun _ hsize => ⟨legible, hsize⟩) .inr).mono ?_
  rintro result ⟨r', -, hchanged, -, hedited⟩
  exact ⟨legible, r', hchanged, hedited⟩

end Holds

/-! ### Changes that find nothing to change -/

lemma insert_eq_self (h : t.isPosition c = false) (values : List Value) :
    t.insert c values = .ok (t, c) := by
  rw [insert, h]
  rfl

lemma remove_eq_self (h : t.isValid c = false) : t.remove c = .ok (t, c) := by
  rw [remove, h]
  rfl

lemma setField_eq_self {column : Nat}
    (h : t.isValid c = false ∨ t.schema.type? column = none) (value : Value) :
    t.setField c column value = .ok (t, c) := by
  rw [setField]
  cases hvalid : t.isValid c with
  | false => rfl
  | true =>
    rcases h with hinvalid | hnone
    · rw [hvalid] at hinvalid
      cases hinvalid
    · rw [hnone]
      rfl

/-! ### Clearing -/

/-- All records go, and the table is compact. -/
lemma clear_eq (t : Table) :
    t.clear = .ok { t with
      chunks := []
      numRecords := 0
      generation := t.generation + 1
      compact := true } := by
  have hempty : @Holds t.schema.types { t with chunks := [], numRecords := 0 } [] :=
    ⟨⟨rfl, rfl, rfl⟩, fun _ _ hnone => absurd hnone List.not_mem_nil⟩
  rw [clear, hempty.touch_eq]
  rfl

end RecordStore.Table
