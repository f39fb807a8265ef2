import Mathlib
import RecordStore.Proofs.Memory.Field
import RecordStore.Proofs.Memory.Resizing
import RecordStore.Proofs.Memory.Segment
import RecordStore.Table.Memory

/-!
# What is seen of a table in memory

Each change of a table in memory is seen as the same change of the table of its chunks, and fails
exactly where this one does. What lies outside of the records has no influence on it.
-/

namespace RecordStore

/-- Two runs one behind the other that are seen as two others. -/
lemma map_bind_congr {ε α α' β β' : Type} {see : α → α'} {see' : β → β'} {run : Except ε α}
    {run' : Except ε α'} {next : α → Except ε β} {next' : α' → Except ε β'}
    (hrun : see <$> run = run') (hnext : ∀ a, run = .ok a → see' <$> next a = next' (see a)) :
    see' <$> (run >>= next) = run' >>= next' := by
  subst hrun
  cases run with
  | error e => rfl
  | ok a => exact hnext a rfl

/-- What follows one run is seen as what follows it elsewhere. -/
lemma map_bind_same {ε α β β' : Type} {see : β → β'} {run : Except ε α} {next : α → Except ε β}
    {next' : α → Except ε β'} (hnext : ∀ a, run = .ok a → see <$> next a = next' a) :
    see <$> (run >>= next) = run >>= next' :=
  map_bind_congr (id_map run) hnext

namespace Memory

open Table (Buffer Cursor)

/-- A table in memory and a cursor, as they are seen. -/
def seen : Memory × Cursor → Table × Cursor := Prod.map table id

variable (m : Memory) (cursor : Cursor)

/-! ### Buffers -/

lemma map_buffer (index : Nat) : Buffer.chunk <$> m.buffer index = m.table.chunk index := by
  rw [buffer, Table.chunk, table, List.getElem?_map]
  cases m.buffers[index]? <;> rfl

lemma table_setBuffer (index : Nat) (b : Buffer) :
    (m.setBuffer index b).table = m.table.setChunk index b.chunk := by
  simp only [setBuffer, table, Table.setChunk, List.map_set]

/-- Where it is configured, what is seen is checked. -/
lemma map_checked {t : Table} (h : m.table = t) :
    table <$> (do
        if m.config.checkInvariants then m.table.check
        return m) =
      do
        if t.config.checkInvariants then t.check
        return t := by
  subst h
  have hconfig : m.table.config = m.config := rfl
  by_cases hcheck : m.config.checkInvariants = true
  · simp only [hconfig, hcheck, if_true]
    exact map_bind_same fun _ _ => rfl
  · simp only [hconfig, hcheck]
    rfl

lemma map_touch : table <$> m.touch = m.table.touch := map_checked _ rfl

lemma map_touchAt : seen <$> m.touchAt cursor = m.table.touchAt cursor := by
  rw [touchAt, Table.touchAt]
  exact map_bind_congr m.map_touch fun _ _ => rfl

/-! ### Resizing -/

/-- Resizing a segment in memory is seen as resizing the segment. -/
theorem map_resizeSegment (old new : Nat) :
    seen <$> m.resizeSegment cursor old new = m.table.resizeSegment cursor old new := by
  rw [resizeSegment, Table.resizeSegment]
  refine map_bind_congr (m.map_buffer _) fun b _ => ?_
  refine map_bind_congr (Buffer.Span.map_segment b _ _) fun span hspan => ?_
  obtain ⟨hstart, hsize⟩ := Buffer.Span.eq_of_span hspan
  have hresize := span.map_resize m.config.chunkSize hstart.symm new
  rw [hsize] at hresize
  have hchunks : m.table.chunks = m.buffers.map Buffer.chunk := rfl
  have hconfig : m.table.config = m.config := rfl
  simp only [hchunks, hconfig, ← hresize]
  refine congrArg (fun chunks => Except.ok ({ m.table with chunks }, _)) ?_
  simp only [Prod.map, List.map_append, List.map_take, List.map_drop]

/-- The buffer of a record that was resized has it at the cursor. -/
lemma exists_resized {m m' : Memory} {cursor cursor' : Cursor} {record : Bytes} {size : Nat}
    {b : Buffer} (hrecord : m.table.record cursor = .ok record)
    (h : m.resizeSegment cursor record.length size = .ok (m', cursor'))
    (hb : m'.buffer cursor'.chunkIndex = .ok b) :
    ∃ before after, b.live = before ++ (record.resize size ++ after) ∧
      cursor'.offset = b.head + before.length := by
  obtain ⟨c, s, hchunk, hcut, rfl, -⟩ := Table.exists_of_record hrecord
  have hresized := m.map_resizeSegment cursor s.middle.length size
  rw [h] at hresized
  obtain ⟨c', before, after, hchunk', hlive, hoffset⟩ :=
    Table.exists_resized hchunk hcut hresized.symm
  have hseen := m'.map_buffer cursor'.chunkIndex
  rw [hb] at hseen
  obtain rfl : b.chunk = c' := Except.ok.inj (hseen.trans hchunk')
  exact ⟨before, after, hlive, hoffset⟩

lemma map_makeRoom (size : Nat) :
    seen <$> m.makeRoom cursor size = m.table.makeRoom cursor size := by
  have hempty : m.table.chunks.isEmpty = m.buffers.isEmpty := List.isEmpty_map
  rw [makeRoom, Table.makeRoom, hempty]
  by_cases h : m.buffers.isEmpty = true
  · rw [if_pos h, if_pos h, map_resizeSegment]
    simp only [table, List.map_cons, List.map_nil, Buffer.chunk_withCapacity]
  · rw [if_neg h, if_neg h]
    exact map_bind_same fun c _ => m.map_resizeSegment c _ _

/-! ### Changes -/

/-- Inserting in memory is seen as inserting. -/
theorem map_insert (values : List Value) :
    seen <$> m.insert cursor values = m.table.insert cursor values := by
  rw [insert, Table.insert]
  by_cases hposition : (!m.table.isPosition cursor) = true
  · rw [if_pos hposition, if_pos hposition]
    rfl
  rw [if_neg hposition, if_neg hposition]
  refine map_bind_same fun header _ => ?_
  refine map_bind_congr (m.map_makeRoom _ _) fun (m, cursor) _ => ?_
  refine map_bind_congr (m.map_buffer _) fun b _ => ?_
  refine map_bind_congr (b.chunk_storeAll _ _ _) fun b _ => ?_
  rw [map_touchAt]
  simp only [table, setBuffer, Table.setChunk, List.map_set]
  rfl

lemma map_push (values : List Value) : seen <$> m.push values = m.table.push values :=
  m.map_insert m.table.endCursor values

/-- Removing in memory is seen as removing. -/
theorem map_remove : seen <$> m.remove cursor = m.table.remove cursor := by
  rw [remove, Table.remove]
  by_cases hvalid : (!m.table.isValid cursor) = true
  · rw [if_pos hvalid, if_pos hvalid]
    rfl
  rw [if_neg hvalid, if_neg hvalid]
  refine map_bind_same fun record _ => ?_
  refine map_bind_congr (m.map_resizeSegment _ _ _) fun (m, cursor) _ => ?_
  refine map_bind_congr (m.map_buffer _) fun b _ => ?_
  have hrecords : b.chunk.numRecords = b.numRecords := rfl
  simp only [hrecords]
  by_cases hnone : b.numRecords - 1 = 0
  · rw [if_pos hnone, if_pos hnone, map_touchAt]
    simp only [table, List.eraseIdx_map]
    rfl
  · have htail : Table.Chunk.tail { b.chunk with numRecords := b.numRecords - 1 } = b.tail :=
      b.chunk_tail
    rw [if_neg hnone, if_neg hnone, map_touchAt, table_setBuffer, htail]
    rfl

/-- Replacing a field in memory is seen as replacing it. -/
theorem map_setField (column : Nat) (value : Value) :
    seen <$> m.setField cursor column value = m.table.setField cursor column value := by
  have hschema : m.table.schema = m.schema := rfl
  rw [setField, Table.setField, hschema]
  by_cases hvalid : (!m.table.isValid cursor) = true
  · rw [if_pos hvalid, if_pos hvalid]
    rfl
  rw [if_neg hvalid, if_neg hvalid]
  cases htype : m.schema.type? column with
  | none => rfl
  | some type =>
    by_cases hnull : type.isNull = true
    · simp only [hnull]
      rfl
    simp only [hnull]
    refine map_bind_same fun record hrecord => ?_
    refine map_bind_same fun start hstart => ?_
    refine map_bind_same fun old hold => ?_
    refine map_bind_same fun dataEnd hend => ?_
    set field := Field.encode type (value.convertTo type) with hfield
    -- the record does not get smaller, and the new field fits into it
    obtain ⟨-, -, -, -, -, hheaderBytes⟩ := Table.exists_of_record hrecord
    obtain ⟨hfront, hback, hwithin⟩ :=
      Record.field_bounds ((Schema.type?_eq _ _).symm.trans htype) hheaderBytes hstart hold hend
    generalize hsize : (if record.length < dataEnd - old + field.length then
      record.length - old + field.length else record.length) = size
    have hsizes : record.length ≤ size ∧ dataEnd - old + field.length ≤ size := by
      rw [← hsize]
      split_ifs <;> omega
    obtain ⟨hgrows, hfits⟩ := hsizes
    refine map_bind_congr (m.map_resizeSegment _ _ _) fun (m', cursor') hresized => ?_
    refine map_bind_same fun header hheader => ?_
    refine map_bind_congr (m'.map_buffer _) fun b hb => ?_
    obtain ⟨before, after, hlive, hoffset⟩ := exists_resized hrecord hresized hb
    have hlength : (record.resize size).length = size := Bytes.length_resize _ _
    have hchanged := Buffer.chunk_replaceField hlive (Record.length_header hheader) hfront hback
      (hwithin.trans (hgrows.trans_eq hlength.symm)) (hfits.trans_eq hlength.symm)
    rw [← hoffset] at hchanged
    refine map_bind_congr hchanged fun b _ => ?_
    rw [map_touchAt, table_setBuffer]
    rfl

/-- Packing in memory is seen as packing. -/
theorem map_optimize : table <$> m.optimize = m.table.optimize := by
  have hcompact : m.table.compact = m.compact := rfl
  rw [optimize, Table.optimize, hcompact]
  by_cases h : m.compact = true
  · rw [if_pos h, if_pos h]
    rfl
  rw [if_neg h, if_neg h]
  refine map_bind_same fun records _ => ?_
  refine map_checked _ ?_
  simp only [table, Buffer.map_pack]

lemma map_clear : table <$> m.clear = m.table.clear := by
  rw [clear, Table.clear]
  exact map_bind_congr (map_touch _) fun _ _ => rfl

lemma map_pushAll (rows : List (List Value)) :
    table <$> m.pushAll rows = m.table.pushAll rows := by
  rw [pushAll, Table.pushAll]
  induction rows generalizing m with
  | nil => rfl
  | cons row rows ih =>
    rw [List.foldlM_cons, List.foldlM_cons]
    refine map_bind_congr ?_ fun m _ => ih m
    rw [← map_push]
    cases m.push row <;> rfl

/-- Adopting a schema in memory is seen as adopting it. -/
theorem map_configure (schema : Schema) :
    Prod.map id table <$> m.configure schema = m.table.configure schema := by
  have hschema : m.table.schema = m.schema := rfl
  rw [configure, Table.configure, hschema]
  obtain ⟨changed, adopted⟩ := m.schema.assign schema
  cases changed with
  | false => rfl
  | true =>
    refine map_bind_congr (map_clear _) fun cleared _ => ?_
    by_cases hrows : m.schema.size = adopted.size ∧ (!adopted.isEmpty) = true
    · rw [if_pos hrows, if_pos hrows]
      refine map_bind_same fun cursors _ => ?_
      refine map_bind_same fun rows _ => ?_
      exact map_bind_congr (cleared.map_pushAll rows) fun _ _ => rfl
    · rw [if_neg hrows, if_neg hrows]
      rfl

end Memory

end RecordStore
