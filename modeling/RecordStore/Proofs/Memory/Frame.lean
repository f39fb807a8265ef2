import Mathlib
import RecordStore.Proofs.Memory.Session

/-!
# What a new field leaves alone

A field is replaced by writing within its record: the header, the fields that move along, what they
leave behind, and the field. So as long as the record has room, no byte of the table around it is
touched, be it of a record or not. Where it has not, the record grows by as much as the field does.
In either case all other fields and all other records have the bytes that they had.
-/

namespace RecordStore

open Table (Block Buffer Cursor)
open Table.Block (contents)
open Record (Stored headerBytes)

namespace Bytes

variable {bytes patch : Bytes} {n offset : Nat}

/-- In front of the patch all is as before. -/
lemma take_overwrite (hoffset : offset ≤ bytes.length) (h : n ≤ offset) :
    (bytes.overwrite offset patch).take n = bytes.take n := by
  have hlength : n ≤ (bytes.take offset).length := by
    rw [List.length_take, Nat.min_eq_left hoffset]
    exact h
  rw [overwrite, List.append_assoc, List.take_append_of_le_length hlength, List.take_take,
    Nat.min_eq_left h]

/-- Behind the patch all is as before. -/
lemma drop_overwrite (hoffset : offset ≤ bytes.length) (h : offset + patch.length ≤ n) :
    (bytes.overwrite offset patch).drop n = bytes.drop n := by
  have hlength : (bytes.take offset ++ patch).length = offset + patch.length := by
    rw [List.length_append, List.length_take, Nat.min_eq_left hoffset]
  obtain ⟨more, rfl⟩ := Nat.exists_eq_add_of_le h
  rw [overwrite, ← List.drop_drop, List.drop_left' hlength, List.drop_drop]

end Bytes

/-! ### Writing within a stretch -/

namespace Table.Buffer

/-- The two buffers have the same bounds and counts, and the same bytes but for those from `start`
to `stop`. -/
structure SameOutside (start stop : Nat) (b b' : Buffer) : Prop where
  head_eq : b'.head = b.head
  tail_eq : b'.tail = b.tail
  numRecords_eq : b'.numRecords = b.numRecords
  length_eq : b'.data.length = b.data.length
  take_eq : b'.data.take start = b.data.take start
  drop_eq : b'.data.drop stop = b.data.drop stop

variable {b b' b'' : Buffer} {start stop : Nat}

lemma SameOutside.trans (h : SameOutside start stop b b') (h' : SameOutside start stop b' b'') :
    SameOutside start stop b b'' where
  head_eq := h'.head_eq.trans h.head_eq
  tail_eq := h'.tail_eq.trans h.tail_eq
  numRecords_eq := h'.numRecords_eq.trans h.numRecords_eq
  length_eq := h'.length_eq.trans h.length_eq
  take_eq := h'.take_eq.trans h.take_eq
  drop_eq := h'.drop_eq.trans h.drop_eq

lemma sameOutside_store {offset : Nat} {patch : Bytes} (h : b.store offset patch = .ok b')
    (hstart : start ≤ offset) (hstop : offset + patch.length ≤ stop) :
    SameOutside start stop b b' := by
  have htail := b.tail_le
  rw [store] at h
  split_ifs at h with hbounds
  cases h
  have hoffset : offset ≤ b.data.length := by omega
  exact ⟨rfl, rfl, rfl, Bytes.length_overwrite (by omega), Bytes.take_overwrite hoffset hstart,
    Bytes.drop_overwrite hoffset hstop⟩

lemma sameOutside_copyWithin {first last dest : Nat} (h : b.copyWithin first last dest = .ok b')
    (hstart : start ≤ dest) (hstop : dest + (last - first) ≤ stop) :
    SameOutside start stop b b' := by
  rw [copyWithin] at h
  split_ifs at h with hbounds
  refine sameOutside_store h hstart ?_
  rwa [Bytes.length_slice_of_le (hbounds.2.2.trans b.tail_le)]

/-- What moves along stays within the stretch, and so does what is cleared. -/
lemma sameOutside_shift {first old new last : Nat} (h : b.shift first old new last = .ok b')
    (hstart : start ≤ first) (hold : first + old ≤ last) (hlast : last ≤ stop)
    (hnew : last - old + new ≤ stop) : SameOutside start stop b b' := by
  rw [shift] at h
  obtain ⟨b₁, hcopy, h⟩ := exists_of_bind_ok h
  have hcopied := @sameOutside_copyWithin _ _ start stop _ _ _ hcopy (by omega) (by omega)
  split_ifs at h with hshrinks
  · refine hcopied.trans (sameOutside_store h (by omega) ?_)
    rw [Bytes.length_zeros]
    omega
  · cases h
    exact hcopied

/-- Replacing a field in place stays within its record. -/
lemma sameOutside_replaceField {base size start old dataEnd : Nat} {header field : Bytes}
    (h : b.replaceField base header start old dataEnd field = .ok b')
    (hheader : header.length ≤ size) (hold : start + old ≤ dataEnd) (hend : dataEnd ≤ size)
    (hfits : dataEnd - old + field.length ≤ size) : SameOutside base (base + size) b b' := by
  rw [replaceField] at h
  obtain ⟨b₁, hfirst, h⟩ := exists_of_bind_ok h
  obtain ⟨b₂, hshift, hfield⟩ := exists_of_bind_ok h
  have h₁ := @sameOutside_store _ _ base (base + size) _ _ hfirst le_rfl (by omega)
  have h₂ := @sameOutside_shift _ _ base (base + size) _ _ _ _ hshift (by omega) (by omega)
    (by omega) (by omega)
  exact (h₁.trans h₂).trans (sameOutside_store hfield (by omega) (by omega))

end Table.Buffer

/-! ### Replacing a field in place -/

namespace Memory

variable {m : Memory} {cursor : Cursor}

/-- One buffer has been changed, and only at the `size` bytes at the cursor. -/
def SameAround (cursor : Cursor) (size : Nat) (m m' : Memory) : Prop :=
  ∃ b b', m.buffers[cursor.chunkIndex]? = some b ∧
    m'.buffers = m.buffers.set cursor.chunkIndex b' ∧
    b.SameOutside cursor.offset (cursor.offset + size) b'

lemma buffer_eq_ok {index : Nat} {b : Buffer} :
    m.buffer index = .ok b ↔ m.buffers[index]? = some b := by
  rw [buffer]
  cases m.buffers[index]? <;> simp

/-- A segment that gets its new size within its buffer leaves the other buffers as they are. -/
lemma resizeSegment_eq {b b' : Buffer} {old new : Nat} {span : b.Span} {moved : Cursor}
    (hb : m.buffer cursor.chunkIndex = .ok b) (hspan : b.span cursor.offset old = .ok span)
    (hresize : span.resize m.config.chunkSize cursor new = ([b'], moved)) :
    m.resizeSegment cursor old new = .ok (m.setBuffer cursor.chunkIndex b', moved) := by
  have hlt := (List.getElem?_eq_some_iff.mp (buffer_eq_ok.mp hb)).1
  have hbuffers : m.buffers.take cursor.chunkIndex ++ [b'] ++
      m.buffers.drop (cursor.chunkIndex + 1) = m.buffers.set cursor.chunkIndex b' := by
    rw [List.set_eq_take_append_cons_drop, if_pos hlt, List.append_assoc, List.singleton_append]
  simp only [resizeSegment, hb, ok_bind, hspan, hresize, hbuffers]
  rfl

/-- A segment that keeps its size stays where it is, and so does everything else. -/
lemma resizeSegment_self {size : Nat} {result : Memory × Cursor}
    (h : m.resizeSegment cursor size size = .ok result) : result = (m, cursor) := by
  obtain ⟨b, hb, hrun⟩ := exists_of_bind_ok h
  obtain ⟨span, hspan, -⟩ := exists_of_bind_ok hrun
  obtain ⟨-, hsize⟩ := Buffer.Span.eq_of_span hspan
  have hresize : span.resize m.config.chunkSize cursor size = ([b], cursor) := by
    rw [Buffer.Span.resize, if_pos hsize.ge, if_pos (by rw [hsize, Nat.sub_self])]
  have hsame : m.setBuffer cursor.chunkIndex b = m := by
    obtain ⟨hlt, hget⟩ := List.getElem?_eq_some_iff.mp (buffer_eq_ok.mp hb)
    rw [setBuffer, ← hget, List.set_getElem_self]
  rw [resizeSegment_eq hb hspan hresize, hsame] at h
  exact (Except.ok.inj h).symm

/-- A new generation has the buffers of the one before. -/
lemma touchAt_eq_ok {result : Memory × Cursor} (h : m.touchAt cursor = .ok result) :
    result = ({ m with generation := m.generation + 1, compact := false },
      { cursor with generation := m.generation + 1 }) := by
  rw [touchAt, touch] at h
  obtain ⟨m', hm', h⟩ := exists_of_bind_ok h
  have hsame : m' = { m with generation := m.generation + 1, compact := false } := by
    split_ifs at hm'
    · obtain ⟨_, -, hdone⟩ := exists_of_bind_ok hm'
      exact (Except.ok.inj hdone).symm
    · exact (Except.ok.inj hm').symm
  subst hsame
  exact (Except.ok.inj h).symm

lemma setField_eq_self {column : Nat}
    (h : m.table.isValid cursor = false ∨ m.schema.type? column = none) (value : Value) :
    m.setField cursor column value = .ok (m, cursor) := by
  rw [setField]
  cases hvalid : m.table.isValid cursor with
  | false => rfl
  | true =>
    rw [h.resolve_left (by rw [hvalid]; decide)]
    rfl

/-- Where the new field fits into the record, nothing around the record is touched. -/
theorem sameAround_setField {column : Nat} {value : Value} {type : ValueType} {record : Bytes}
    {start old dataEnd : Nat} {result : Memory × Cursor}
    (h : m.setField cursor column value = .ok result) (hvalid : m.table.isValid cursor = true)
    (htype : m.schema.type? column = some type) (hnull : type.isNull = false)
    (hrecord : m.table.record cursor = .ok record)
    (hstart : Record.fieldOffset m.schema.types record column = .ok start)
    (hold : Field.size type (record.drop start) = .ok old)
    (hend : Record.dataSize m.schema.types record = .ok dataEnd)
    (hfits : dataEnd - old + (Field.encode type (value.convertTo type)).length ≤ record.length) :
    result.2 = { cursor with generation := m.generation + 1 } ∧
      SameAround cursor record.length m result.1 := by
  obtain ⟨-, -, -, -, -, hheaderBytes⟩ := Table.exists_of_record hrecord
  obtain ⟨-, hback, hwithin⟩ :=
    Record.field_bounds ((Schema.type?_eq _ _).symm.trans htype) hheaderBytes hstart hold hend
  rw [setField, hvalid, htype] at h
  simp only [Bool.not_true, Bool.false_eq_true, if_false, hnull, hrecord, hstart, hold, hend,
    ok_bind, if_neg (Nat.not_lt.mpr hfits)] at h
  obtain ⟨resized, hresized, h⟩ := exists_of_bind_ok h
  obtain rfl := resizeSegment_self hresized
  obtain ⟨header, hheader, h⟩ := exists_of_bind_ok h
  obtain ⟨b, hb, h⟩ := exists_of_bind_ok h
  obtain ⟨b', hreplace, htouch⟩ := exists_of_bind_ok h
  obtain rfl := touchAt_eq_ok htouch
  refine ⟨rfl, b, b', buffer_eq_ok.mp hb, rfl, ?_⟩
  have hlength : header.length ≤ record.length :=
    (Record.length_header hheader).trans_le hheaderBytes
  exact Buffer.sameOutside_replaceField hreplace hlength hback hwithin hfits

end Memory

end RecordStore
