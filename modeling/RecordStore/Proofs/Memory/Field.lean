import Mathlib
import RecordStore.Proofs.Memory.Writing
import RecordStore.Proofs.Record.Change

/-!
# A field that is replaced in place

A field is between the header and the end of the fields of its record, so the bytes of a record are
taken apart at it. Replacing it piece by piece in memory leaves what replacing it at once does.
-/

namespace RecordStore

namespace Record

/-! ### The place of a field -/

lemma size_le_length {type : ValueType} {bytes : Bytes} {n : Nat}
    (h : Field.size type bytes = .ok n) : n ≤ bytes.length := by
  rw [Field.size] at h
  cases hsize : Field.size? type bytes with
  | none =>
    rw [hsize] at h
    cases h
  | some m =>
    rw [hsize] at h
    cases h
    obtain ⟨field, rest, rfl, rfl, -⟩ := Field.exists_of_size? hsize
    rw [List.length_append]
    exact Nat.le_add_right _ _

lemma fieldsSize_cons_eq_ok {type : ValueType} {types : List ValueType} {bytes : Bytes} {n : Nat} :
    fieldsSize (type :: types) bytes = .ok n ↔
      ∃ size more, Field.size type bytes = .ok size ∧
        fieldsSize types (bytes.drop size) = .ok more ∧ n = size + more := by
  rw [fieldsSize]
  constructor
  · intro h
    cases hsize : Field.size type bytes with
    | error e =>
      rw [hsize] at h
      cases h
    | ok size =>
      rw [hsize, ok_bind] at h
      cases hmore : fieldsSize types (bytes.drop size) with
      | error e =>
        rw [hmore] at h
        cases h
      | ok more =>
        rw [hmore] at h
        cases h
        exact ⟨size, more, rfl, hmore, rfl⟩
  · rintro ⟨size, more, hsize, hmore, rfl⟩
    rw [hsize, ok_bind, hmore]
    rfl

lemma fieldsSize_le_length {types : List ValueType} {bytes : Bytes} {n : Nat}
    (h : fieldsSize types bytes = .ok n) : n ≤ bytes.length := by
  induction types generalizing bytes n with
  | nil =>
    cases h
    exact Nat.zero_le _
  | cons type types ih =>
    obtain ⟨size, more, hsize, hmore, rfl⟩ := fieldsSize_cons_eq_ok.mp h
    have hfield := size_le_length hsize
    have hrest := ih hmore
    rw [List.length_drop] at hrest
    omega

/-- The fields of the types in front come first. -/
lemma exists_of_fieldsSize_append {front back : List ValueType} {bytes : Bytes} {n : Nat}
    (h : fieldsSize (front ++ back) bytes = .ok n) :
    ∃ start more, fieldsSize front bytes = .ok start ∧
      fieldsSize back (bytes.drop start) = .ok more ∧ n = start + more := by
  induction front generalizing bytes n with
  | nil => exact ⟨0, n, rfl, h, (Nat.zero_add n).symm⟩
  | cons type front ih =>
    obtain ⟨size, more, hsize, hmore, rfl⟩ := fieldsSize_cons_eq_ok.mp h
    obtain ⟨start, last, hstart, hlast, rfl⟩ := ih hmore
    refine ⟨size + start, last, fieldsSize_cons_eq_ok.mpr ⟨size, start, hsize, hstart, rfl⟩, ?_,
      (Nat.add_assoc _ _ _).symm⟩
    rwa [← List.drop_drop]

/-- A field is between the header and the end of the fields, and this is within the record. -/
lemma field_bounds {types : List ValueType} {type : ValueType} {record : Bytes}
    {column start old dataEnd : Nat} (htype : types[column]? = some type)
    (hrecord : headerBytes ≤ record.length) (hstart : fieldOffset types record column = .ok start)
    (hold : Field.size type (record.drop start) = .ok old)
    (hend : dataSize types record = .ok dataEnd) :
    headerBytes ≤ start ∧ start + old ≤ dataEnd ∧ dataEnd ≤ record.length := by
  obtain ⟨hlt, rfl⟩ := List.getElem?_eq_some_iff.mp htype
  obtain ⟨first, hfirst, rfl⟩ := exists_of_map_ok hstart
  obtain ⟨used, hused, rfl⟩ := exists_of_map_ok hend
  rw [List.take_length] at hused
  have hlength := fieldsSize_le_length hused
  rw [← List.take_append_drop column types, List.drop_eq_getElem_cons hlt] at hused
  obtain ⟨first', more, hfirst', hmore, rfl⟩ := exists_of_fieldsSize_append hused
  obtain rfl := Except.ok.inj (hfirst.symm.trans hfirst')
  obtain ⟨old', last, hold', -, rfl⟩ := fieldsSize_cons_eq_ok.mp hmore
  rw [List.drop_drop] at hold'
  obtain rfl := Except.ok.inj (hold.symm.trans hold')
  rw [List.length_drop] at hlength
  omega

lemma length_header {size : Nat} {bytes : Bytes} (h : header size = .ok bytes) :
    bytes.length = headerBytes := by
  rw [header] at h
  split_ifs at h
  cases h
  exact LittleEndian.length_encode _ _

/-- A record taken apart at a field. -/
lemma exists_parts {record : Bytes} {start old dataEnd : Nat} (hstart : headerBytes ≤ start)
    (hold : start + old ≤ dataEnd) (hend : dataEnd ≤ record.length) :
    ∃ header front field later rest : Bytes,
      record = header ++ (front ++ (field ++ (later ++ rest))) ∧ header.length = headerBytes ∧
        start = headerBytes + front.length ∧ field.length = old ∧
        dataEnd = headerBytes + front.length + field.length + later.length := by
  refine ⟨record.take headerBytes, record.slice headerBytes start, record.slice start (start + old),
    record.slice (start + old) dataEnd, record.drop dataEnd, ?_, ?_, ?_, ?_, ?_⟩
  · rw [Bytes.slice_append_drop _ hold, Bytes.slice_append_drop _ (Nat.le_add_right _ _),
      Bytes.take_append_slice_append_drop _ hstart]
  · rw [List.length_take]
    omega
  · rw [Bytes.length_slice_of_le (by omega)]
    omega
  · rw [Bytes.length_slice_of_le (by omega)]
    omega
  · rw [Bytes.length_slice_of_le (by omega), Bytes.length_slice_of_le (by omega),
      Bytes.length_slice_of_le hend]
    omega

end Record

namespace Table.Buffer

open Record (headerBytes)

/-- Replacing a field of a record in place is seen as writing the changed record over it. -/
theorem chunk_replaceField {b : Buffer} {before record after header field : Bytes}
    {start old dataEnd : Nat} (hlive : b.live = before ++ (record ++ after))
    (hheader : header.length = headerBytes) (hstart : headerBytes ≤ start)
    (hold : start + old ≤ dataEnd) (hend : dataEnd ≤ record.length)
    (hroom : dataEnd - old + field.length ≤ record.length) :
    chunk <$> b.replaceField (b.head + before.length) header start old dataEnd field =
      b.chunk.overwrite (b.head + before.length)
        (header ++ (Record.replaceField record start old dataEnd field).drop headerBytes) := by
  obtain ⟨header', front, old, later, rest, rfl, hheader', rfl, rfl, rfl⟩ :=
    Record.exists_parts hstart hold hend
  simp only [List.length_append] at hroom
  have hfits : field.length ≤ old.length + rest.length := by omega
  have hlive' : b.live = before ++ (header' ++ (front ++ (old ++ (later ++ (rest ++ after))))) := by
    rw [hlive]
    simp only [List.append_assoc]
  have hfits' : field.length ≤ old.length + (rest ++ after).length := by
    rw [List.length_append]
    omega
  obtain ⟨b', hreplace, hchunk⟩ := exists_replaceField hlive' (hheader'.trans hheader.symm) hfits'
  have hchanged := Record.Stored.replaceField_append (header' ++ front) old later rest field
  rw [List.length_append, hheader', List.append_assoc, List.append_assoc] at hchanged
  have hcleared : headerBytes + front.length + old.length + later.length -
      (headerBytes + front.length + field.length + later.length) = old.length - field.length := by
    omega
  have hgrown : headerBytes + front.length + field.length + later.length -
      (headerBytes + front.length + old.length + later.length) = field.length - old.length := by
    omega
  -- writing all at once
  have hpatch : (Record.replaceField (header' ++ (front ++ (old ++ (later ++ rest))))
      (headerBytes + front.length) old.length
      (headerBytes + front.length + old.length + later.length) field).drop headerBytes =
        front ++ (field ++ (later ++ (Bytes.zeros (old.length - field.length) ++
          rest.drop (field.length - old.length)))) := by
    rw [hchanged, hcleared, hgrown, List.drop_left' hheader']
  have hlength : (header' ++ (front ++ (old ++ (later ++ rest)))).length =
      (header ++ (front ++ (field ++ (later ++ (Bytes.zeros (old.length - field.length) ++
        rest.drop (field.length - old.length)))))).length := by
    simp only [List.length_append, Bytes.length_zeros, List.length_drop]
    omega
  obtain ⟨b'', hstore, hchunk'⟩ := exists_store hlive hlength
  rw [hheader] at hreplace
  rw [hpatch, ← chunk_store, hstore, hreplace]
  refine congrArg Except.ok (hchunk.trans (Eq.trans ?_ hchunk'.symm))
  rw [List.drop_append_of_le_length (by omega)]
  simp only [List.append_assoc]

end Table.Buffer

end RecordStore
