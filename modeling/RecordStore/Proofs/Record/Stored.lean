import Mathlib
import RecordStore.Proofs.Outcome
import RecordStore.Proofs.Record.Field
import RecordStore.Record.Basic

/-!
# Stored records

A stored record is a header with its own size, one field for each column, and slack. The structure
`Stored` holds the fields and the slack together with the proof that the fields are fields of the
columns and that the size fits the header. Everything that is done to the bytes of a record is a
small change of such a structure. The fields are found again as far as they are legible.
-/

namespace RecordStore

namespace Record

/-! ### Sizes of fields -/

lemma fieldsSize?_flatten {types : List ValueType} {fields : List Bytes}
    (h : List.Forall₂ Field.IsField types fields)
    (legible : List.Forall₂ Field.Legible types fields) (rest : Bytes) :
    fieldsSize? types (fields.flatten ++ rest) = some fields.flatten.length := by
  induction h with
  | nil => rfl
  | cons hfield _ ih =>
    obtain ⟨hlegible, hothers⟩ := List.forall₂_cons.mp legible
    rw [List.flatten_cons, List.append_assoc, fieldsSize?, Field.size?_append hfield hlegible]
    simp [ih hothers]

lemma fieldsSize_cons {t : ValueType} {field : Bytes} (h : Field.IsField t field)
    (legible : Field.Legible t field) (ts : List ValueType) (rest : Bytes) :
    fieldsSize (t :: ts) (field ++ rest) =
      (do return field.length + (← fieldsSize ts rest)) := by
  rw [fieldsSize, Field.size, Field.size?_append h legible]
  change (do return _ + (← fieldsSize _ _)) = _
  rw [List.drop_left]

/-- The sizes of fields are told, unless one of them is not legible. -/
lemma fieldsSize_flatten {types : List ValueType} {fields : List Bytes}
    (h : List.Forall₂ Field.IsField types fields) (rest : Bytes) :
    List.Forall₂ Field.Legible types fields ∧
        fieldsSize types (fields.flatten ++ rest) = .ok fields.flatten.length ∨
      ¬ List.Forall₂ Field.Legible types fields ∧
        Garbled (fieldsSize types (fields.flatten ++ rest)) := by
  induction h with
  | nil => exact .inl ⟨.nil, rfl⟩
  | @cons t field ts fields hfield _ ih =>
    rw [List.flatten_cons, List.append_assoc, List.forall₂_cons]
    by_cases hlegible : Field.Legible t field
    · rw [fieldsSize_cons hfield hlegible, List.length_append]
      rcases ih with ⟨hothers, hrun⟩ | ⟨hothers, t', hrun⟩
      · rw [hrun]
        exact .inl ⟨⟨hlegible, hothers⟩, rfl⟩
      · rw [hrun]
        exact .inr ⟨fun hboth => hothers hboth.2, t', rfl⟩
    · rw [fieldsSize, Field.size, Field.size?_eq_none hfield hlegible]
      exact .inr ⟨fun hboth => hlegible hboth.1, t, rfl⟩

/-- Bytes in which a field is found for each type start with these fields. -/
lemma exists_of_fieldsSize? {types : List ValueType} {bytes : Bytes} {n : Nat}
    (h : fieldsSize? types bytes = some n) :
    ∃ fields rest, bytes = List.flatten fields ++ rest ∧ (List.flatten fields).length = n ∧
      List.Forall₂ Field.IsField types fields ∧ List.Forall₂ Field.Legible types fields := by
  induction types generalizing bytes n with
  | nil =>
    cases h
    exact ⟨[], bytes, rfl, rfl, .nil, .nil⟩
  | cons t ts ih =>
    simp only [fieldsSize?, Option.bind_eq_bind, Option.bind_eq_some_iff] at h
    obtain ⟨size, hsize, more, hmore, hsum⟩ := h
    cases hsum
    obtain ⟨field, rest, rfl, rfl, hfield, hlegible⟩ := Field.exists_of_size? hsize
    rw [List.drop_left] at hmore
    obtain ⟨fields, rest, rfl, rfl, hfields, hothers⟩ := ih hmore
    refine ⟨field :: fields, rest, ?_, ?_, .cons hfield hfields, .cons hlegible hothers⟩
    · rw [List.flatten_cons, List.append_assoc]
    · rw [List.flatten_cons, List.length_append]

/-! ### Fields behind a header -/

section Header

variable {types : List ValueType} {front : Bytes} {fields : List Bytes} {column : Nat}

lemma flatten_split (fields : List Bytes) (column : Nat) :
    fields.flatten = (fields.take column).flatten ++ (fields.drop column).flatten := by
  rw [← List.flatten_append, List.take_append_drop]

/-- The fields around the field of a column. -/
lemma flatten_around {field : Bytes} (h : fields[column]? = some field) :
    fields.flatten =
      (fields.take column).flatten ++ (field ++ (fields.drop (column + 1)).flatten) := by
  obtain ⟨hlt, rfl⟩ := List.getElem?_eq_some_iff.mp h
  rw [flatten_split fields column, List.drop_eq_getElem_cons hlt, List.flatten_cons]

/-- Members at one place of two lists are related as all such members are. -/
lemma rel_of_getElem? {α β : Type} {R : α → β → Prop} {l : List α} {l' : List β}
    (h : List.Forall₂ R l l') {i : Nat} {a : α} {b : β} (ha : l[i]? = some a)
    (hb : l'[i]? = some b) : R a b := by
  obtain ⟨hlt, rfl⟩ := List.getElem?_eq_some_iff.mp ha
  obtain ⟨hlt', rfl⟩ := List.getElem?_eq_some_iff.mp hb
  exact h.get hlt hlt'

lemma exists_field_of_type (h : List.Forall₂ Field.IsField types fields) {t : ValueType}
    (ht : types[column]? = some t) :
    ∃ field, fields[column]? = some field ∧ Field.IsField t field := by
  obtain ⟨hlt, rfl⟩ := List.getElem?_eq_some_iff.mp ht
  have hfields : column < fields.length := h.length_eq ▸ hlt
  exact ⟨fields[column], List.getElem?_eq_getElem hfields, h.get hlt hfields⟩

/-- A field starts behind the fields in front of it, if these are legible. -/
lemma fieldOffset_append_cases (hfront : front.length = headerBytes)
    (h : List.Forall₂ Field.IsField types fields) (slack : Bytes) (column : Nat) :
    List.Forall₂ Field.Legible (types.take column) (fields.take column) ∧
        fieldOffset types (front ++ (fields.flatten ++ slack)) column =
          .ok (headerBytes + (fields.take column).flatten.length) ∨
      ¬ List.Forall₂ Field.Legible (types.take column) (fields.take column) ∧
        Garbled (fieldOffset types (front ++ (fields.flatten ++ slack)) column) := by
  rw [fieldOffset, List.drop_left' hfront, flatten_split fields column, List.append_assoc]
  rcases fieldsSize_flatten (List.forall₂_take column h) _ with
    ⟨hlegible, hrun⟩ | ⟨hlegible, t, hrun⟩
  · rw [hrun]
    exact .inl ⟨hlegible, rfl⟩
  · rw [hrun]
    exact .inr ⟨hlegible, t, rfl⟩

/-- The size without slack is told, unless a field is not legible. -/
lemma dataSize_append_cases (hfront : front.length = headerBytes)
    (h : List.Forall₂ Field.IsField types fields) (slack : Bytes) :
    List.Forall₂ Field.Legible types fields ∧
        dataSize types (front ++ (fields.flatten ++ slack)) =
          .ok (headerBytes + fields.flatten.length) ∨
      ¬ List.Forall₂ Field.Legible types fields ∧
        Garbled (dataSize types (front ++ (fields.flatten ++ slack))) := by
  have hoffset := fieldOffset_append_cases hfront h slack types.length
  rwa [List.take_of_length_le le_rfl, List.take_of_length_le h.length_eq.ge] at hoffset

lemma fieldOffset_append (hfront : front.length = headerBytes)
    (h : List.Forall₂ Field.IsField types fields)
    (legible : List.Forall₂ Field.Legible types fields) (slack : Bytes) (column : Nat) :
    fieldOffset types (front ++ (fields.flatten ++ slack)) column =
      .ok (headerBytes + (fields.take column).flatten.length) := by
  rcases fieldOffset_append_cases hfront h slack column with ⟨-, hrun⟩ | ⟨hillegible, -⟩
  · exact hrun
  · exact absurd (List.forall₂_take column legible) hillegible

lemma dataSize_append (hfront : front.length = headerBytes)
    (h : List.Forall₂ Field.IsField types fields)
    (legible : List.Forall₂ Field.Legible types fields) (slack : Bytes) :
    dataSize types (front ++ (fields.flatten ++ slack)) =
      .ok (headerBytes + fields.flatten.length) := by
  rcases dataSize_append_cases hfront h slack with ⟨-, hrun⟩ | ⟨hillegible, -⟩
  · exact hrun
  · exact absurd legible hillegible

lemma dataSize?_append (hfront : front.length = headerBytes)
    (h : List.Forall₂ Field.IsField types fields)
    (legible : List.Forall₂ Field.Legible types fields) (slack : Bytes) :
    dataSize? types (front ++ (fields.flatten ++ slack)) =
      some (headerBytes + fields.flatten.length) := by
  have hlen : Bytes.atLeast headerBytes (front ++ (fields.flatten ++ slack)) = true := by
    rw [Bytes.atLeast_eq_true, List.length_append, hfront]
    exact Nat.le_add_right _ _
  rw [dataSize?, if_pos hlen, List.drop_left' hfront, fieldsSize?_flatten h legible]
  rfl

/-- Bytes that pass the check are a header, whatever it says, a legible field for each type, and
slack. -/
lemma exists_parts_of_dataSize? {bytes : Bytes} {used : Nat}
    (h : dataSize? types bytes = some used) :
    ∃ front fields slack, bytes = front ++ (List.flatten fields ++ slack) ∧
      front.length = headerBytes ∧ List.Forall₂ Field.IsField types fields ∧
      List.Forall₂ Field.Legible types fields ∧
      used = headerBytes + (List.flatten fields).length := by
  unfold dataSize? at h
  split at h
  · rename_i hlen
    obtain ⟨n, hn, rfl⟩ := Option.map_eq_some_iff.mp h
    obtain ⟨fields, slack, hdrop, rfl, hfields, hlegible⟩ := exists_of_fieldsSize? hn
    refine ⟨bytes.take headerBytes, fields, slack, ?_, ?_, hfields, hlegible, rfl⟩
    · rw [← hdrop, List.take_append_drop]
    · exact List.length_take_of_le (Bytes.atLeast_eq_true.mp hlen)
  · cases h

/-- Where a field starts, it is at the front of what is left. -/
lemma drop_append_of_getElem? (hfront : front.length = headerBytes) {field : Bytes}
    (h : fields[column]? = some field) (slack : Bytes) :
    (front ++ (fields.flatten ++ slack)).drop
        (headerBytes + (fields.take column).flatten.length) =
      field ++ ((fields.drop (column + 1)).flatten ++ slack) := by
  rw [← List.drop_drop, List.drop_left' hfront, flatten_around h, List.append_assoc, List.drop_left,
    List.append_assoc]

end Header

/-! ### Runs of bytes -/

/-- A header that states a size within the bytes is still there when they are cut to this size. -/
lemma number?_take {bytes : Bytes} {size : Nat} (h : Field.number? headerBytes bytes = some size)
    (hle : headerBytes ≤ size) (hlen : size ≤ bytes.length) :
    Field.number? headerBytes (bytes.take size) = some (bytes.take size).length := by
  obtain ⟨hlt, rest, rfl⟩ := Field.exists_of_number? h
  rw [List.length_take_of_le hlen, List.take_append, LittleEndian.length_encode,
    List.take_of_length_le (by rw [LittleEndian.length_encode]; exact hle)]
  exact Field.number?_encode_append hlt _

/-- The first record of a run has the size that its header states. -/
lemma exists_size_of_first? {bytes record rest : Bytes} (h : first? bytes = some (record, rest)) :
    ∃ size, Field.number? headerBytes bytes = some size ∧ headerBytes ≤ size ∧
      size ≤ bytes.length ∧ record = bytes.take size ∧ rest = bytes.drop size := by
  simp only [first?, Option.bind_eq_bind, Option.bind_eq_some_iff] at h
  obtain ⟨size, hsize, h⟩ := h
  split_ifs at h with hbounds
  cases h
  obtain ⟨hle, hlen⟩ := hbounds
  exact ⟨size, hsize, hle, Bytes.atLeast_eq_true.mp hlen, rfl, rfl⟩

/-- The records of a run are its first one and those of the bytes behind it. -/
lemma split_of_first? {bytes record rest : Bytes} (h : first? bytes = some (record, rest)) :
    split bytes = (record :: ·) <$> split rest := by
  have hsome : ¬ bytes.isEmpty = true := by
    intro hempty
    obtain rfl := List.isEmpty_iff.mp hempty
    exact Nat.not_lt_zero _ (first?_length h)
  rw [split, if_neg hsome]
  split
  · rename_i hnone
    cases hnone.symm.trans h
  · rename_i hfirst
    cases hfirst.symm.trans h
    rfl

/-! ### Stored records -/

/-- A record taken apart. -/
structure Stored (types : List ValueType) where
  /-- One field for each column. -/
  fields : List Bytes
  slack : Bytes
  isField : List.Forall₂ Field.IsField types fields
  small : headerBytes + fields.flatten.length + slack.length < 256 ^ headerBytes

namespace Stored

variable {types : List ValueType}

/-- The size of the header and the fields. -/
def dataSize (r : Stored types) : Nat := headerBytes + r.fields.flatten.length

/-- The size that the header states. -/
def size (r : Stored types) : Nat := r.dataSize + r.slack.length

def bytes (r : Stored types) : Bytes :=
  LittleEndian.encode headerBytes r.size ++ (r.fields.flatten ++ r.slack)

/-- The values of the cells. -/
def values (r : Stored types) : List Value := types.zipWith Field.value r.fields

/-! ### Sizes -/

lemma size_lt (r : Stored types) : r.size < 256 ^ headerBytes := r.small

@[simp] lemma length_bytes (r : Stored types) : r.bytes.length = r.size := by
  simp only [bytes, List.length_append, LittleEndian.length_encode, size, dataSize]
  omega

lemma headerBytes_le_size (r : Stored types) : headerBytes ≤ r.size := by
  simp only [size, dataSize]
  omega

lemma size_pos (r : Stored types) : 0 < r.size :=
  Nat.lt_of_lt_of_le (by decide) r.headerBytes_le_size

lemma bytes_ne_nil (r : Stored types) : r.bytes ≠ [] := by
  intro h
  have := r.size_pos
  rw [← length_bytes, h] at this
  exact absurd this (by simp)

lemma length_fields (r : Stored types) : r.fields.length = types.length := r.isField.length_eq.symm

lemma length_values (r : Stored types) : r.values.length = types.length := by
  rw [values, List.length_zipWith, r.length_fields, Nat.min_self]

lemma drop_header (r : Stored types) : r.bytes.drop headerBytes = r.fields.flatten ++ r.slack :=
  LittleEndian.drop_encode_append _ _ _

/-! ### Runs of records -/

/-- The header of a record is its size, whatever follows. -/
lemma number?_bytes_append (r : Stored types) (rest : Bytes) :
    Field.number? headerBytes (r.bytes ++ rest) = some r.size := by
  rw [bytes, List.append_assoc]
  exact Field.number?_encode_append r.size_lt _

/-- A record is found by its header, whatever follows. -/
lemma first?_append (r : Stored types) (rest : Bytes) :
    first? (r.bytes ++ rest) = some (r.bytes, rest) := by
  rw [first?, number?_bytes_append, Option.bind_eq_bind, Option.bind_some, if_pos]
  · rw [List.take_left' r.length_bytes, List.drop_left' r.length_bytes]
  · refine ⟨r.headerBytes_le_size, ?_⟩
    simp

/-- A gapless run of records is taken apart again. -/
theorem split_flatMap (rs : List (Stored types)) :
    split (rs.flatMap bytes) = .ok (rs.map bytes) := by
  induction rs with
  | nil =>
    rw [split]
    rfl
  | cons r rs ih =>
    rw [List.flatMap_cons, split_of_first? (r.first?_append _), ih]
    rfl

/-! ### Places of fields -/

/-- Every field of the record is legible. -/
def Legible (r : Stored types) : Prop := List.Forall₂ Field.Legible types r.fields

lemma fieldOffset_bytes_cases (r : Stored types) (column : Nat) :
    List.Forall₂ Field.Legible (types.take column) (r.fields.take column) ∧
        fieldOffset types r.bytes column =
          .ok (headerBytes + (r.fields.take column).flatten.length) ∨
      ¬ List.Forall₂ Field.Legible (types.take column) (r.fields.take column) ∧
        Garbled (fieldOffset types r.bytes column) :=
  fieldOffset_append_cases (LittleEndian.length_encode _ _) r.isField r.slack column

lemma dataSize_bytes_cases (r : Stored types) :
    r.Legible ∧ Record.dataSize types r.bytes = .ok r.dataSize ∨
      ¬ r.Legible ∧ Garbled (Record.dataSize types r.bytes) :=
  dataSize_append_cases (LittleEndian.length_encode _ _) r.isField r.slack

lemma fieldOffset_bytes {r : Stored types} (legible : r.Legible) (column : Nat) :
    fieldOffset types r.bytes column =
      .ok (headerBytes + (r.fields.take column).flatten.length) :=
  fieldOffset_append (LittleEndian.length_encode _ _) r.isField legible r.slack column

lemma dataSize_bytes {r : Stored types} (legible : r.Legible) :
    Record.dataSize types r.bytes = .ok r.dataSize :=
  dataSize_append (LittleEndian.length_encode _ _) r.isField legible r.slack

lemma garbled_dataSize {r : Stored types} (illegible : ¬ r.Legible) :
    Garbled (Record.dataSize types r.bytes) := by
  rcases r.dataSize_bytes_cases with ⟨hlegible, -⟩ | ⟨-, hgarbled⟩
  · exact absurd hlegible illegible
  · exact hgarbled

lemma dataSize?_bytes {r : Stored types} (legible : r.Legible) :
    dataSize? types r.bytes = some r.dataSize :=
  dataSize?_append (LittleEndian.length_encode _ _) r.isField legible r.slack

lemma header_size (r : Stored types) :
    header r.size = .ok (LittleEndian.encode headerBytes r.size) :=
  if_pos r.size_lt

/-- Bytes with a header of their own size in which the fields are found are a legible record. -/
theorem exists_of_dataSize? {bytes : Bytes} {used : Nat}
    (hsize : Field.number? headerBytes bytes = some bytes.length)
    (hused : dataSize? types bytes = some used) :
    ∃ r : Stored types, r.bytes = bytes ∧ r.dataSize = used ∧ r.Legible := by
  obtain ⟨hlt, rest, hbytes⟩ := Field.exists_of_number? hsize
  obtain ⟨front, fields, slack, hparts, hfront, hisField, hlegible, rfl⟩ :=
    exists_parts_of_dataSize? hused
  have hlen : bytes.length = headerBytes + fields.flatten.length + slack.length := by
    rw [hparts, List.length_append, List.length_append, hfront, Nat.add_assoc]
  obtain ⟨rfl, -⟩ : front = LittleEndian.encode headerBytes bytes.length ∧ _ :=
    List.append_inj (hparts.symm.trans hbytes) (hfront.trans (LittleEndian.length_encode _ _).symm)
  refine ⟨⟨fields, slack, hisField, hlen ▸ hlt⟩, ?_, rfl, hlegible⟩
  change LittleEndian.encode headerBytes (headerBytes + fields.flatten.length + slack.length) ++
    (fields.flatten ++ slack) = bytes
  rw [← hlen, ← hparts]

/-! ### Records without columns -/

/-- Whatever its bytes, the first of a run of records is a header of its own size and slack. -/
lemma exists_of_first? {bytes record rest : Bytes} (h : first? bytes = some (record, rest)) :
    ∃ r : Stored [], r.bytes = record ∧ bytes = record ++ rest := by
  obtain ⟨size, hsize, hle, hlen, rfl, rfl⟩ := exists_size_of_first? h
  have hframe : dataSize? [] (bytes.take size) = some headerBytes := by
    rw [dataSize?, if_pos]
    · rfl
    · rwa [Bytes.atLeast_eq_true, List.length_take_of_le hlen]
  obtain ⟨r, hr, -, -⟩ := exists_of_dataSize? (number?_take hsize hle hlen) hframe
  exact ⟨r, hr, (List.take_append_drop size bytes).symm⟩

/-- A run that can be taken apart is a run of records, with or without columns. -/
theorem exists_of_split {bytes : Bytes} {records : List Bytes} (h : split bytes = .ok records) :
    ∃ rs : List (Stored []), rs.map Stored.bytes = records ∧ rs.flatMap Stored.bytes = bytes := by
  fun_induction split bytes generalizing records with
  | case1 bytes hempty =>
    cases h
    exact ⟨[], rfl, (List.isEmpty_iff.mp hempty).symm⟩
  | case2 => cases h
  | case3 bytes _ record rest hfirst ih =>
    obtain ⟨others, hothers, rfl⟩ := exists_of_map_ok h
    obtain ⟨rs, rfl, rfl⟩ := ih hothers
    obtain ⟨r, rfl, rfl⟩ := exists_of_first? hfirst
    exact ⟨r :: rs, rfl, rfl⟩

/-! ### Cells -/

lemma getElem?_values (r : Stored types) {column : Nat} {t : ValueType} {field : Bytes}
    (ht : types[column]? = some t) (hfield : r.fields[column]? = some field) :
    r.values[column]? = some (Field.value t field) := by
  rw [values, List.getElem?_zipWith, ht, hfield]

lemma exists_field (r : Stored types) {column : Nat} {t : ValueType}
    (ht : types[column]? = some t) :
    ∃ field, r.fields[column]? = some field ∧ Field.IsField t field :=
  exists_field_of_type r.isField ht

/-- Each value of a record is the value of a field of its column. -/
lemma exists_of_mem_values (r : Stored types) {v : Value} (h : v ∈ r.values) :
    ∃ t ∈ types, ∃ field, Field.IsField t field ∧ Field.value t field = v := by
  obtain ⟨column, hcolumn⟩ := List.mem_iff_getElem?.mp h
  obtain ⟨t, field, ht, hfield, rfl⟩ := List.getElem?_zipWith_eq_some.mp hcolumn
  obtain ⟨field', hfield', hisField⟩ := r.exists_field ht
  rw [hfield] at hfield'
  cases hfield'
  exact ⟨t, List.mem_of_getElem? ht, field, hisField, rfl⟩

lemma proper_values (r : Stored types) : ∀ v ∈ r.values, v.Proper := by
  intro v hv
  obtain ⟨t, -, field, hisField, rfl⟩ := r.exists_of_mem_values hv
  exact Field.proper_value hisField

lemma stored_values (r : Stored types) : ∀ v ∈ r.values, v.stored = v := by
  intro v hv
  obtain ⟨t, -, field, hisField, rfl⟩ := r.exists_of_mem_values hv
  exact Field.stored_value hisField

lemma tellsAll_zipWith_value_iff {types others : List ValueType} {fields : List Bytes}
    (h : List.Forall₂ Field.IsField types fields) :
    ValueType.TellsAll others ((types.zipWith Field.value fields).map Value.type) ↔
      ValueType.TellsAll others types := by
  induction h generalizing others with
  | nil => exact Iff.rfl
  | cons hfield _ ih =>
    cases others with
    | nil => exact iff_of_true nofun nofun
    | cons t others =>
      rw [List.zipWith_cons_cons, List.map_cons, ValueType.tellsAll_cons, ValueType.tellsAll_cons,
        ih]
      exact and_congr_left' (imp_congr_right fun _ => Field.named_value_iff hfield)

/-- What tells the types of the columns tells the values of a record, and nothing else does. -/
lemma tellsAll_values_iff (r : Stored types) {others : List ValueType} :
    ValueType.TellsAll others (r.values.map Value.type) ↔ ValueType.TellsAll others types :=
  tellsAll_zipWith_value_iff r.isField

/-- The bytes of a record around the field of a column. -/
lemma bytes_eq_around (r : Stored types) {column : Nat} {field : Bytes}
    (h : r.fields[column]? = some field) :
    r.fields.flatten ++ r.slack =
      (r.fields.take column).flatten ++
        (field ++ ((r.fields.drop (column + 1)).flatten ++ r.slack)) := by
  rw [flatten_around h]
  simp only [List.append_assoc]

/-- The cell of a column is found where the field starts. -/
lemma decode?_bytes (r : Stored types) {column : Nat} {t : ValueType} {field : Bytes}
    (ht : types[column]? = some t) (h : r.fields[column]? = some field) :
    Field.decode? t (r.bytes.drop (headerBytes + (r.fields.take column).flatten.length)) =
      some (Field.value t field) := by
  obtain ⟨field', hfield', hisField⟩ := r.exists_field ht
  rw [h] at hfield'
  cases hfield'
  rw [bytes, drop_append_of_getElem? (LittleEndian.length_encode _ _) h]
  exact Field.decode?_append hisField _

lemma fieldSize_bytes {r : Stored types} (legible : r.Legible) {column : Nat} {t : ValueType}
    {field : Bytes} (ht : types[column]? = some t) (h : r.fields[column]? = some field) :
    Field.size t (r.bytes.drop (headerBytes + (r.fields.take column).flatten.length)) =
      .ok field.length := by
  rw [bytes, drop_append_of_getElem? (LittleEndian.length_encode _ _) h, Field.size,
    Field.size?_append (rel_of_getElem? r.isField ht h) (rel_of_getElem? legible ht h)]

/-- What is read of the record in a column: null past the last one. -/
def read (r : Stored types) (column : Nat) : Except Fault Value :=
  match types[column]? with
  | none => .ok .plainNull
  | some type => do
    let start ← fieldOffset types r.bytes column
    match Field.decode? type (r.bytes.drop start) with
    | some v => return v
    | none => throw (.corruptField type)

/-- The value of a column is read, unless it is behind a field that is not legible. -/
lemma read_cases (r : Stored types) (column : Nat) :
    r.read column = .ok ((r.values[column]?).getD .plainNull) ∨
      ¬ List.Forall₂ Field.Legible (types.take column) (r.fields.take column) ∧
        Garbled (r.read column) := by
  rw [read]
  cases ht : types[column]? with
  | none =>
    have hvalue : r.values[column]? = none := by
      rw [List.getElem?_eq_none_iff, r.length_values]
      exact List.getElem?_eq_none_iff.mp ht
    rw [hvalue]
    exact .inl rfl
  | some type =>
    obtain ⟨field, hfield, -⟩ := r.exists_field ht
    rcases r.fieldOffset_bytes_cases column with ⟨-, hoffset⟩ | ⟨hillegible, hgarbled⟩
    · simp only [r.getElem?_values ht hfield, ok_bind, hoffset, r.decode?_bytes ht hfield]
      exact .inl rfl
    · exact .inr ⟨hillegible, hgarbled.bind _⟩

lemma read_eq {r : Stored types} (legible : r.Legible) (column : Nat) :
    r.read column = .ok ((r.values[column]?).getD .plainNull) := by
  rcases r.read_cases column with hread | ⟨hillegible, -⟩
  · exact hread
  · exact absurd (List.forall₂_take column legible) hillegible

/-- What is read of the record in all columns. -/
def reads (r : Stored types) : List (Except Fault Value) :=
  (List.range types.length).map r.read

lemma map_range_values (r : Stored types) :
    (List.range types.length).map (fun column => (r.values[column]?).getD .plainNull) =
      r.values := by
  apply List.ext_getElem
  · rw [List.length_map, List.length_range, r.length_values]
  · intro i hi hi'
    rw [List.getElem_map, List.getElem_range, List.getElem?_eq_getElem hi']
    rfl

lemma reads_eq {r : Stored types} (legible : r.Legible) : r.reads = r.values.map .ok := by
  have hvalues := congrArg (List.map (@Except.ok Fault Value)) r.map_range_values
  rw [List.map_map] at hvalues
  rw [reads, ← hvalues]
  exact List.map_congr_left fun column _ => read_eq legible column

/-- Of a record that is not legible, the place of a field and the size of all fields are not both
told. -/
lemma garbled_places {r : Stored types} (illegible : ¬ r.Legible) {column : Nat} {t : ValueType}
    (ht : types[column]? = some t) {α : Type} (next : Nat → Nat → Nat → Except Fault α) :
    Garbled (do
      let start ← fieldOffset types r.bytes column
      let old ← Field.size t (r.bytes.drop start)
      let dataEnd ← Record.dataSize types r.bytes
      next start old dataEnd) := by
  rcases r.fieldOffset_bytes_cases column with ⟨-, hoffset⟩ | ⟨-, hgarbled⟩
  · obtain ⟨field, hfield, hisField⟩ := r.exists_field ht
    rw [hoffset, ok_bind, bytes,
      drop_append_of_getElem? (LittleEndian.length_encode _ _) hfield, Field.size]
    by_cases hlegible : Field.Legible t field
    · rw [Field.size?_append hisField hlegible]
      exact (garbled_dataSize illegible).bind _
    · rw [Field.size?_eq_none hisField hlegible]
      exact ⟨t, rfl⟩
  · exact hgarbled.bind _

/-! ### Records without slack -/

/-- The record without its slack. -/
def trim (r : Stored types) : Stored types where
  fields := r.fields
  slack := []
  isField := r.isField
  small := by
    have := r.size_lt
    simp only [size, dataSize] at this
    simp only [List.length_nil]
    omega

@[simp] lemma values_trim (r : Stored types) : r.trim.values = r.values := rfl

lemma size_trim (r : Stored types) : r.trim.size = r.dataSize := rfl

/-- Without slack a record is given by its fields. -/
lemma bytes_trim (r : Stored types) :
    r.trim.bytes = LittleEndian.encode headerBytes (headerBytes + r.fields.flatten.length) ++
      r.fields.flatten := by
  rw [bytes, size_trim, trim, List.append_nil, dataSize]

lemma trim_of_slack_eq_nil {r : Stored types} (h : r.slack = []) : r.trim = r := by
  cases r
  cases h
  rfl

lemma dataSize_eq_size_iff (r : Stored types) : r.dataSize = r.size ↔ r.slack = [] := by
  rw [size, ← List.length_eq_zero_iff]
  omega

lemma dense_bytes {r : Stored types} (legible : r.Legible) :
    Record.dense types r.bytes = .ok r.trim.bytes := by
  have hheader : header r.dataSize = .ok (LittleEndian.encode headerBytes r.dataSize) :=
    r.trim.header_size
  have htake : (r.bytes.take r.dataSize).drop headerBytes = r.fields.flatten := by
    have hsize : r.dataSize - headerBytes = r.fields.flatten.length := by
      rw [dataSize, Nat.add_sub_cancel_left]
    rw [List.drop_take, drop_header, hsize, List.take_left]
  rw [Record.dense, dataSize_bytes legible]
  change (do return (← header r.dataSize) ++ (r.bytes.take r.dataSize).drop headerBytes) = _
  rw [hheader, htake, bytes, size_trim]
  change Except.ok _ = Except.ok (_ ++ (r.fields.flatten ++ []))
  rw [List.append_nil]

end Stored

end Record

end RecordStore
