import Mathlib
import RecordStore.Proofs.Record.Stored

/-!
# New and changed records

A new record is written over zeros, and a changed record keeps its fields but one. Both are given
here as stored records, together with the bytes that an insertion or a replacement leaves behind.
-/

namespace RecordStore

lemma Bytes.resize_nil (n : Nat) : Bytes.resize [] n = zeros n := by
  rw [resize, List.take_nil, List.length_nil, Nat.sub_zero, List.nil_append]

namespace Record

/-! ### New records -/

/-- The fields of a new record: values are converted, and missing ones are zero. -/
def freshFields : List ValueType → List Value → List Bytes
  | [], _ => []
  | t :: ts, [] => Field.encode t (.zero t) :: freshFields ts []
  | t :: ts, v :: vs => Field.encode t (v.convertTo t) :: freshFields ts vs

/-- The cells of a new record, as they are read back. -/
def freshRow : List ValueType → List Value → List Value
  | [], _ => []
  | t :: ts, [] => (Value.zero t).stored :: freshRow ts []
  | t :: ts, v :: vs => (v.convertTo t).stored :: freshRow ts vs

lemma isField_freshFields (types : List ValueType) {values : List Value}
    (h : ∀ v ∈ values, v.Proper) : List.Forall₂ Field.IsField types (freshFields types values) := by
  induction types generalizing values with
  | nil => exact .nil
  | cons t ts ih =>
    cases values with
    | nil => exact .cons (Field.isField_encode (Value.proper_zero t) (Field.fits_zero t)) (ih h)
    | cons v vs =>
      obtain ⟨hv, hvs⟩ := List.forall_mem_cons.mp h
      exact .cons (Field.isField_encode (Value.proper_convertTo hv t) (Field.fits_convertTo t v))
        (ih hvs)

/-- Every field of a new record of these values is legible. -/
def LegibleRow (types : List ValueType) (values : List Value) : Prop :=
  List.Forall₂ Field.Legible types (freshFields types values)

/-- A new record is legible if every column tells the type of its value. -/
lemma legibleRow_iff {types : List ValueType} {values : List Value} :
    LegibleRow types values ↔ ValueType.TellsAll types (values.map Value.type) := by
  induction types generalizing values with
  | nil => exact iff_of_true .nil nofun
  | cons t ts ih =>
    cases values with
    | nil =>
      have hothers : LegibleRow ts [] := ih.mpr (ValueType.tellsAll_nil ts)
      exact iff_of_true (.cons (Field.legible_zero t) hothers) (ValueType.tellsAll_nil _)
    | cons v vs =>
      rw [LegibleRow, freshFields, List.forall₂_cons, List.map_cons, ValueType.tellsAll_cons]
      exact and_congr Field.legible_convertTo_iff ih

lemma zipWith_value_freshFields_iff {types : List ValueType} {values : List Value}
    (h : ∀ v ∈ values, v.Proper) :
    types.zipWith Field.value (freshFields types values) = freshRow types values ↔
      LegibleRow types values := by
  induction types generalizing values with
  | nil => exact iff_of_true rfl .nil
  | cons t ts ih =>
    cases values with
    | nil =>
      rw [LegibleRow, freshFields, freshRow, List.zipWith_cons_cons, List.cons_eq_cons,
        List.forall₂_cons]
      exact and_congr (Field.value_encode_iff (Value.proper_zero t) (Field.fits_zero t)) (ih h)
    | cons v vs =>
      obtain ⟨hv, hvs⟩ := List.forall_mem_cons.mp h
      rw [LegibleRow, freshFields, freshRow, List.zipWith_cons_cons, List.cons_eq_cons,
        List.forall₂_cons]
      exact and_congr
        (Field.value_encode_iff (Value.proper_convertTo hv t) (Field.fits_convertTo t v)) (ih hvs)

lemma freshFields_nil (types : List ValueType) :
    (freshFields types []).flatten = Bytes.zeros (types.map Field.minSize).sum := by
  induction types with
  | nil => rfl
  | cons t ts ih =>
    rw [freshFields, List.flatten_cons, ih, Field.encode_zero, List.map_cons, List.sum_cons,
      Bytes.zeros, Bytes.zeros, Bytes.zeros, List.replicate_add]

/-- What is written of a new record, and the zeros of the missing values behind it. -/
lemma freshFields_flatten (types : List ValueType) (values : List Value) :
    (freshFields types values).flatten =
      encodeFields (cells types values) ++
        Bytes.zeros ((types.drop values.length).map Field.minSize).sum := by
  induction types generalizing values with
  | nil => simp [freshFields, cells, encodeFields, Bytes.zeros]
  | cons t ts ih =>
    cases values with
    | nil => exact freshFields_nil (t :: ts)
    | cons v vs =>
      rw [freshFields, List.flatten_cons, ih]
      simp [cells, encodeFields]

lemma length_encodeFields (types : List ValueType) (values : List Value) :
    (encodeFields (cells types values)).length =
      ((cells types values).map fun (t, v) => Field.encodedSize t v).sum := by
  induction types generalizing values with
  | nil => rfl
  | cons t ts ih =>
    cases values with
    | nil => rfl
    | cons v vs =>
      have := ih vs
      simp only [encodeFields, cells] at this ⊢
      rw [List.zipWith_cons_cons, List.flatMap_cons, List.length_append, this, List.map_cons,
        List.sum_cons, Field.length_encode (Field.fits_convertTo t v)]

/-- The reserved size has room for the fields. -/
lemma length_freshFields_le (types : List ValueType) (values : List Value) (floor : Nat) :
    headerBytes + (freshFields types values).flatten.length ≤ reserveSize types values floor := by
  rw [freshFields_flatten, List.length_append, length_encodeFields, Bytes.length_zeros, reserveSize,
    ← Nat.add_assoc]
  refine Nat.add_le_add_right (Nat.add_le_add_left ?_ _) _
  exact List.sum_le_sum fun _ _ => Nat.le_max_right _ _

namespace Stored

variable {types : List ValueType}

/-- The fields with zeros behind them, up to `size` bytes. -/
def padded (fields : List Bytes) (isField : List.Forall₂ Field.IsField types fields) (size : Nat)
    (room : headerBytes + fields.flatten.length ≤ size) (small : size < 256 ^ headerBytes) :
    Stored types where
  fields := fields
  slack := Bytes.zeros (size - (headerBytes + fields.flatten.length))
  isField := isField
  small := by
    rw [Bytes.length_zeros]
    omega

lemma size_padded {fields : List Bytes} (isField : List.Forall₂ Field.IsField types fields)
    {size : Nat} (room : headerBytes + fields.flatten.length ≤ size)
    (small : size < 256 ^ headerBytes) : (padded fields isField size room small).size = size := by
  simp only [Stored.size, dataSize, padded, Bytes.length_zeros]
  omega

lemma bytes_padded {fields : List Bytes} (isField : List.Forall₂ Field.IsField types fields)
    {size : Nat} (room : headerBytes + fields.flatten.length ≤ size)
    (small : size < 256 ^ headerBytes) :
    (padded fields isField size room small).bytes =
      LittleEndian.encode headerBytes size ++
        (fields.flatten ++ Bytes.zeros (size - (headerBytes + fields.flatten.length))) := by
  rw [bytes, size_padded]
  rfl

/-- The header and the fields of a new record, written over zeros. -/
lemma bytes_padded_freshFields {values : List Value} (h : ∀ v ∈ values, v.Proper) {size : Nat}
    (room : headerBytes + (freshFields types values).flatten.length ≤ size)
    (small : size < 256 ^ headerBytes) :
    (padded (freshFields types values) (isField_freshFields types h) size room small).bytes =
      LittleEndian.encode headerBytes size ++ encodeFields (cells types values) ++
        (Bytes.zeros size).drop (headerBytes + (encodeFields (cells types values)).length) := by
  rw [bytes_padded]
  simp only [freshFields_flatten, List.length_append, Bytes.length_zeros] at room ⊢
  simp only [Bytes.zeros, List.drop_replicate, List.append_assoc, List.replicate_append_replicate]
  congr 4
  omega

/-- A new record of these values: its fields and zeros behind them, as many as it reserves. -/
structure IsFresh (values : List Value) (floor : Nat) (r : Stored types) : Prop where
  fields_eq : r.fields = freshFields types values
  slack_eq : r.slack = Bytes.zeros r.slack.length
  size_eq : r.size = reserveSize types values floor

/-- A new record, if it is not too large, with its bytes as they are written over zeros. -/
lemma exists_isFresh {values : List Value} (h : ∀ v ∈ values, v.Proper) {floor : Nat}
    (small : reserveSize types values floor < 256 ^ headerBytes) :
    ∃ r : Stored types, r.IsFresh values floor ∧
      r.bytes = LittleEndian.encode headerBytes (reserveSize types values floor) ++
        encodeFields (cells types values) ++
          (Bytes.zeros (reserveSize types values floor)).drop
            (headerBytes + (encodeFields (cells types values)).length) := by
  have hle := length_freshFields_le types values floor
  refine ⟨padded _ (isField_freshFields types h) _ hle small, ⟨rfl, ?_, ?_⟩, ?_⟩
  · simp only [padded, Bytes.length_zeros]
  · exact size_padded (isField_freshFields types h) hle small
  · exact bytes_padded_freshFields h hle small

lemma IsFresh.legible_iff {values : List Value} {floor : Nat} {r : Stored types}
    (h : r.IsFresh values floor) : r.Legible ↔ LegibleRow types values := by
  rw [Legible, h.fields_eq, LegibleRow]

/-- A new record reads as the row of its values if it is legible, and only then. -/
lemma IsFresh.values_eq_iff {values : List Value} {floor : Nat} {r : Stored types}
    (h : r.IsFresh values floor) (hvalues : ∀ v ∈ values, v.Proper) :
    r.values = freshRow types values ↔ r.Legible := by
  rw [h.legible_iff, Stored.values, h.fields_eq]
  exact zipWith_value_freshFields_iff hvalues

/-! ### Other fields in place -/

/-- Other fields in place of the old ones, in a record cut out of no fewer bytes than before. What
the fields leave behind is filled with zeros. -/
def refit (r : Stored types) (fields : List Bytes)
    (isField : List.Forall₂ Field.IsField types fields) (size : Nat) (grows : r.size ≤ size)
    (room : headerBytes + fields.flatten.length ≤ size) (small : size < 256 ^ headerBytes) :
    Stored types where
  fields := fields
  slack := Bytes.zeros (r.dataSize - (headerBytes + fields.flatten.length)) ++
    (r.slack ++ Bytes.zeros (size - r.size)).drop
      (headerBytes + fields.flatten.length - r.dataSize)
  isField := isField
  small := by
    simp only [Stored.size] at grows
    simp only [List.length_append, Bytes.length_zeros, List.length_drop, Stored.size]
    omega

lemma size_refit (r : Stored types) {fields : List Bytes}
    (isField : List.Forall₂ Field.IsField types fields) {size : Nat} (grows : r.size ≤ size)
    (room : headerBytes + fields.flatten.length ≤ size) (small : size < 256 ^ headerBytes) :
    (r.refit fields isField size grows room small).size = size := by
  have hsize : r.size = r.dataSize + r.slack.length := rfl
  change headerBytes + fields.flatten.length + List.length (_ ++ _) = size
  simp only [List.length_append, Bytes.length_zeros, List.length_drop]
  omega

/-- A record taken apart at a field that gives way to another. -/
lemma replaceField_append (front old later rest field : Bytes) :
    replaceField (front ++ (old ++ (later ++ rest))) front.length old.length
        (front.length + old.length + later.length) field =
      front ++ (field ++ (later ++
        (Bytes.zeros (front.length + old.length + later.length -
            (front.length + field.length + later.length)) ++
          rest.drop (front.length + field.length + later.length -
            (front.length + old.length + later.length))))) := by
  have hlater : ((front ++ (old ++ (later ++ rest))).take
      (front.length + old.length + later.length)).drop (front.length + old.length) = later := by
    rw [List.drop_take, Nat.add_sub_cancel_left, ← List.drop_drop, List.drop_left, List.drop_left,
      List.take_left]
  have hrest : (front ++ (old ++ (later ++ rest))).drop
      (max (front.length + field.length + later.length)
        (front.length + old.length + later.length)) =
      rest.drop (front.length + field.length + later.length -
        (front.length + old.length + later.length)) := by
    have hmax : max (front.length + field.length + later.length)
        (front.length + old.length + later.length) =
        front.length + (old.length + (later.length + (front.length + field.length + later.length -
          (front.length + old.length + later.length)))) := by omega
    rw [hmax, ← List.drop_drop, List.drop_left, ← List.drop_drop, List.drop_left, ← List.drop_drop,
      List.drop_left]
  simp only [replaceField]
  rw [hlater, hrest, List.take_left]
  simp only [List.append_assoc]

/-- The field of a column gives way to another in the stored bytes. -/
lemma replaceField_bytes (r : Stored types) {column : Nat} {old field : Bytes}
    (hold : r.fields[column]? = some old)
    (isField : List.Forall₂ Field.IsField types (r.fields.set column field)) {size : Nat}
    (grows : r.size ≤ size)
    (room : headerBytes + (r.fields.set column field).flatten.length ≤ size)
    (small : size < 256 ^ headerBytes) :
    LittleEndian.encode headerBytes size ++
        (replaceField (r.bytes.resize size)
          (headerBytes + (r.fields.take column).flatten.length) old.length r.dataSize field).drop
            headerBytes =
      (r.refit (r.fields.set column field) isField size grows room small).bytes := by
  obtain ⟨hlt, rfl⟩ := List.getElem?_eq_some_iff.mp hold
  set before := (r.fields.take column).flatten with hbefore
  set later := (r.fields.drop (column + 1)).flatten with hlater
  have hset : (r.fields.set column field).flatten = before ++ (field ++ later) := by
    rw [List.set_eq_take_append_cons_drop, if_pos hlt, List.flatten_append, List.flatten_cons]
  have hfront : (LittleEndian.encode headerBytes r.size ++ before).length =
      headerBytes + before.length := by
    rw [List.length_append, LittleEndian.length_encode]
  have hdata : r.dataSize =
      headerBytes + before.length + r.fields[column].length + later.length := by
    rw [dataSize, flatten_around hold, List.length_append, List.length_append, ← hbefore, ← hlater]
    omega
  have hresize : r.bytes.resize size =
      LittleEndian.encode headerBytes r.size ++ before ++
        (r.fields[column] ++ (later ++ (r.slack ++ Bytes.zeros (size - r.size)))) := by
    rw [Bytes.resize, List.take_of_length_le (by rw [length_bytes]; exact grows), length_bytes,
      bytes, bytes_eq_around r hold]
    simp only [List.append_assoc]
    rfl
  have hreplace := replaceField_append (LittleEndian.encode headerBytes r.size ++ before)
    r.fields[column] later (r.slack ++ Bytes.zeros (size - r.size)) field
  rw [hfront, ← hdata] at hreplace
  rw [hresize, hreplace, List.append_assoc (LittleEndian.encode _ _),
    LittleEndian.drop_encode_append, bytes, size_refit]
  change _ = _ ++ ((r.fields.set column field).flatten ++
    (Bytes.zeros (r.dataSize - (headerBytes + (r.fields.set column field).flatten.length)) ++
      (r.slack ++ Bytes.zeros (size - r.size)).drop
        (headerBytes + (r.fields.set column field).flatten.length - r.dataSize)))
  have hlen : headerBytes + (r.fields.set column field).flatten.length =
      headerBytes + before.length + field.length + later.length := by
    rw [hset, List.length_append, List.length_append]
    omega
  rw [hlen, hset]
  simp only [List.append_assoc]

/-- The cell of the column holds the new value, and the other cells hold theirs. -/
lemma zipWith_value_set {t : ValueType} {column : Nat} (ht : types[column]? = some t)
    (fields : List Bytes) (field : Bytes) :
    types.zipWith Field.value (fields.set column field) =
      (types.zipWith Field.value fields).set column (Field.value t field) := by
  apply List.ext_getElem?
  intro i
  rw [List.getElem?_zipWith, List.getElem?_set, List.getElem?_set, List.getElem?_zipWith]
  by_cases hi : column = i
  · subst hi
    rw [if_pos rfl, if_pos rfl, ht, List.length_zipWith]
    have htypes := (List.getElem?_eq_some_iff.mp ht).1
    by_cases hf : column < fields.length
    · rw [if_pos hf, if_pos (Nat.lt_min.mpr ⟨htypes, hf⟩)]
    · rw [if_neg hf, if_neg fun h => hf (Nat.lt_min.mp h).2]
  · rw [if_neg hi, if_neg hi]

/-- What relates the types to the fields relates them to the fields with another in place. -/
lemma forall₂_set {R : ValueType → Bytes → Prop} {fields : List Bytes}
    (h : List.Forall₂ R types fields) {t : ValueType} {column : Nat}
    (ht : types[column]? = some t) {field : Bytes} (hfield : R t field) :
    List.Forall₂ R types (fields.set column field) := by
  induction h generalizing column with
  | nil => cases ht
  | cons hhead htail ih =>
    cases column with
    | zero =>
      cases ht
      exact .cons hfield htail
    | succ column => exact .cons hhead (ih ht)

/-- The size of a record in which a field of `old` bytes gives way to one of `new` bytes: as before
if the slack suffices, else grown as the field does. -/
def sizeWith (r : Stored types) (old new : Nat) : Nat :=
  if r.size < r.dataSize - old + new then r.size - old + new else r.size

/-- A record that gets too large is one that grows. -/
lemma sizeWith_of_large (r : Stored types) {old new : Nat}
    (h : 256 ^ headerBytes ≤ r.sizeWith old new) : r.sizeWith old new = r.size - old + new := by
  have hsmall := r.size_lt
  rw [sizeWith] at h ⊢
  split_ifs at h ⊢ with hgrows
  · rfl
  · exact absurd h (Nat.not_le.mpr hsmall)

lemma length_le_of_getElem? {fields : List Bytes} {column : Nat} {old : Bytes}
    (hold : fields[column]? = some old) : old.length ≤ fields.flatten.length :=
  (List.sublist_flatten_of_mem (List.mem_of_getElem? hold)).length_le

/-- A record never shrinks. -/
lemma size_le_sizeWith (r : Stored types) {column : Nat} {old : Bytes}
    (hold : r.fields[column]? = some old) (new : Nat) : r.size ≤ r.sizeWith old.length new := by
  have hdata : r.dataSize = headerBytes + r.fields.flatten.length := rfl
  have hsize : r.size = r.dataSize + r.slack.length := rfl
  have hle := length_le_of_getElem? hold
  rw [sizeWith]
  split_ifs <;> omega

/-- What a record becomes when the field of a column gives way to another. -/
structure IsChanged (r : Stored types) (column : Nat) (field : Bytes) (r' : Stored types) :
    Prop where
  fields_eq : r'.fields = r.fields.set column field
  size_eq : r'.size = r.sizeWith ((r.fields[column]?).getD []).length field.length
  slack_eq : r'.slack = Bytes.zeros (r.dataSize - r'.dataSize) ++
    (r.slack ++ Bytes.zeros (r'.size - r.size)).drop (r'.dataSize - r.dataSize)

lemma IsChanged.legible_field {r r' : Stored types} {column : Nat} {t : ValueType} {field : Bytes}
    (h : r.IsChanged column field r') (ht : types[column]? = some t) (hr' : r'.Legible) :
    Field.Legible t field := by
  rw [Legible, h.fields_eq] at hr'
  obtain ⟨hlt, rfl⟩ := List.getElem?_eq_some_iff.mp ht
  have hfields : column < (r.fields.set column field).length := hr'.length_eq ▸ hlt
  have hfield := hr'.get hlt hfields
  rwa [List.get_eq_getElem, List.get_eq_getElem, List.getElem_set_self] at hfield

lemma IsChanged.legible_iff {r r' : Stored types} {column : Nat} {t : ValueType} {field : Bytes}
    (h : r.IsChanged column field r') (ht : types[column]? = some t) (hr : r.Legible) :
    r'.Legible ↔ Field.Legible t field := by
  refine ⟨h.legible_field ht, fun hfield => ?_⟩
  rw [Legible, h.fields_eq]
  exact forall₂_set hr ht hfield

lemma IsChanged.values_set {r r' : Stored types} {column : Nat} {t : ValueType} {field : Bytes}
    (h : r.IsChanged column field r') (ht : types[column]? = some t) :
    r'.values = r.values.set column (Field.value t field) := by
  rw [Stored.values, h.fields_eq, zipWith_value_set ht]
  rfl

/-- A changed record reads as the row with the other value if this is legible, and only then. -/
lemma IsChanged.values_eq_iff {r r' : Stored types} {column : Nat} {t : ValueType} {v : Value}
    (h : r.IsChanged column (Field.encode t (v.convertTo t)) r') (ht : types[column]? = some t)
    (hv : v.Proper) :
    r'.values = r.values.set column (v.convertTo t).stored ↔
      Field.Legible t (Field.encode t (v.convertTo t)) := by
  rw [h.values_set ht,
    ← Field.value_encode_iff (Value.proper_convertTo hv t) (Field.fits_convertTo t v)]
  refine ⟨fun heq => ?_, congrArg _⟩
  have hlt : column < r.values.length := r.length_values ▸ (List.getElem?_eq_some_iff.mp ht).1
  have hcell := congrArg (·[column]?) heq
  rw [List.getElem?_set_self hlt, List.getElem?_set_self hlt] at hcell
  exact Option.some.inj hcell

/-- The fields around one of them, and the same around another in its place. -/
lemma length_flatten_set (r : Stored types) {column : Nat} {old : Bytes}
    (hold : r.fields[column]? = some old) (field : Bytes) :
    (r.fields.set column field).flatten.length + old.length =
      r.fields.flatten.length + field.length := by
  have hlt := (List.getElem?_eq_some_iff.mp hold).1
  have hset : (r.fields.set column field).flatten = (r.fields.take column).flatten ++
      (field ++ (r.fields.drop (column + 1)).flatten) := by
    rw [List.set_eq_take_append_cons_drop, if_pos hlt, List.flatten_append, List.flatten_cons]
  rw [flatten_around hold, hset]
  simp only [List.length_append]
  omega

/-- The record in which the field of a column gives way to another, if it is not too large. -/
lemma exists_isChanged (r : Stored types) {column : Nat} {old : Bytes}
    (hold : r.fields[column]? = some old) {t : ValueType} (ht : types[column]? = some t)
    {field : Bytes} (hfield : Field.IsField t field)
    (small : r.sizeWith old.length field.length < 256 ^ headerBytes) :
    ∃ r' : Stored types, r.IsChanged column field r' ∧
      LittleEndian.encode headerBytes (r.sizeWith old.length field.length) ++
          (replaceField (r.bytes.resize (r.sizeWith old.length field.length))
            (headerBytes + (r.fields.take column).flatten.length) old.length r.dataSize field).drop
              headerBytes = r'.bytes := by
  have hdata : r.dataSize = headerBytes + r.fields.flatten.length := rfl
  have hsize : r.size = r.dataSize + r.slack.length := rfl
  have hset := r.length_flatten_set hold field
  have hle := length_le_of_getElem? hold
  have grows := r.size_le_sizeWith hold field.length
  have room : headerBytes + (r.fields.set column field).flatten.length ≤
      r.sizeWith old.length field.length := by
    rw [sizeWith]
    split_ifs <;> omega
  have isField := forall₂_set r.isField ht hfield
  refine ⟨r.refit (r.fields.set column field) isField _ grows room small, ⟨rfl, ?_, ?_⟩,
    r.replaceField_bytes hold isField grows room small⟩
  · rw [size_refit, hold]
    rfl
  · rw [size_refit]
    rfl

end Stored

end Record

end RecordStore
