import Mathlib
import RecordStore.Proofs.Record.Stored

/-!
# Records that have been checked

Bytes from outside are checked once, by the size of their header and fields. From then on they are
read by functions that check nothing: they find the place of a column by the sizes of the fields in
front of it, and its value there. What has passed the check is a header, whatever it says, and a
field for each column, so these functions find in it what is there, and look at nothing behind it.
-/

namespace RecordStore

/-! ### The type that is read -/

namespace Field

variable {t : ValueType} {bytes : Bytes} {v : Value}

/-- A field is read under its own type. Every null is the plain one. -/
lemma type_of_decodePlain? (ht : t.isDynamic = false) (h : decodePlain? t bytes = some v) :
    v.type = t ∨ v = .plainNull := by
  cases t with
  | null w =>
    cases h
    exact .inr rfl
  | dynamic w => cases ht
  | integer w flags | objectId w =>
    simp only [decodePlain?, Option.bind_eq_bind, Option.bind_eq_some_iff] at h
    obtain ⟨raw, -, h⟩ := h
    cases h
    exact .inl rfl
  | decimal w =>
    cases w with
    | bits64 | bits8 | bits16 | bits32 =>
      simp only [decodePlain?, Option.bind_eq_bind, Option.bind_eq_some_iff] at h
      obtain ⟨raw, -, h⟩ := h
      cases h
      exact .inl rfl
  | string w =>
    simp only [decodePlain?, Option.bind_eq_bind, Option.bind_eq_some_iff] at h
    obtain ⟨length, -, h⟩ := h
    split_ifs at h
    cases h
    exact .inl rfl

lemma decode?_eq_decodePlain? (ht : t.isDynamic = false) (bytes : Bytes) :
    decode? t bytes = decodePlain? t bytes := by
  cases t with
  | dynamic w => cases ht
  | null w | integer w flags | decimal w | objectId w | string w => rfl

/-- A field of a column that is not dynamic is read under the type of the column. -/
lemma type_of_decode? (ht : t.isDynamic = false) (h : decode? t bytes = some v) :
    v.type = t ∨ v = .plainNull := by
  rw [decode?_eq_decodePlain? ht] at h
  exact type_of_decodePlain? ht h

/-- Whatever the bytes are, no placeholder is read from them. -/
lemma isDynamic_type_of_decode? (h : decode? t bytes = some v) : v.type.isDynamic = false := by
  have plain : ∀ {t : ValueType}, t.isDynamic = false → v.type = t ∨ v = .plainNull →
      v.type.isDynamic = false := by
    rintro t ht (rfl | rfl)
    · exact ht
    · rfl
  by_cases ht : t.isDynamic = false
  · exact plain ht (type_of_decode? ht h)
  cases t with
  | dynamic w =>
    simp only [decode?, Option.bind_eq_bind, Option.bind_eq_some_iff] at h
    obtain ⟨tag, -, h⟩ := h
    split at h
    · split_ifs at h with hinner
      · cases h
        rfl
      · have hplain := Bool.eq_false_iff.mpr hinner
        exact plain hplain (type_of_decodePlain? hplain h)
    · cases h
      rfl
  | null w | integer w flags | decimal w | objectId w | string w => exact absurd rfl ht

end Field

namespace Record

variable {types : List ValueType} {record : Bytes} {used : Nat}

/-! ### What is found in a column -/

/-- What is found in a column of a record: a field that starts at `start`, takes `size` bytes and
holds the value. -/
structure Finds (types : List ValueType) (record : Bytes) (column : Nat) (type : ValueType)
    (start size : Nat) (v : Value) : Prop where
  start_eq : fieldOffset types record column = .ok start
  size_eq : Field.size type (record.drop start) = .ok size
  value_eq : Field.decode? type (record.drop start) = some v

/-- No more than one thing is found in a column. -/
lemma Finds.unique {column : Nat} {type : ValueType} {start start' size size' : Nat} {v v' : Value}
    (h : Finds types record column type start size v)
    (h' : Finds types record column type start' size' v') :
    start = start' ∧ size = size' ∧ v = v' := by
  obtain rfl := Except.ok.inj (h.start_eq.symm.trans h'.start_eq)
  exact ⟨rfl, Except.ok.inj (h.size_eq.symm.trans h'.size_eq),
    Option.some.inj (h.value_eq.symm.trans h'.value_eq)⟩

/-- Behind any header and in front of any slack the field of a column is found. -/
lemma finds_append {front : Bytes} {fields : List Bytes} (hfront : front.length = headerBytes)
    (h : List.Forall₂ Field.IsField types fields)
    (legible : List.Forall₂ Field.Legible types fields) {column : Nat} {type : ValueType}
    {field : Bytes} (htype : types[column]? = some type) (hfield : fields[column]? = some field)
    (slack : Bytes) :
    Finds types (front ++ (fields.flatten ++ slack)) column type
      (headerBytes + (fields.take column).flatten.length) field.length
      (Field.value type field) := by
  have hdrop := drop_append_of_getElem? hfront hfield slack
  have hisField := rel_of_getElem? h htype hfield
  refine ⟨fieldOffset_append hfront h legible slack column, ?_, ?_⟩
  · rw [hdrop, Field.size, Field.size?_append hisField (rel_of_getElem? legible htype hfield)]
  · rw [hdrop, Field.decode?_append hisField]

/-- What starts as a record with these fields has the same fields and slack of its own. -/
lemma exists_slack_of_take_eq {front : Bytes} {fields : List Bytes} {slack other : Bytes}
    (hfront : front.length = headerBytes)
    (h : other.take (headerBytes + fields.flatten.length) =
      (front ++ (fields.flatten ++ slack)).take (headerBytes + fields.flatten.length)) :
    ∃ rest, other = front ++ (fields.flatten ++ rest) := by
  have hused : (front ++ fields.flatten).length = headerBytes + fields.flatten.length := by
    rw [List.length_append, hfront]
  rw [← List.append_assoc, List.take_left' hused] at h
  refine ⟨other.drop (headerBytes + fields.flatten.length), ?_⟩
  rw [← List.append_assoc, ← h, List.take_append_drop]

/-- Bytes that pass the check are at least a header. Within the bounds that the check gives, the
functions that check nothing find the same size and, for each column, a field and a value of the
type of the column, or of a type of its own if the column is dynamic. They find the same in all
bytes that start in this way, whatever follows. -/
theorem read_once_checked (h : dataSize? types record = some used) :
    headerBytes ≤ used ∧ used ≤ record.length ∧
      (∀ other : Bytes, other.take used = record.take used →
        dataSize? types other = some used ∧ dataSize types other = .ok used) ∧
      ∀ column type, types[column]? = some type → ∃ start size v,
        headerBytes ≤ start ∧ start + size ≤ used ∧ v.type.isDynamic = false ∧
          (type.isDynamic = false → v.type = type ∨ v = .plainNull) ∧ v.Proper ∧
          ∀ other : Bytes, other.take used = record.take used →
            Finds types other column type start size v := by
  obtain ⟨front, fields, slack, rfl, hfront, hfields, hlegible, rfl⟩ := exists_parts_of_dataSize? h
  refine ⟨Nat.le_add_right _ _, ?_, ?_, ?_⟩
  · rw [List.length_append, List.length_append, hfront, ← Nat.add_assoc]
    exact Nat.le_add_right _ _
  · intro other hother
    obtain ⟨rest, rfl⟩ := exists_slack_of_take_eq hfront hother
    exact ⟨dataSize?_append hfront hfields hlegible rest,
      dataSize_append hfront hfields hlegible rest⟩
  · intro column type htype
    obtain ⟨field, hfield, hisField⟩ := exists_field_of_type hfields htype
    have hfinds := finds_append hfront hfields hlegible htype hfield
    have hvalue := (hfinds slack).value_eq
    refine ⟨headerBytes + (fields.take column).flatten.length, field.length, Field.value type field,
      Nat.le_add_right _ _, ?_, Field.isDynamic_type_of_decode? hvalue,
      fun ht => Field.type_of_decode? ht hvalue, Field.proper_value hisField, ?_⟩
    · rw [flatten_around hfield, List.length_append, List.length_append, ← Nat.add_assoc,
        ← Nat.add_assoc]
      exact Nat.le_add_right _ _
    · intro other hother
      obtain ⟨rest, rfl⟩ := exists_slack_of_take_eq hfront hother
      exact hfinds rest

/-- A number in a dynamic column and a text, with two bytes of slack and a header that says more. -/
def numberAndText : Bytes := [20, 0, 0, 0, 2, 1, 0, 0, 7, 0, 2, 97, 98, 9, 9]

/-- Number and text are found whatever stands in place of the slack. -/
theorem read_once_checked_of_number_and_text :
    dataSize? [.dynamic .bits8, .string .bits8] numberAndText = some 13 ∧
      ∀ slack : Bytes,
        Finds [.dynamic .bits8, .string .bits8] (numberAndText.take 13 ++ slack) 0 (.dynamic .bits8)
          4 6 (.integer .bits16 false 7) ∧
        Finds [.dynamic .bits8, .string .bits8] (numberAndText.take 13 ++ slack) 1 (.string .bits8)
          10 3 (.string .bits8 [97, 98]) := by
  have hchecked : dataSize? [.dynamic .bits8, .string .bits8] numberAndText = some 13 := by decide
  have hnumber : Finds [.dynamic .bits8, .string .bits8] numberAndText 0 (.dynamic .bits8) 4 6
      (.integer .bits16 false 7) := ⟨by decide, by decide, by decide⟩
  have htext : Finds [.dynamic .bits8, .string .bits8] numberAndText 1 (.string .bits8) 10 3
      (.string .bits8 [97, 98]) := ⟨by decide, by decide, by decide⟩
  obtain ⟨-, -, -, hfound⟩ := read_once_checked hchecked
  refine ⟨hchecked, fun slack => ⟨?_, ?_⟩⟩
  · obtain ⟨start, size, v, -, -, -, -, -, hfinds⟩ := hfound 0 _ rfl
    obtain ⟨rfl, rfl, rfl⟩ := hnumber.unique (hfinds numberAndText rfl)
    exact hfinds _ rfl
  · obtain ⟨start, size, v, -, -, -, -, -, hfinds⟩ := hfound 1 _ rfl
    obtain ⟨rfl, rfl, rfl⟩ := htext.unique (hfinds numberAndText rfl)
    exact hfinds _ rfl

end Record

end RecordStore
