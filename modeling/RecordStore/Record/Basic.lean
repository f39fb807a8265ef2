import RecordStore.Record.Field

/-!
Stored records: a header of four bytes with the size of the whole record, one field for each
column, and slack into which the fields may grow. Fields have no fixed places; a field is found by
the sizes of those in front of it.
-/

namespace RecordStore.Record

/-- Bytes of the header. -/
def headerBytes : Nat := 4

/-- The header of a record of this size. -/
def header (size : Nat) : Except Fault Bytes :=
  if size < 256 ^ headerBytes then .ok (LittleEndian.encode headerBytes size)
  else .error (.recordTooLarge size)

/-! ### Packed records -/

/-- The first of a run of records and the bytes behind it, if its header is sound. -/
def first? (bytes : Bytes) : Option (Bytes × Bytes) := do
  let size ← Field.number? headerBytes bytes
  if headerBytes ≤ size ∧ Bytes.atLeast size bytes then some (bytes.take size, bytes.drop size)
  else none

theorem first?_length {bytes record rest : Bytes} (h : first? bytes = some (record, rest)) :
    rest.length < bytes.length := by
  simp only [first?, Option.bind_eq_bind, Option.bind_eq_some_iff] at h
  obtain ⟨size, _, h⟩ := h
  split at h
  · obtain ⟨rfl, rfl⟩ := Prod.mk.inj (Option.some.inj h)
    simp only [headerBytes, Bytes.atLeast_eq_true] at *
    simp only [List.length_drop]
    omega
  · cases h

/-- The records of a gapless run. -/
def split (bytes : Bytes) : Except Fault (List Bytes) :=
  if bytes.isEmpty then .ok []
  else
    match _h : first? bytes with
    | none => .error .outOfBounds
    | some (record, rest) => (record :: ·) <$> split rest
termination_by bytes.length
decreasing_by exact first?_length _h

/-! ### Places of fields -/

/-- The size of the fields at the front, one for each type. -/
def fieldsSize : List ValueType → Bytes → Except Fault Nat
  | [], _ => .ok 0
  | t :: ts, bytes => do
    let size ← Field.size t bytes
    return size + (← fieldsSize ts (bytes.drop size))

/-- Where the field of a column starts. -/
def fieldOffset (types : List ValueType) (record : Bytes) (column : Nat) : Except Fault Nat :=
  (headerBytes + ·) <$> fieldsSize (types.take column) (record.drop headerBytes)

/-- The size of the header and all fields, without slack. -/
def dataSize (types : List ValueType) (record : Bytes) : Except Fault Nat :=
  fieldOffset types record types.length

/-- The size of the fields at the front of bytes that nobody has checked. -/
def fieldsSize? : List ValueType → Bytes → Option Nat
  | [], _ => some 0
  | t :: ts, bytes => do
    let size ← Field.size? t bytes
    return size + (← fieldsSize? ts (bytes.drop size))

/-- The size without slack of a record that nobody has checked. -/
def dataSize? (types : List ValueType) (record : Bytes) : Option Nat :=
  if Bytes.atLeast headerBytes record then
    (headerBytes + ·) <$> fieldsSize? types (record.drop headerBytes)
  else none

/-! ### New records -/

/-- The values for the leading columns, converted to their types. Values past the last column are
dropped. -/
def cells (types : List ValueType) (values : List Value) : List (ValueType × Value) :=
  types.zipWith (fun t v => (t, v.convertTo t)) values

/-- The size of a record with room to grow: each cell reserves room, and each column that has no
value gets the size of its zero. -/
def reserveSize (types : List ValueType) (values : List Value) (floor : Nat) : Nat :=
  headerBytes +
    ((cells types values).map fun (t, v) =>
      max (Field.reserveSize t v floor) (Field.encodedSize t v)).sum +
    ((types.drop values.length).map Field.minSize).sum

/-- The fields of the cells, one behind the other. -/
def encodeFields (cells : List (ValueType × Value)) : Bytes :=
  cells.flatMap fun (t, v) => Field.encode t v

/-! ### Changed records -/

/-- The record with another field at `start` in place of one of `old` bytes. The fields behind it
up to `dataEnd` move along; what they leave behind is filled with zeros. -/
def replaceField (record : Bytes) (start old dataEnd : Nat) (field : Bytes) : Bytes :=
  let later := (record.take dataEnd).drop (start + old)
  let newEnd := start + field.length + later.length
  record.take start ++ field ++ later ++ Bytes.zeros (dataEnd - newEnd) ++
    record.drop (max newEnd dataEnd)

/-- The record without slack. -/
def dense (types : List ValueType) (record : Bytes) : Except Fault Bytes := do
  let size ← dataSize types record
  return (← header size) ++ (record.take size).drop headerBytes

end RecordStore.Record
