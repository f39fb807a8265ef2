import RecordStore.Value.Conversion

/-!
Stored fields. A fixed-size value is stored as its bytes, a string behind its length, and a value
in a dynamic column behind the tag of its own type. This module holds the sizes of fields, the
bytes of a field, how they are written into a buffer and how they are read back.

A fault is a contradiction between stored bytes and the bookkeeping about them. A table that was
built from named types by its own operations, or read with all checks, has none.
-/

namespace RecordStore

/-- What an operation on storage found wrong with it. -/
inductive Fault
  /-- A place outside the live bytes of its chunk. -/
  | outOfBounds
  /-- Bytes that are no field of the type. -/
  | corruptField (type : ValueType)
  /-- A record whose size does not fit its header. -/
  | recordTooLarge (size : Nat)
  /-- A chunk that ends past its capacity. -/
  | chunkOverfull (chunk : Nat)
  /-- A chunk without records. -/
  | chunkEmpty (chunk : Nat)
  /-- A record whose fields run past its size. -/
  | recordOverflow (chunk : Nat)
  /-- A chunk that holds another number of records than it says. -/
  | chunkMiscount (chunk : Nat)
  /-- A table that holds another number of records than it says. -/
  | tableMiscount
  deriving DecidableEq, Repr

/-- The type under which a dynamic column stores the value: a placeholder is stored as null. -/
def Value.storedType (v : Value) : ValueType :=
  if v.type.isDynamic then .plainNull else v.type

namespace Field

/-- Bytes of the tag in front of a field of a dynamic column. -/
def tagBytes : Nat := 4

/-! ### Sizes of fields to be written -/

/-- The size of a zero value. -/
def minSize : ValueType → Nat
  | .string w => w.lengthBytes
  | .dynamic _ => tagBytes
  | t => t.fixedSize?.getD 0

/-- The size of a field whose type is not dynamic. -/
def plainSize (t : ValueType) (v : Value) : Nat :=
  match t with
  | .string w => w.lengthBytes + v.size
  | t => t.fixedSize?.getD 0

/-- The size of a field with a value of its type. -/
def encodedSize (t : ValueType) (v : Value) : Nat :=
  match t with
  | .dynamic _ => tagBytes + plainSize v.storedType v
  | t => plainSize t v

/-- The smallest power of two that is at least `n`. -/
def powerOfTwoFor (n : Nat) : Nat := if n ≤ 1 then 1 else 2 ^ ((n - 1).log2 + 1)

/-- Room for a string that may grow: up to a power of two and no less than `floor`, but never more
than the width can hold. -/
def stringRoom (w : Width) (length floor : Nat) : Nat :=
  w.lengthBytes + min (powerOfTwoFor (max length floor)) w.maxLength

/-- The size that a new field reserves. -/
def reserveSize (t : ValueType) (v : Value) (floor : Nat) : Nat :=
  match t with
  | .string w => stringRoom w v.size floor
  | .dynamic _ =>
    match v.storedType with
    | .string w => tagBytes + stringRoom w v.size floor
    | _ => tagBytes + 8
  | t => t.fixedSize?.getD 0

/-! ### Writing -/

/-- The bytes of a field whose type is not dynamic. -/
def encodePlain (t : ValueType) (v : Value) : Bytes :=
  match t with
  | .null _ | .dynamic _ => []
  | .integer w _ => LittleEndian.encode w.bytes v.toUnsigned.toNat
  | .decimal .bits64 => LittleEndian.encode 8 v.toDecimal.bits.toNat
  | .decimal _ => LittleEndian.encode 4 v.toDecimal.toSingle.toNat
  | .objectId _ => v.toObjectId.toBytes
  | .string w => LittleEndian.encode w.lengthBytes v.toBytes.length ++ v.toBytes

/-- The bytes of a field with a value of its type. -/
def encode (t : ValueType) (v : Value) : Bytes :=
  match t with
  | .dynamic _ => LittleEndian.encode tagBytes v.storedType.tag ++ encodePlain v.storedType v
  | t => encodePlain t v

/-! ### Sizes of stored fields -/

/-- The number in the first `n` bytes, if there are as many. -/
def number? (n : Nat) (bytes : Bytes) : Option Nat :=
  if Bytes.atLeast n bytes then some (LittleEndian.decode (bytes.take n)) else none

/-- The size of the field at the front, unless it is malformed or cut short or its type is
dynamic. -/
def plainSize? (t : ValueType) (bytes : Bytes) : Option Nat := do
  let size ←
    match t with
    | .string w => (w.lengthBytes + ·) <$> number? w.lengthBytes bytes
    | t => t.fixedSize?
  if Bytes.atLeast size bytes then some size else none

/-- The type that the tag at the front stands for, unless it is dynamic itself. -/
def tagged? (bytes : Bytes) : Option ValueType := do
  let t ← (ValueType.ofTag (← number? tagBytes bytes)).toOption
  if t.isDynamic then none else some t

/-- The size of the field at the front, unless it is malformed or cut short. -/
def size? (t : ValueType) (bytes : Bytes) : Option Nat :=
  match t with
  | .dynamic _ => do
    let inner ← tagged? bytes
    (tagBytes + ·) <$> plainSize? inner (bytes.drop tagBytes)
  | t => plainSize? t bytes

/-- The size of a field that has been checked before. -/
def size (t : ValueType) (bytes : Bytes) : Except Fault Nat :=
  match size? t bytes with
  | some n => .ok n
  | none => .error (.corruptField t)

/-! ### Reading -/

/-- The value of the field at the front, or `none` if bytes are missing. -/
def decodePlain? (t : ValueType) (bytes : Bytes) : Option Value :=
  match t with
  | .null _ | .dynamic _ => some .plainNull
  | .integer w flags => do
    let raw ← number? w.bytes bytes
    some (.ofInt (.integer w flags) (w.wrap flags.signed raw))
  | .decimal .bits64 => do
    let raw ← number? 8 bytes
    some (.decimal .bits64 ⟨UInt64.ofNat raw⟩)
  | .decimal w => do
    let raw ← number? 4 bytes
    some (.ofDecimal (.decimal w) (.ofSingle (UInt32.ofNat raw)))
  | .objectId w => do
    let raw ← number? 8 bytes
    some (.objectId w ⟨UInt64.ofNat raw⟩)
  | .string w => do
    let length ← number? w.lengthBytes bytes
    let rest := bytes.drop w.lengthBytes
    if Bytes.atLeast length rest then some (.ofBytesIn w (rest.take length)) else none

/-- The value of the field at the front, or `none` if bytes are missing. In a dynamic column a tag
that stands for no type of its own reads as null. -/
def decode? (t : ValueType) (bytes : Bytes) : Option Value :=
  match t with
  | .dynamic _ => do
    let tag ← number? tagBytes bytes
    match ValueType.ofTag tag with
    | .ok inner =>
      if inner.isDynamic then some .plainNull else decodePlain? inner (bytes.drop tagBytes)
    | .error _ => some .plainNull
  | t => decodePlain? t bytes

/-! ### Writing into a buffer

What is written goes over the leading bytes of the buffer and leaves all others as they are; a
buffer that is too short is a fault. -/

/-- Write bytes over the front of a buffer, and tell how many they are. -/
def put (bytes out : Bytes) : Except Fault (Nat × Bytes) :=
  if Bytes.atLeast bytes.length out then .ok (bytes.length, out.overwrite 0 bytes)
  else .error .outOfBounds

/-- Go on behind the bytes that have been written over the front of a buffer. -/
def putBehind (written : Nat × Bytes) (next : Bytes → Except Fault (Nat × Bytes)) :
    Except Fault (Nat × Bytes) := do
  let (n, out) := written
  let (more, rest) ← next (out.drop n)
  return (n + more, out.take n ++ rest)

/-- Write a field whose type is not dynamic. -/
def writePlain (t : ValueType) (v : Value) (out : Bytes) : Except Fault (Nat × Bytes) :=
  match t with
  | .null _ | .dynamic _ => .ok (0, out)
  | .integer w _ => put (LittleEndian.encode w.bytes v.toUnsigned.toNat) out
  | .decimal .bits64 => put (LittleEndian.encode 8 v.toDecimal.bits.toNat) out
  | .decimal _ => put (LittleEndian.encode 4 v.toDecimal.toSingle.toNat) out
  | .objectId _ => put v.toObjectId.toBytes out
  | .string w => do
    let length ← put (LittleEndian.encode w.lengthBytes v.toBytes.length) out
    putBehind length (put v.toBytes)

/-- Write a field with a value of its type. -/
def write (t : ValueType) (v : Value) (out : Bytes) : Except Fault (Nat × Bytes) :=
  match t with
  | .dynamic _ => do
    let tag ← put (LittleEndian.encode tagBytes v.storedType.tag) out
    putBehind tag (writePlain v.storedType v)
  | t => writePlain t v out

end Field

end RecordStore
