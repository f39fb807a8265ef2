import RecordStore.Bytes.LittleEndian
import RecordStore.Bytes.Utf8
import RecordStore.ValueType

/-!
Object identifiers: 64-bit numbers, written as sixteen hexadecimal digits and stored in eight
little-endian bytes. Zero stands for no object.
-/

namespace RecordStore

/-- The identifier of an object. -/
structure ObjectId where
  raw : UInt64
  deriving DecidableEq, Repr

namespace ObjectId

/-- No object. -/
def none : ObjectId := ⟨0⟩

instance : Inhabited ObjectId := ⟨none⟩

def isNone (id : ObjectId) : Bool := id.raw = 0

/-! ### Bytes -/

def toBytes (id : ObjectId) : Bytes := LittleEndian.encode 8 id.raw.toNat

/-- The identifier in the first eight bytes. -/
def ofBytes (bytes : Bytes) : ObjectId := ⟨UInt64.ofNat (LittleEndian.decode (bytes.take 8))⟩

@[simp] theorem length_toBytes (id : ObjectId) : id.toBytes.length = 8 := by simp [toBytes]

theorem ofBytes_toBytes (id : ObjectId) (rest : Bytes) : ofBytes (id.toBytes ++ rest) = id := by
  have small : id.raw.toNat < 256 ^ 8 := id.raw.toNat_lt
  simp [ofBytes, toBytes, LittleEndian.decode_encode_of_lt small]

/-! ### Text -/

/-- Sixteen hexadecimal digits, the most significant first. -/
def text (id : ObjectId) : String := Hex.encode id.toBytes.reverse

def debugText (id : ObjectId) : String := s!"ObjectId({id.text})"

/-- Reads the digits of exactly eight bytes. -/
def ofText (text : String) : Except TypeError ObjectId :=
  match Hex.decode (Utf8.encode text) with
  | .error reason => .error (.invalidHex reason)
  | .ok bytes =>
    if bytes.length = 8 then .ok (ofBytes bytes.reverse)
    else .error (.invalidLength 8 bytes.length)

end ObjectId

end RecordStore
