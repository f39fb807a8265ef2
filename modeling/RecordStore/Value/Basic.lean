import RecordStore.Bytes.Utf8
import RecordStore.Decimal.Basic
import RecordStore.ObjectId

/-!
Values: a payload together with its type. This module builds them, keeping each payload within
its type, and looks at them from outside.
-/

namespace RecordStore

/-- A typed value. Integers are held exactly, strings as bytes. -/
inductive Value
  | null (width : Width)
  | dynamic (width : Width)
  | integer (width : Width) (flags : Flags) (n : Int)
  | decimal (width : Width) (x : Decimal)
  | objectId (width : Width) (id : ObjectId)
  | string (width : Width) (bytes : Bytes)
  deriving DecidableEq, Repr

namespace Width

/-! ### Integer ranges -/

/-- The least integer of a width. -/
def least (w : Width) (signed : Bool) : Int := if signed then -2 ^ (w.bits - 1) else 0

/-- The greatest integer of a width. -/
def greatest (w : Width) (signed : Bool) : Int :=
  if signed then 2 ^ (w.bits - 1) - 1 else 2 ^ w.bits - 1

/-- The integer of the range that is nearest to `n`. -/
def saturate (w : Width) (signed : Bool) (n : Int) : Int :=
  max (w.least signed) (min (w.greatest signed) n)

/-- The integer of the range with the low bits of `n`. -/
def wrap (w : Width) (signed : Bool) (n : Int) : Int :=
  if signed then n.bmod (2 ^ w.bits) else n % (2 ^ w.bits : Nat)

end Width

namespace Value

/-- The null that carries no width of its own. -/
def plainNull : Value := .null .bits8

instance : Inhabited Value := ⟨plainNull⟩

def type : Value → ValueType
  | .null w => .null w
  | .dynamic w => .dynamic w
  | .integer w flags _ => .integer w flags
  | .decimal w _ => .decimal w
  | .objectId w _ => .objectId w
  | .string w _ => .string w

/-! ### Building -/

/-- Zero, the zero identifier or the empty string, as the type asks. -/
def zero : ValueType → Value
  | .null w => .null w
  | .dynamic w => .dynamic w
  | .integer w flags => .integer w flags 0
  | .decimal w => .decimal w .zero
  | .objectId w => .objectId w .none
  | .string w => .string w []

/-- An integer of the type, saturated into its range. -/
def ofInt (t : ValueType) (n : Int) : Value :=
  match t with
  | .integer w flags => .integer w flags (w.saturate flags.signed n)
  | t => zero t

/-- A decimal of the type. All widths but the largest hold what 32 bits can hold. -/
def ofDecimal (t : ValueType) (x : Decimal) : Value :=
  match t with
  | .decimal .bits64 => .decimal .bits64 x
  | .decimal w => .decimal w x.roundToSingle
  | t => zero t

/-- A string of the width, cut to the longest it can hold. -/
def ofBytesIn (w : Width) (bytes : Bytes) : Value := .string w (bytes.take w.maxLength)

/-- A string of the smallest width that holds it. -/
def ofBytes (bytes : Bytes) : Value := ofBytesIn (.fitting bytes.length) bytes

/-! ### Looking -/

def isNull (v : Value) : Bool := v.type.isNull

/-- The length of a string, the stored size of any other value. -/
def size : Value → Nat
  | .string _ bytes => bytes.length
  | v => v.type.fixedSize?.getD 0

/-- The integer as a signed one of its width; zero for all else. -/
def toSigned : Value → Int
  | .integer w flags n => if flags.signed then n else w.wrap true n
  | _ => 0

/-- The integer as an unsigned one of its width; zero for all else. -/
def toUnsigned : Value → Int
  | .integer w flags n => if flags.signed then w.wrap false n else n
  | _ => 0

/-- The exact integer; zero for all else. -/
def toInt : Value → Int
  | .integer _ _ n => n
  | _ => 0

def toDecimal : Value → Decimal
  | .decimal _ x => x
  | _ => .zero

def toObjectId : Value → ObjectId
  | .objectId _ id => id
  | _ => .none

/-- The bytes of a string; none for all else. -/
def toBytes : Value → Bytes
  | .string _ bytes => bytes
  | _ => []

/-- The text of a string that is well-formed UTF-8. -/
def toText? : Value → Option String
  | .string _ bytes => Utf8.toText? bytes
  | _ => none

/-! ### Laws -/

@[simp] theorem type_zero (t : ValueType) : (zero t).type = t := by cases t <;> rfl

@[simp] theorem type_ofInt (t : ValueType) (n : Int) : (ofInt t n).type = t := by
  cases t <;> rfl

@[simp] theorem type_ofDecimal (t : ValueType) (x : Decimal) : (ofDecimal t x).type = t := by
  unfold ofDecimal
  split
  · rfl
  · rfl
  · exact type_zero _

@[simp] theorem type_ofBytesIn (w : Width) (bytes : Bytes) :
    (ofBytesIn w bytes).type = .string w := rfl

end Value

end RecordStore
