import RecordStore.Decimal.Numeral
import RecordStore.Decimal.Shortest
import RecordStore.Value.Basic

/-!
The text of values. A value is written bare or under the name of its type. A text without a type
is read as `null`, a numeral, or a string for everything else; integers take the signed 64-bit type
if they fit, then the unsigned one, and beyond both they are decimals.
-/

namespace RecordStore

/-! ### Writing -/

namespace Value

/-- The bare text. Strings are read leniently as UTF-8. -/
def text : Value → String
  | .null _ => "null"
  | .dynamic _ => "dynamic"
  | .integer _ _ n => toString n
  | .decimal _ x => x.text
  | .objectId _ id => id.text
  | .string _ bytes => Utf8.lossy bytes

/-- The text under the type's name, strings quoted. -/
def typedText (v : Value) : String :=
  let body :=
    match v with
    | .string _ bytes => Text.quoted (Utf8.lossy bytes)
    | v => v.text
  v.type.text ++ "(" ++ body ++ ")"

/-- The values of a row under the names of their types. -/
def rowText (row : List Value) : String := "[" ++ ", ".intercalate (row.map typedText) ++ "]"

end Value

/-! ### Reading -/

/-- What an untyped text is. -/
inductive Literal
  | null
  | whole (n : Numeral)
  | fractional (n : Numeral)
  | text (s : String)
  deriving DecidableEq, Repr

namespace Literal

def ofText (s : String) : Literal :=
  if s = "null" then .null
  else
    match Numeral.parse? s with
    | none => .text s
    | some n => if n.isWhole then .whole n else .fractional n

/-- `n` is an integer of 64 bits. -/
def fits (signed : Bool) (n : Int) : Bool :=
  Width.least .bits64 signed ≤ n && n ≤ Width.greatest .bits64 signed

def type : Literal → ValueType
  | .null => .plainNull
  | .whole n =>
    if fits true n.toInt then .integer .bits64 true
    else if fits false n.toInt then .integer .bits64 false
    else .decimal .bits64
  | .fractional _ => .decimal .bits64
  | .text s => .string (.fitting s.utf8ByteSize)

def value : Literal → Value
  | .null => .plainNull
  | .whole n =>
    if fits true n.toInt then .integer .bits64 true n.toInt
    else if fits false n.toInt then .integer .bits64 false n.toInt
    else .decimal .bits64 n.toDecimal
  | .fractional n => .decimal .bits64 n.toDecimal
  | .text s => .ofBytes (Utf8.encode s)

end Literal

/-- The type under which an untyped text is stored. -/
def ValueType.infer (s : String) : ValueType := (Literal.ofText s).type

/-- The value of an untyped text. -/
def Value.read (s : String) : Value := (Literal.ofText s).value

end RecordStore
