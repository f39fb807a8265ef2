import RecordStore.Value.Text

/-!
Untyped texts in two passes. The first goes over the bytes once and tells `null`, integers, decimals
and all other texts apart, which gives the type; the second reads the text under that type.
-/

namespace RecordStore

/-- What an untyped text looks like. -/
inductive Shape
  | null
  | integer
  | decimal
  | text
  deriving DecidableEq, Repr

/-- The scan of a number: where its point and its exponent mark stood, and how many digits came
since the start or the last of the two. -/
structure Scan where
  point : Option Nat
  exponent : Option Nat
  run : Nat
  deriving DecidableEq, Repr

namespace Scan

def start : Scan := ⟨none, none, 0⟩

/-- The byte at index `i`, if a number can go on with it. A sign stands at the very front or right
behind the exponent mark; point and mark need digits in front of them. -/
def step (scan : Scan) (i : Nat) (b : UInt8) : Option Scan :=
  if '0'.toUInt8 ≤ b ∧ b ≤ '9'.toUInt8 then some { scan with run := scan.run + 1 }
  else if b = '+'.toUInt8 ∨ b = '-'.toUInt8 then
    if i ≠ 0 ∧ scan.exponent ≠ some (i - 1) then none else some scan
  else if b = '.'.toUInt8 then
    if scan.point.isSome ∨ scan.exponent.isSome ∨ scan.run = 0 then none
    else some { scan with point := some i, run := 0 }
  else if b = 'e'.toUInt8 ∨ b = 'E'.toUInt8 then
    if scan.exponent.isSome ∨ scan.run = 0 then none
    else some { scan with exponent := some i, run := 0 }
  else none

/-- The bytes from index `i` on. -/
def steps (scan : Scan) (i : Nat) : Bytes → Option Scan
  | [] => some scan
  | b :: rest => (scan.step i b).bind fun scan => scan.steps (i + 1) rest

/-- What was scanned, at the end of the text. -/
def shape (scan : Scan) : Shape :=
  if scan.run = 0 then .text
  else if scan.point.isSome ∨ scan.exponent.isSome then .decimal
  else .integer

end Scan

def Shape.ofText (s : String) : Shape :=
  if s = "null" then .null
  else
    match Scan.start.steps 0 (Utf8.encode s) with
    | some scan => scan.shape
    | none => .text

/-- An integer of 64 bits: digits behind a sign, which an unsigned integer cannot have as a
minus. -/
def Literal.integer? (signed : Bool) (s : String) : Option Int :=
  let (negative, digits) := Numeral.sign s.toList
  if digits.isEmpty ∨ ¬ digits.all Char.isDigit ∨ negative ∧ ¬ signed then none
  else
    let value : Int := Nat.ofDigitChars 10 digits 0
    let n := if negative then -value else value
    if fits signed n then some n else none

namespace Shape

/-- The type for a text of the shape. -/
def type (shape : Shape) (s : String) : ValueType :=
  match shape with
  | .null => .plainNull
  | .integer =>
    if (Literal.integer? true s).isSome then .integer .bits64 true
    else if (Literal.integer? false s).isSome then .integer .bits64 false
    else .decimal .bits64
  | .decimal => .decimal .bits64
  | .text => .string (.fitting s.utf8ByteSize)

end Shape

/-- The text under a type that the first pass gives, with `decimal?` to read decimals. A text that
is none of the type would be read as null. -/
def Value.readAs (decimal? : String → Option Decimal) (t : ValueType) (s : String) : Value :=
  match t with
  | .null _ => .plainNull
  | .integer _ flags =>
    ((Literal.integer? flags.signed s).map (.integer .bits64 flags.signed)).getD .plainNull
  | .decimal _ => ((decimal? s).map (.decimal .bits64)).getD .plainNull
  | t => .ofBytesIn t.width (Utf8.encode s)

end RecordStore
