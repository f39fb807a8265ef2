import RecordStore.Decimal.Basic

/-!
Numerals in text: an optional sign, digits, an optional fraction and an optional exponent, each
part with at least one digit. `Numeral.parse?` accepts exactly these texts; a numeral denotes a
whole number or the decimal nearest to it.
-/

namespace RecordStore

/-- The parts of a numeral. Digits are values below ten, most significant first. -/
structure Numeral where
  negative : Bool
  whole : List Nat
  fraction : Option (List Nat)
  exponent : Option (Bool × List Nat)
  deriving DecidableEq, Repr

namespace Numeral

/-! ### Reading -/

/-- A leading sign, if there is one, and whether it is a minus. -/
def sign : List Char → Bool × List Char
  | '-' :: rest => (true, rest)
  | '+' :: rest => (false, rest)
  | rest => (false, rest)

/-- One or more digits, as many as there are. -/
def digits? (text : List Char) : Option (List Nat × List Char) :=
  match text.span Char.isDigit with
  | ([], _) => none
  | (run, rest) => some (run.map (fun c => c.toNat - '0'.toNat), rest)

/-- A point and digits, or nothing. -/
def fraction? : List Char → Option (Option (List Nat) × List Char)
  | '.' :: rest => do
    let (run, rest) ← digits? rest
    pure (some run, rest)
  | rest => some (none, rest)

/-- An exponent mark, a sign and digits, or nothing. -/
def exponent? : List Char → Option (Option (Bool × List Nat) × List Char)
  | [] => some (none, [])
  | mark :: rest =>
    if mark = 'e' ∨ mark = 'E' then do
      let (negative, rest) := sign rest
      let (run, rest) ← digits? rest
      pure (some (negative, run), rest)
    else some (none, mark :: rest)

/-- The numeral that the whole text spells. -/
def parse? (text : String) : Option Numeral := do
  let (negative, rest) := sign text.toList
  let (whole, rest) ← digits? rest
  let (fraction, rest) ← fraction? rest
  let (exponent, rest) ← exponent? rest
  if rest.isEmpty then some ⟨negative, whole, fraction, exponent⟩ else none

/-! ### Meaning -/

/-- The number that a run of digits spells. -/
def value (digits : List Nat) : Nat := digits.foldl (fun n d => 10 * n + d) 0

/-- Neither point nor exponent. -/
def isWhole (n : Numeral) : Bool := n.fraction.isNone && n.exponent.isNone

/-- The whole number of the sign and the digits before the point. -/
def toInt (n : Numeral) : Int := if n.negative then -(value n.whole : Int) else value n.whole

/-- An exponent stops growing once it has passed 65535. -/
def saturatedValue (digits : List Nat) : Nat :=
  digits.foldl (fun n d => if n < 0x10000 then 10 * n + d else n) 0

def scale (n : Numeral) : Int :=
  match n.exponent with
  | none => 0
  | some (true, digits) => -(saturatedValue digits : Int)
  | some (false, digits) => saturatedValue digits

/-- The nearest decimal. Leading zeros apart, `point` digits stand before the point; a numeral at
or past `10 ^ 309` is infinite and one below `10 ^ -324` is zero, whatever its digits. -/
def toDecimal (n : Numeral) : Decimal :=
  let significant := (n.whole ++ n.fraction.getD []).dropWhile (· = 0)
  let exponent := n.scale - (n.fraction.getD []).length
  let point := significant.length + exponent
  if significant.isEmpty ∨ point < -324 then .ofMagnitude n.negative 0
  else if 310 ≤ point then .ofMagnitude n.negative Decimal.Format.double.infinity
  else .ofRatio n.negative (value significant * 10 ^ exponent.toNat) (10 ^ (-exponent).toNat)

end Numeral

end RecordStore
