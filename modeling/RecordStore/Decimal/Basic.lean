import RecordStore.Decimal.Format

/-!
Decimal numbers as the store keeps them: the 64 bits of a binary floating-point number, with an
exact conversion to and from 32 bits and a comparison up to a small tolerance. Nothing here
depends on machine arithmetic.
-/

namespace RecordStore

/-- A 64-bit floating-point number, given by its bits. -/
structure Decimal where
  bits : UInt64
  deriving DecidableEq, Repr

namespace Decimal

def zero : Decimal := ⟨0⟩

instance : Inhabited Decimal := ⟨zero⟩

/-- The sign bit is set. -/
def isNegative (x : Decimal) : Bool := Format.double.signBit ≤ x.bits.toNat

/-- The bits below the sign. -/
def magnitude (x : Decimal) : Nat := x.bits.toNat % Format.double.signBit

def isNaN (x : Decimal) : Bool := Format.double.infinity < x.magnitude

def isFinite (x : Decimal) : Bool := x.magnitude < Format.double.infinity

/-- Sign and magnitude put together. -/
def ofMagnitude (negative : Bool) (magnitude : Nat) : Decimal :=
  ⟨UInt64.ofNat (magnitude + if negative then Format.double.signBit else 0)⟩

/-- The number nearest to `± num / den`. -/
def ofRatio (negative : Bool) (num den : Nat) : Decimal :=
  ofMagnitude negative (Format.double.round num den)

/-! ### Thirty-two bits -/

/-- Carry a magnitude from one format to another: infinity stays infinity, what is not a number
stays so with the leading bits of its fraction and the quiet bit, a number is rounded. -/
def convert (source target : Format) (magnitude : Nat) : Nat :=
  if magnitude < source.infinity then
    target.round (source.units magnitude) (2 ^ source.places)
  else if magnitude = source.infinity then target.infinity
  else
    let payload :=
      source.fractionField magnitude * 2 ^ target.fractionBits / 2 ^ source.fractionBits
    target.infinity + (payload ||| 2 ^ (target.fractionBits - 1))

/-- The 32-bit number with these bits. -/
def ofSingle (bits : UInt32) : Decimal :=
  ofMagnitude (Format.single.signBit ≤ bits.toNat)
    (convert .single .double (bits.toNat % Format.single.signBit))

/-- The bits of the nearest 32-bit number. -/
def toSingle (x : Decimal) : UInt32 :=
  UInt32.ofNat (convert .double .single x.magnitude +
    if x.isNegative then Format.single.signBit else 0)

/-- The nearest number that 32 bits can hold. -/
def roundToSingle (x : Decimal) : Decimal := ofSingle x.toSingle

/-! ### Comparison -/

/-- A finite number as a signed count of units. -/
def units (x : Decimal) : Int :=
  if x.isNegative then -(Format.double.units x.magnitude : Int)
  else Format.double.units x.magnitude

/-- The magnitude of the largest difference that counts as none: one millionth. -/
def tolerance : Nat := Format.double.round 1 1000000

/-- The rounded distance of two finite numbers is at most the tolerance. -/
def near (x y : Decimal) : Bool :=
  x.isFinite && y.isFinite &&
    Format.double.round (x.units - y.units).natAbs (2 ^ Format.double.places) ≤ tolerance

end Decimal

end RecordStore
