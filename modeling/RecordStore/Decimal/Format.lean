import RecordStore.Bytes.Basic

/-!
Binary floating-point formats (IEEE 754 interchange formats), read and rounded exactly. A
magnitude is held by its bits below the sign bit; every finite one is a natural number of
`units`, the smallest positive number of the format, so rounding is a division of naturals.
-/

namespace RecordStore.Decimal

/-- Round `num / den` to a whole number, a half going to the even neighbour. -/
def roundDiv (num den : Nat) : Nat :=
  let q := num / den
  let r := num % den
  if 2 * r < den then q else if den < 2 * r then q + 1 else q + q % 2

/-- The widths of the exponent and fraction fields of a format. -/
structure Format where
  exponentBits : Nat
  fractionBits : Nat

namespace Format

/-- The 32-bit format. -/
def single : Format := ⟨8, 23⟩

/-- The 64-bit format. -/
def double : Format := ⟨11, 52⟩

/-- The unit of the format is `2 ^ -places`. -/
def places (f : Format) : Nat := 2 ^ (f.exponentBits - 1) + f.fractionBits - 2

/-- The bits of infinity; the magnitudes above it are not numbers. -/
def infinity (f : Format) : Nat := (2 ^ f.exponentBits - 1) * 2 ^ f.fractionBits

/-- The bits of the sign: one more than the largest magnitude. -/
def signBit (f : Format) : Nat := 2 ^ (f.exponentBits + f.fractionBits)

/-- The exponent field of a magnitude. -/
def exponentField (f : Format) (bits : Nat) : Nat := bits / 2 ^ f.fractionBits

/-- The fraction field of a magnitude. -/
def fractionField (f : Format) (bits : Nat) : Nat := bits % 2 ^ f.fractionBits

/-- How many units the last place of a finite magnitude is worth. -/
def lastPlace (f : Format) (bits : Nat) : Nat := 2 ^ (f.exponentField bits - 1)

/-- A finite magnitude as a number of units. -/
def units (f : Format) (bits : Nat) : Nat :=
  if f.exponentField bits = 0 then f.fractionField bits
  else (2 ^ f.fractionBits + f.fractionField bits) * f.lastPlace bits

/-- The magnitude nearest to `num / den`, ties to the even one, infinity past the largest. -/
def round (f : Format) (num den : Nat) : Nat :=
  let scaled := num * 2 ^ f.places
  let shift := (scaled / den).log2 - f.fractionBits
  min f.infinity (shift * 2 ^ f.fractionBits + roundDiv scaled (den * 2 ^ shift))

end Format

end RecordStore.Decimal
