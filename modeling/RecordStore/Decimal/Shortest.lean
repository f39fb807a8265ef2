import RecordStore.Decimal.Basic

/-!
The shortest decimal that reads back: of all decimal numbers that round to a given finite
magnitude, those on the coarsest power-of-ten grid, and of these the one nearest to it, a tie
going up. Printed positionally, without exponent.
-/

namespace RecordStore.Decimal

/-- The numbers that round to a magnitude, as whole numbers of `1 / den`. Both ends belong to the
interval if the magnitude is even. -/
structure Interval where
  low : Nat
  mid : Nat
  high : Nat
  den : Nat
  closed : Bool

/-- Half a last place on either side; a quarter below a power of two, where the places of the
numbers below are half as wide. -/
def Interval.ofMagnitude (f : Format) (bits : Nat) : Interval :=
  let mid := 4 * f.units bits
  let place := f.lastPlace bits
  let below := if f.fractionField bits = 0 ∧ 1 < f.exponentField bits then place else 2 * place
  { low := mid - below, mid, high := mid + 2 * place, den := 4 * 2 ^ f.places,
    closed := bits % 2 = 0 }

namespace Interval

/-- Whether `num / den` lies in the interval. -/
def contains (i : Interval) (num den : Nat) : Bool :=
  if i.closed then i.low * den ≤ num * i.den && num * i.den ≤ i.high * den
  else i.low * den < num * i.den && num * i.den < i.high * den

/-- The multiple of `num / den` in the interval that is nearest to its middle. If there is one at
all, the multiples just below and just above the middle show it. -/
def nearest? (i : Interval) (num den : Nat) : Option Nat :=
  let floor := i.mid * den / (i.den * num)
  let toFloor := i.mid * den - floor * num * i.den
  let toCeiling := (floor + 1) * num * i.den - i.mid * den
  match i.contains (floor * num) den, i.contains ((floor + 1) * num) den with
  | true, true => some (if toFloor < toCeiling then floor else floor + 1)
  | true, false => some floor
  | false, true => some (floor + 1)
  | false, false => none

/-- A whole number times a power of ten: `digits * 10 ^ (up - down)`. -/
structure Scaled where
  digits : Nat
  up : Nat
  down : Nat

/-- Tries the grid of `10 ^ (up - down)`, then each finer one down to `10 ^ -last`. -/
def search (i : Interval) (last : Nat) (up down : Nat) : Scaled :=
  match i.nearest? (10 ^ up) (10 ^ down) with
  | some digits => ⟨digits, up, down⟩
  | none =>
    if up ≠ 0 then search i last (up - 1) down
    else if down < last then search i last 0 (down + 1)
    else ⟨i.mid * 10 ^ last / i.den, 0, last⟩
termination_by up + (last - down)

end Interval

/-- The shortest decimal that reads back as the magnitude. The search starts at the grid just
above the number's whole part and need not go below the grid on which the unit itself lies. -/
def shortest (f : Format) (bits : Nat) : Interval.Scaled :=
  let whole := f.units bits / 2 ^ f.places
  let up := if whole = 0 then 0 else (Nat.toDigits 10 whole).length
  (Interval.ofMagnitude f bits).search f.places up 0

/-! ### Positional text -/

/-- The digits of `digits * 10 ^ (up - down)` with a point in front of the last `down`. -/
def Interval.Scaled.text (s : Interval.Scaled) : String :=
  let digits := Nat.toDigits 10 s.digits ++ List.replicate s.up '0'
  let padded := List.replicate (s.down + 1 - digits.length) '0' ++ digits
  let whole := padded.take (padded.length - s.down)
  let fraction := padded.drop (padded.length - s.down)
  String.ofList (if fraction.isEmpty then whole else whole ++ '.' :: fraction)

/-- Shortest digits, a leading minus for every negative number, no exponent and no empty
fraction. -/
def text (x : Decimal) : String :=
  if x.isNaN then "NaN"
  else
    let body := if x.isFinite then (shortest .double x.magnitude).text else "inf"
    if x.isNegative then "-" ++ body else body

end RecordStore.Decimal
