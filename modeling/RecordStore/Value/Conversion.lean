import RecordStore.Value.Basic

/-!
Conversion between types, and equality across them. Two rules convert, and differ on integers
only: one saturates into the target range, the other keeps the low bits. Values are equal by kind
and payload, whatever the widths: a dynamic placeholder equals everything, and decimals are equal
within a tolerance.
-/

namespace RecordStore

/-! ### Words of 64 bits

A machine keeps the low bits of an integer by a mask, and reads them as a signed integer by two
shifts. -/

namespace Word

/-- The low bits of a word. A shift by its whole width is no shift, so no mask stands for all. -/
def mask (bits : Nat) (x : BitVec 64) : BitVec 64 :=
  if 64 ≤ bits then x else x &&& ((1#64 <<< bits) - 1#64)

/-- The low bits of a word, the highest of them repeated above. -/
def signExtend (bits : Nat) (x : BitVec 64) : BitVec 64 :=
  (x <<< (64 - bits)).sshiftRight (64 - bits)

end Word

/-- The low bits of an integer, under a signedness. -/
def Width.truncate (w : Width) (signed : Bool) (n : Int) : Int :=
  let raw := Word.mask w.bits (BitVec.ofInt 64 n)
  if signed then (Word.signExtend w.bits raw).toInt else raw.toNat

namespace Value

/-! ### Conversion -/

/-- The nearest value of the type. A value stays as it is if it has the type already or the type
is dynamic; across kinds it becomes the zero of the type. -/
def convertTo (v : Value) (t : ValueType) : Value :=
  if v.type = t then v
  else
    match v, t with
    | v, .dynamic _ => v
    | .null _, .null w => .null w
    | .integer _ _ n, .integer w flags => ofInt (.integer w flags) n
    | .decimal _ x, .decimal w => ofDecimal (.decimal w) x
    | .objectId _ id, .objectId w => .objectId w id
    | .string _ bytes, .string w => ofBytesIn w bytes
    | _, t => zero t

/-- Integers keep their low bits; all else converts as `convertTo` does. -/
def truncateTo (v : Value) (t : ValueType) : Value :=
  match v, t with
  | .integer w flags n, .integer w' flags' =>
    if w = w' ∧ flags = flags' then .integer w flags n
    else .integer w' flags' (w'.wrap flags'.signed n)
  | v, t => v.convertTo t

@[simp] theorem convertTo_self (v : Value) : v.convertTo v.type = v := by simp [convertTo]

@[simp] theorem convertTo_dynamic (v : Value) (w : Width) : v.convertTo (.dynamic w) = v := by
  cases v <;> simp [convertTo]

theorem type_convertTo (v : Value) {t : ValueType} (h : t.isDynamic = false) :
    (v.convertTo t).type = t := by
  unfold convertTo
  split
  · assumption
  · split
    · cases h
    · rfl
    · exact type_ofInt ..
    · exact type_ofDecimal ..
    · rfl
    · exact type_ofBytesIn ..
    · exact type_zero _

/-! ### Equality -/

def equals : Value → Value → Bool
  | .dynamic _, _ => true
  | _, .dynamic _ => true
  | .null _, .null _ => true
  | .integer _ _ m, .integer _ _ n => m = n
  | .decimal _ x, .decimal _ y => x.near y
  | .objectId _ a, .objectId _ b => a = b
  | .string _ a, .string _ b => a = b
  | _, _ => false

end Value

end RecordStore
