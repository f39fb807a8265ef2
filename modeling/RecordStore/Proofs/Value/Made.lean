import Mathlib
import RecordStore.Proofs.Value.Proper
import RecordStore.Value.Text

/-!
# The values there are

`Made v` says that the value comes out of the operations that make values: the constructors of each
kind, the reading of an untyped text, and the two conversions. These are the proper values, no more
and no fewer, so a statement about all proper values is one about everything that can be made.
-/

namespace RecordStore.Value

/-- The value is built by a constructor, or converted from one that is. Numbers of a machine type
are in the range of their type, so for them `ofInt` and `ofDecimal` change nothing. -/
inductive Made : Value → Prop
  | null : Made plainNull
  | placeholder : Made (.dynamic .bits8)
  | zero (t : ValueType) : Made (.zero t)
  | ofInt (t : ValueType) (n : Int) : Made (.ofInt t n)
  | ofDecimal (t : ValueType) (x : Decimal) : Made (.ofDecimal t x)
  | single (bits : UInt32) : Made (.decimal .bits32 (.ofSingle bits))
  | objectId (id : ObjectId) : Made (.objectId .bits64 id)
  | ofBytesIn (w : Width) (bytes : Bytes) : Made (.ofBytesIn w bytes)
  | ofBytes (bytes : Bytes) : Made (.ofBytes bytes)
  | read (text : String) : Made (.read text)
  | convertTo {v : Value} (made : Made v) (t : ValueType) : Made (v.convertTo t)
  | truncateTo {v : Value} (made : Made v) (t : ValueType) : Made (v.truncateTo t)

/-! ### Untyped texts -/

lemma proper_of_fits {signed : Bool} {n : Int} (h : Literal.fits signed n = true) :
    (Value.integer .bits64 signed n).Proper := by
  simpa [Literal.fits, Proper] using h

lemma proper_read (text : String) : (read text).Proper := by
  rw [read]
  cases Literal.ofText text with
  | null => trivial
  | whole n =>
    rw [Literal.value]
    split
    · exact proper_of_fits ‹_›
    · split
      · exact proper_of_fits ‹_›
      · exact fun h => absurd rfl h
  | fractional n => exact fun h => absurd rfl h
  | text s => exact proper_ofBytes _

/-! ### Proper values -/

theorem Made.proper {v : Value} (h : v.Made) : v.Proper := by
  induction h with
  | null | placeholder | objectId id => trivial
  | zero t => exact proper_zero t
  | ofInt t n => exact proper_ofInt t n
  | ofDecimal t x => exact proper_ofDecimal t x
  | single bits => exact fun _ => Decimal.roundToSingle_ofSingle bits
  | ofBytesIn w bytes => exact proper_ofBytesIn w bytes
  | ofBytes bytes => exact proper_ofBytes bytes
  | read text => exact proper_read text
  | convertTo _ t ih => exact proper_convertTo ih t
  | truncateTo _ t ih => exact proper_truncateTo ih t

lemma made_of_proper {v : Value} (h : v.Proper) : v.Made := by
  cases v with
  | null w => exact .zero (.null w)
  | dynamic w => exact .zero (.dynamic w)
  | integer w flags n =>
    rw [← Width.saturate_of_mem h]
    exact .ofInt (.integer w flags) n
  | decimal w x =>
    have hof : ofDecimal (.decimal w) x = .decimal w x := by
      cases w with
      | bits64 => rfl
      | bits8 | bits16 | bits32 => exact congrArg _ (h (by decide))
    rw [← hof]
    exact .ofDecimal (.decimal w) x
  | objectId w id =>
    have hconvert : (Value.objectId .bits64 id).convertTo (.objectId w) = .objectId w id := by
      cases w <;> rfl
    rw [← hconvert]
    exact .convertTo (.objectId id) (.objectId w)
  | string w bytes =>
    rw [← List.take_of_length_le h]
    exact .ofBytesIn w bytes

/-- What can be made is what is proper. -/
theorem made_iff_proper (v : Value) : v.Made ↔ v.Proper := ⟨Made.proper, made_of_proper⟩

end RecordStore.Value
