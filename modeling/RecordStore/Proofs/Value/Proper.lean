import Mathlib
import RecordStore.Proofs.Decimal.Rounding
import RecordStore.Value.Conversion
import RecordStore.Record.Field

/-!
# Proper values

The payload of a proper value is within its type: an integer within its range, a decimal among
those that its width can hold, a string no longer than its length bytes can say. Every value that
is built, converted or truncated is proper.
-/

namespace RecordStore

/-! ### Integer ranges -/

namespace Width

lemma saturate_mem (w : Width) (signed : Bool) (n : Int) :
    w.least signed ≤ w.saturate signed n ∧ w.saturate signed n ≤ w.greatest signed := by
  have hrange : w.least signed ≤ w.greatest signed := by
    cases w <;> cases signed <;> decide
  rw [saturate]
  omega

lemma saturate_of_mem {w : Width} {signed : Bool} {n : Int}
    (h : w.least signed ≤ n ∧ n ≤ w.greatest signed) : w.saturate signed n = n := by
  rw [saturate]
  omega

lemma wrap_mem (w : Width) (signed : Bool) (n : Int) :
    w.least signed ≤ w.wrap signed n ∧ w.wrap signed n ≤ w.greatest signed := by
  cases w <;> cases signed <;>
    simp only [wrap, least, greatest, bits, bytes, Int.bmod_def, Bool.false_eq_true, if_false,
      if_true] <;>
    omega

lemma wrap_of_mem {w : Width} {signed : Bool} {n : Int}
    (h : w.least signed ≤ n ∧ n ≤ w.greatest signed) : w.wrap signed n = n := by
  cases w <;> cases signed <;>
    simp only [wrap, least, greatest, bits, bytes, Int.bmod_def, Bool.false_eq_true, if_false,
      if_true] at h ⊢ <;>
    omega

lemma wrap_modEq (w : Width) (signed : Bool) (n : Int) : w.wrap signed n ≡ n [ZMOD 2 ^ w.bits] := by
  rw [wrap, Int.ModEq]
  split_ifs
  · exact_mod_cast Int.bmod_emod
  · exact_mod_cast Int.mod_modEq n (2 ^ w.bits : Nat)

/-- Congruent integers have the same low bits. -/
lemma wrap_congr {w : Width} {signed : Bool} {m n : Int} (h : m ≡ n [ZMOD 2 ^ w.bits]) :
    w.wrap signed m = w.wrap signed n := by
  have hmod : m % (2 ^ w.bits : Nat) = n % (2 ^ w.bits : Nat) := by exact_mod_cast h
  rw [wrap, wrap]
  split_ifs
  · rw [← Int.emod_bmod, hmod, Int.emod_bmod]
  · exact hmod

/-- The low bits of an integer of the range, read under its signedness again. -/
lemma wrap_wrap_of_mem {w : Width} {signed : Bool} {n : Int}
    (h : w.least signed ≤ n ∧ n ≤ w.greatest signed) : w.wrap signed (w.wrap false n) = n :=
  (wrap_congr (w.wrap_modEq false n)).trans (wrap_of_mem h)

end Width

namespace Value

/-- The payload is within the type. -/
def Proper : Value → Prop
  | .integer w flags n => w.least flags.signed ≤ n ∧ n ≤ w.greatest flags.signed
  | .decimal w x => w ≠ .bits64 → x.roundToSingle = x
  | .string w bytes => bytes.length ≤ w.maxLength
  | .null _ | .dynamic _ | .objectId _ _ => True

instance : DecidablePred Proper
  | .integer w flags n =>
    inferInstanceAs (Decidable (w.least flags.signed ≤ n ∧ n ≤ w.greatest flags.signed))
  | .decimal w x => inferInstanceAs (Decidable (w ≠ .bits64 → x.roundToSingle = x))
  | .string w bytes => inferInstanceAs (Decidable (bytes.length ≤ w.maxLength))
  | .null _ | .dynamic _ | .objectId _ _ => inferInstanceAs (Decidable True)

/-! ### Building -/

lemma proper_zero (t : ValueType) : (zero t).Proper := by
  cases t with
  | integer w flags =>
    change w.least flags.signed ≤ 0 ∧ 0 ≤ w.greatest flags.signed
    cases w <;> cases flags.signed <;> decide
  | decimal w => exact fun _ => Decimal.roundToSingle_zero
  | string w => exact Nat.zero_le _
  | null w | dynamic w | objectId w => trivial

lemma proper_ofInt (t : ValueType) (n : Int) : (ofInt t n).Proper := by
  unfold ofInt
  split
  · exact Width.saturate_mem _ _ n
  · exact proper_zero _

lemma proper_ofDecimal (t : ValueType) (x : Decimal) : (ofDecimal t x).Proper := by
  unfold ofDecimal
  split
  · exact fun h => absurd rfl h
  · exact fun _ => x.roundToSingle_idempotent
  · exact proper_zero _

lemma proper_ofBytesIn (w : Width) (bytes : Bytes) : (ofBytesIn w bytes).Proper :=
  List.length_take_le _ _

lemma proper_ofBytes (bytes : Bytes) : (ofBytes bytes).Proper := proper_ofBytesIn _ _

/-! ### Converting -/

lemma proper_convertTo {v : Value} (hv : v.Proper) (t : ValueType) : (v.convertTo t).Proper := by
  unfold convertTo
  split
  · exact hv
  · split
    · exact hv
    · trivial
    · exact proper_ofInt _ _
    · exact proper_ofDecimal _ _
    · trivial
    · exact proper_ofBytesIn _ _
    · exact proper_zero _

lemma proper_truncateTo {v : Value} (hv : v.Proper) (t : ValueType) : (v.truncateTo t).Proper := by
  unfold truncateTo
  split
  · split
    · exact hv
    · exact Width.wrap_mem _ _ _
  · exact proper_convertTo hv _

lemma type_truncateTo (v : Value) {t : ValueType} (h : t.isDynamic = false) :
    (v.truncateTo t).type = t := by
  unfold truncateTo
  split
  · rename_i w signed n w' signed'
    split
    · rename_i hsame
      rw [hsame.1, hsame.2]
      rfl
    · rfl
  · exact type_convertTo v h

lemma truncateTo_dynamic (v : Value) (w : Width) : v.truncateTo (.dynamic w) = v := by
  cases v <;> exact convertTo_dynamic _ w

/-! ### Reading under the other signedness -/

lemma toUnsigned_eq_wrap {w : Width} {flags : Flags} {n : Int} (h : (integer w flags n).Proper) :
    (integer w flags n).toUnsigned = w.wrap false n := by
  obtain ⟨signed | signed, unnamed⟩ := flags
  · exact (Width.wrap_of_mem h).symm
  · rfl

lemma toSigned_eq_wrap {w : Width} {flags : Flags} {n : Int} (h : (integer w flags n).Proper) :
    (integer w flags n).toSigned = w.wrap true n := by
  obtain ⟨signed | signed, unnamed⟩ := flags
  · rfl
  · exact (Width.wrap_of_mem h).symm

/-! ### What storage keeps -/

/-- A value as it is read back: a placeholder, and any null, is the plain null. -/
def stored (v : Value) : Value :=
  if v.type.isNull ∨ v.type.isDynamic then .plainNull else v

lemma stored_of_type {v : Value} (hn : v.type.isNull = false) (hd : v.type.isDynamic = false) :
    v.stored = v := by
  simp [stored, hn, hd]

end Value

end RecordStore
