import Mathlib
import RecordStore.Proofs.Value.Conversion
import RecordStore.Value.Conversion

/-!
# Truncation is reduction modulo the width

Truncating an integer to a width takes it to the integer of the range that it is congruent to,
whatever the two widths and signednesses are. The masks and shifts of a machine word do the same.
-/

namespace RecordStore

/-! ### Words -/

namespace Word

variable {bits : Nat} {x : BitVec 64}

lemma toNat_mask (hbits : bits ≤ 64) : (mask bits x).toNat = x.toNat % 2 ^ bits := by
  rw [mask]
  split_ifs with h
  · obtain rfl : bits = 64 := by omega
    exact (Nat.mod_eq_of_lt x.isLt).symm
  · have hlt : 2 ^ bits < 2 ^ 64 := Nat.pow_lt_pow_right (by decide) (by omega)
    have hpow : (1#64 <<< bits).toNat = 2 ^ bits := by
      rw [BitVec.toNat_shiftLeft, Nat.shiftLeft_eq, BitVec.toNat_ofNat]
      omega
    have hmask : (1#64 <<< bits - 1#64).toNat = 2 ^ bits - 1 := by
      have hpos : 0 < 2 ^ bits := by positivity
      rw [BitVec.toNat_sub, hpow, BitVec.toNat_ofNat]
      omega
    rw [BitVec.toNat_and, hmask, Nat.and_two_pow_sub_one_eq_mod]

lemma toInt_signExtend (hpos : 0 < bits) (hbits : bits ≤ 64) :
    (signExtend bits x).toInt = (x.toNat : Int).bmod (2 ^ bits) := by
  obtain ⟨shift, hshift⟩ : ∃ shift, 64 = bits + shift := ⟨64 - bits, by omega⟩
  have hsub : 64 - bits = shift := by omega
  have hpow : 2 ^ 64 = 2 ^ shift * 2 ^ bits := by rw [hshift, pow_add, mul_comm]
  have heven : 2 ∣ 2 ^ bits := dvd_pow_self 2 (by omega)
  -- the shift to the left scales integer and modulus alike, and the one to the right undoes it
  rw [signExtend, hsub, BitVec.toInt_sshiftRight, BitVec.toInt_shiftLeft, Int.shiftRight_eq_div_pow,
    Nat.shiftLeft_eq, hpow, Nat.cast_mul, mul_comm (x.toNat : Int),
    Int.mod_bmod_mul_of_pos _ _ (by positivity) heven]
  exact Int.mul_ediv_cancel_left _ (by positivity)

end Word

/-! ### Residues -/

/-- Of all integers of the range `m` is the one that is congruent to `n`. -/
structure IsResidue (w : Width) (signed : Bool) (n m : Int) : Prop where
  mem : m ∈ Set.Icc (w.least signed) (w.greatest signed)
  modEq : m ≡ n [ZMOD 2 ^ w.bits]
  unique : ∀ k ∈ Set.Icc (w.least signed) (w.greatest signed), k ≡ n [ZMOD 2 ^ w.bits] → k = m

namespace Width

variable {w w' : Width} {signed signed' : Bool} {n : Int}

lemma bits_pos (w : Width) : 0 < w.bits := by cases w <;> decide

lemma bits_le (w : Width) : w.bits ≤ 64 := by cases w <;> decide

lemma isResidue_wrap (w : Width) (signed : Bool) (n : Int) :
    IsResidue w signed n (w.wrap signed n) where
  mem := w.wrap_mem signed n
  modEq := w.wrap_modEq signed n
  unique := by
    intro k hk hmod
    rw [← wrap_of_mem (Set.mem_Icc.mp hk), wrap_congr hmod]

lemma wrap_wrap (h : w'.bits ≤ w.bits) :
    w'.wrap signed' (w.wrap signed n) = w'.wrap signed' n :=
  wrap_congr ((w.wrap_modEq signed n).of_dvd (pow_dvd_pow 2 h))

/-! ### Low bits in a word -/

/-- The word of an integer has its low bits. -/
lemma wrap_ofInt (w : Width) (signed : Bool) (n : Int) :
    w.wrap signed (BitVec.ofInt 64 n).toNat = w.wrap signed n := by
  apply wrap_congr
  have hdvd : (2 : Int) ^ w.bits ∣ (2 ^ 64 : Nat) := by exact_mod_cast pow_dvd_pow 2 w.bits_le
  have hnat : ((BitVec.ofInt 64 n).toNat : Int) = n % (2 ^ 64 : Nat) := by
    rw [BitVec.toNat_ofInt]
    exact Int.toNat_of_nonneg (Int.emod_nonneg _ (by decide))
  rw [hnat]
  exact (Int.mod_modEq _ _).of_dvd hdvd

lemma wrap_unsigned_word (w : Width) (n : Int) :
    w.wrap false n = (Word.mask w.bits (BitVec.ofInt 64 n)).toNat := by
  rw [Word.toNat_mask w.bits_le, ← wrap_ofInt]
  rfl

lemma wrap_signed_word (w : Width) (n : Int) :
    w.wrap true n = (Word.signExtend w.bits (BitVec.ofInt 64 n)).toInt := by
  rw [Word.toInt_signExtend w.bits_pos w.bits_le, ← wrap_ofInt]
  rfl

/-- Masks and shifts find the residue. -/
lemma truncate_eq_wrap (w : Width) (signed : Bool) (n : Int) :
    w.truncate signed n = w.wrap signed n := by
  cases signed with
  | false => exact (w.wrap_unsigned_word n).symm
  | true =>
    calc w.truncate true n
        = ((Word.mask w.bits (BitVec.ofInt 64 n)).toNat : Int).bmod (2 ^ w.bits) :=
          Word.toInt_signExtend w.bits_pos w.bits_le
      _ = w.wrap true (w.wrap false n) := by rw [wrap_unsigned_word]; rfl
      _ = w.wrap true n := wrap_congr (w.wrap_modEq false n)

end Width

namespace Value

/-! ### Truncation of values -/

variable {w w' : Width} {flags flags' : Flags} {n : Int} {v : Value}

lemma truncateTo_integer (h : (integer w flags n).Proper) :
    (integer w flags n).truncateTo (.integer w' flags') =
      .integer w' flags' (w'.wrap flags'.signed n) := by
  rw [truncateTo]
  split
  · rename_i hsame
    obtain ⟨rfl, rfl⟩ := hsame
    rw [Width.wrap_of_mem h]
  · rfl

lemma truncateTo_of_kind_ne {t : ValueType} (h : v.type.kind ≠ .integer ∨ t.kind ≠ .integer) :
    v.truncateTo t = v.convertTo t := by
  unfold truncateTo
  split
  · exact absurd h (by simp [type, ValueType.kind])
  · rfl

/-- A value of kind integer is one. -/
lemma exists_integer (h : v.type.kind = .integer) : ∃ w flags n, v = .integer w flags n := by
  cases v with
  | integer w flags n => exact ⟨w, flags, n, rfl⟩
  | null | dynamic | decimal | objectId | string => cases h

/-- Truncating `v` keeps the low bits that the type has room for. -/
structure Truncates (v : Value) : Prop where
  residue : ∀ w flags n w' flags', v = .integer w flags n →
    ∃ m, v.truncateTo (.integer w' flags') = .integer w' flags' m ∧
      IsResidue w' flags'.signed n m
  converts : ∀ w flags n w' flags', v = .integer w flags n →
    n ∈ Set.Icc (w'.least flags'.signed) (w'.greatest flags'.signed) →
    v.truncateTo (.integer w' flags') = v.convertTo (.integer w' flags')
  narrows : ∀ w flags w' flags', v.type.kind = .integer → w'.bits ≤ w.bits →
    (v.truncateTo (.integer w flags)).truncateTo (.integer w' flags') =
      v.truncateTo (.integer w' flags')
  unsigned : v.type.kind = .integer →
    v.toUnsigned = (v.truncateTo (.integer v.type.width false)).toInt
  signed : v.type.kind = .integer →
    v.toSigned = (v.truncateTo (.integer v.type.width true)).toInt
  others : ∀ t, v.type.kind ≠ .integer ∨ t.kind ≠ .integer → v.truncateTo t = v.convertTo t
  /-- What a machine computes by masks and shifts. -/
  words : ∀ w flags n w' flags', v = .integer w flags n →
    v.truncateTo (.integer w' flags') = .integer w' flags' (w'.truncate flags'.signed n) ∧
      v.toUnsigned = (Word.mask w.bits (BitVec.ofInt 64 n)).toNat ∧
      v.toSigned = (Word.signExtend w.bits (BitVec.ofInt 64 n)).toInt

/-- Every value that is made is truncated by reduction modulo the width. -/
theorem truncation_reduces {v : Value} (h : v.Made) : Truncates v where
  residue := by
    rintro w flags n w' flags' rfl
    exact ⟨w'.wrap flags'.signed n, truncateTo_integer h.proper,
      w'.isResidue_wrap flags'.signed n⟩
  converts := by
    rintro w flags n w' flags' rfl hmem
    rw [truncateTo_integer h.proper, convertTo_integer h.proper,
      Width.wrap_of_mem (Set.mem_Icc.mp hmem), Width.saturate_of_mem (Set.mem_Icc.mp hmem)]
  narrows := by
    intro w₁ flags₁ w₂ flags₂ hkind hbits
    obtain ⟨w, flags, n, rfl⟩ := exists_integer hkind
    have hproper := proper_truncateTo h.proper (.integer w₁ flags₁)
    rw [truncateTo_integer h.proper] at hproper ⊢
    rw [truncateTo_integer hproper, truncateTo_integer h.proper, Width.wrap_wrap hbits]
  unsigned := by
    intro hkind
    obtain ⟨w, flags, n, rfl⟩ := exists_integer hkind
    rw [type, ValueType.width, truncateTo_integer h.proper, toUnsigned_eq_wrap h.proper]
    rfl
  signed := by
    intro hkind
    obtain ⟨w, flags, n, rfl⟩ := exists_integer hkind
    rw [type, ValueType.width, truncateTo_integer h.proper, toSigned_eq_wrap h.proper]
    rfl
  others := fun _ => truncateTo_of_kind_ne
  words := by
    rintro w flags n w' flags' rfl
    rw [truncateTo_integer h.proper, Width.truncate_eq_wrap, toUnsigned_eq_wrap h.proper,
      Width.wrap_unsigned_word, toSigned_eq_wrap h.proper, Width.wrap_signed_word]
    exact ⟨rfl, rfl, rfl⟩

/-- The greatest unsigned integer is minus one under the signed type of its width, and under every
narrower one. -/
theorem greatest_unsigned_truncates :
    (Value.integer .bits64 false (2 ^ 64 - 1)).Made ∧
      (Value.integer .bits64 false (2 ^ 64 - 1)).Truncates ∧
      (Value.integer .bits64 false (2 ^ 64 - 1)).truncateTo (.integer .bits64 true) =
        .integer .bits64 true (-1) ∧
      (Value.integer .bits64 false (2 ^ 64 - 1)).truncateTo (.integer .bits8 true) =
        .integer .bits8 true (-1) :=
  have hmade : (Value.integer .bits64 false (2 ^ 64 - 1)).Made := made_of_proper (by decide)
  ⟨hmade, truncation_reduces hmade, by decide, by decide⟩

end Value

end RecordStore
