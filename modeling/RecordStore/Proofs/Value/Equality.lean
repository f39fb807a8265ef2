import Mathlib
import RecordStore.Proofs.Value.Conversion
import RecordStore.Proofs.Value.Literal
import RecordStore.Value.Conversion

/-!
# Equality goes by kind and payload

Two values are compared by their kinds and payloads alone, so equality knows no widths and no
signedness, and a conversion that keeps both does not show. It is symmetric. Of all values only
decimals can differ from themselves: the distance of an infinity from itself is not a number, so
the tolerance takes in neither it nor what is no number to begin with.
-/

namespace RecordStore

/-! ### Decimals -/

namespace Decimal

def isInfinite (x : Decimal) : Bool := x.magnitude = Format.double.infinity

lemma isFinite_eq_false_iff {x : Decimal} :
    x.isFinite = false ↔ x.isNaN = true ∨ x.isInfinite = true := by
  simp only [isFinite, isNaN, isInfinite, decide_eq_false_iff_not, decide_eq_true_eq]
  omega

lemma Format.round_zero (f : Format) {den : Nat} (hden : 0 < den) : f.round 0 den = 0 := by
  simp [Format.round, roundDiv, hden]

lemma Format.round_le_infinity (f : Format) (num den : Nat) : f.round num den ≤ f.infinity :=
  Nat.min_le_left _ _

lemma near_self (x : Decimal) : x.near x = x.isFinite := by
  have hround : Format.double.round 0 (2 ^ Format.double.places) = 0 :=
    Format.round_zero _ (Nat.two_pow_pos _)
  simp [near, hround]

lemma near_comm (x y : Decimal) : x.near y = y.near x := by
  have hdistance : (x.units - y.units).natAbs = (y.units - x.units).natAbs := by omega
  rw [near, near, hdistance, Bool.and_comm x.isFinite]

lemma isNaN_ofMagnitude (negative : Bool) {m : Nat} (h : m ≤ Format.double.infinity) :
    (ofMagnitude negative m).isNaN = false := by
  have hsign : m < Format.double.signBit := lt_of_le_of_lt h (by decide)
  rw [isNaN, magnitude_ofMagnitude negative hsign]
  exact decide_eq_false (not_lt.mpr h)

/-- A numeral is read as a number or as an infinity. -/
lemma isNaN_toDecimal (n : Numeral) : n.toDecimal.isNaN = false := by
  rw [Numeral.toDecimal]
  split_ifs
  · exact isNaN_ofMagnitude _ (Nat.zero_le _)
  · exact isNaN_ofMagnitude _ le_rfl
  · exact isNaN_ofMagnitude _ (Format.round_le_infinity _ _ _)

end Decimal

namespace Value

variable {a b v : Value} {t : ValueType}

/-! ### A value and itself -/

/-- Only decimals that are not finite differ from themselves. -/
lemma equals_self_eq_false_iff :
    v.equals v = false ↔ ∃ w x, v = .decimal w x ∧ (x.isNaN = true ∨ x.isInfinite = true) := by
  cases v with
  | decimal w x => simp [equals, Decimal.near_self, Decimal.isFinite_eq_false_iff]
  | null | dynamic | integer | objectId | string => simp [equals]

lemma equals_comm (a b : Value) : a.equals b = b.equals a := by
  cases a <;> cases b <;> simp only [equals, eq_comm, Decimal.near_comm]

lemma exists_of_read_eq_decimal {text : String} {w : Width} {x : Decimal}
    (h : read text = .decimal w x) :
    ∃ n, Numeral.parse? text = some n ∧ w = .bits64 ∧ x = n.toDecimal := by
  rw [read, Literal.ofText] at h
  split_ifs at h
  · cases h
  · cases hparse : Numeral.parse? text with
    | none =>
      rw [hparse] at h
      cases h
    | some n =>
      rw [hparse] at h
      refine ⟨n, rfl, ?_⟩
      dsimp only at h
      split_ifs at h
      · rw [Literal.value] at h
        split_ifs at h
        all_goals cases h
        exact ⟨rfl, rfl⟩
      · cases h
        exact ⟨rfl, rfl⟩

/-- The texts whose values differ from themselves are the numerals beyond the largest decimal. -/
lemma read_equals_self_eq_false_iff (text : String) :
    (read text).equals (read text) = false ↔
      ∃ n, Numeral.parse? text = some n ∧ read text = .decimal .bits64 n.toDecimal ∧
        n.toDecimal.isInfinite = true := by
  rw [equals_self_eq_false_iff]
  constructor
  · rintro ⟨w, x, hread, hx⟩
    obtain ⟨n, hn, rfl, rfl⟩ := exists_of_read_eq_decimal hread
    have hnumber : n.toDecimal.isNaN = false := Decimal.isNaN_toDecimal n
    exact ⟨n, hn, hread, hx.resolve_left (by simp [hnumber])⟩
  · rintro ⟨n, -, hread, hx⟩
    exact ⟨.bits64, n.toDecimal, hread, .inr hx⟩

/-! ### Kinds that are compared exactly -/

/-- Neither a placeholder nor a decimal. -/
def IsExact (v : Value) : Prop := v.type.kind ≠ .dynamic ∧ v.type.kind ≠ .decimal

instance : DecidablePred IsExact := fun v =>
  inferInstanceAs (Decidable (v.type.kind ≠ .dynamic ∧ v.type.kind ≠ .decimal))

lemma equals_iff (ha : a.IsExact) (hb : b.IsExact) :
    a.equals b = true ↔ a.type.kind = b.type.kind ∧ a.payload = b.payload := by
  obtain ⟨hdynamic, hdecimal⟩ := ha
  obtain ⟨hdynamic', hdecimal'⟩ := hb
  cases a with
  | dynamic => exact absurd rfl hdynamic
  | decimal => exact absurd rfl hdecimal
  | null | integer | objectId | string =>
    cases b with
    | dynamic => exact absurd rfl hdynamic'
    | decimal => exact absurd rfl hdecimal'
    | null | integer | objectId | string => simp [equals, payload, type, ValueType.kind]

/-- On them equality is an equivalence. -/
lemma equals_equivalence :
    Equivalence fun a b : {v : Value // v.IsExact} => a.val.equals b.val = true where
  refl a := (equals_iff a.2 a.2).mpr ⟨rfl, rfl⟩
  symm {a b} h := equals_comm a.val b.val ▸ h
  trans {a b c} hab hbc := by
    obtain ⟨hkind, hpayload⟩ := (equals_iff a.2 b.2).mp hab
    obtain ⟨hkind', hpayload'⟩ := (equals_iff b.2 c.2).mp hbc
    exact (equals_iff a.2 c.2).mpr ⟨hkind.trans hkind', hpayload.trans hpayload'⟩

/-! ### Conversions that lose nothing -/

/-- Nothing but kind and payload is looked at. -/
lemma equals_congr {a' : Value} (hkind : a'.type.kind = a.type.kind)
    (hpayload : a'.payload = a.payload) (b : Value) : a'.equals b = a.equals b := by
  cases a <;> cases a' <;> cases hkind <;> cases hpayload <;> cases b <;> rfl

/-- The type takes the value as it is, or has its kind and can hold its payload. -/
def Lossless (v : Value) (t : ValueType) : Prop :=
  t.isDynamic = true ∨ t.kind = v.type.kind ∧ v.payload ∈ t.range

lemma Lossless.convertTo_equals (hv : v.Proper) (h : v.Lossless t) (b : Value) :
    (v.convertTo t).equals b = v.equals b := by
  rcases h with hdynamic | ⟨hkind, hmem⟩
  · rw [convertTo_of_isDynamic v hdynamic]
  · cases hdynamic : t.isDynamic with
    | true => rw [convertTo_of_isDynamic v hdynamic]
    | false =>
      refine equals_congr ?_ (payload_convertTo hv hmem) b
      rw [type_convertTo v hdynamic, hkind]

/-- Where nothing is lost the two rules of conversion agree. -/
lemma Lossless.truncateTo_eq (hv : v.Proper) (h : v.Lossless t) :
    v.truncateTo t = v.convertTo t := by
  rcases h with hdynamic | ⟨hkind, hmem⟩
  · cases t <;> cases hdynamic
    rw [truncateTo_dynamic, convertTo_dynamic]
  · cases v with
    | integer w flags n =>
      cases t with
      | integer w' flags' =>
        have hrange := ValueType.integer_mem_range.mp hmem
        rw [truncateTo, convertTo_integer hv, Width.saturate_of_mem hrange]
        split_ifs with hsame
        · obtain ⟨rfl, rfl⟩ := hsame
          rfl
        · rw [Width.wrap_of_mem hrange]
      | null | dynamic | decimal | objectId | string => cases hkind
    | null | dynamic | decimal | objectId | string => rfl

/-! ### The laws -/

/-- Equality tells a value from itself only where a decimal is infinite or not a number, and so
for texts only where a numeral overflows; it is symmetric; among nulls, integers, identifiers and
strings it is the equivalence by kind and payload; and it does not see a conversion, by either
rule, that loses nothing. -/
theorem equality_by_kind_and_payload (a b : Value) (text : String) (t : ValueType) :
    (a.equals a = false ↔ ∃ w x, a = .decimal w x ∧ (x.isNaN = true ∨ x.isInfinite = true)) ∧
      a.equals b = b.equals a ∧
      ((read text).equals (read text) = false ↔
        ∃ n, Numeral.parse? text = some n ∧ read text = .decimal .bits64 n.toDecimal ∧
          n.toDecimal.isInfinite = true) ∧
      (Equivalence fun a b : {v : Value // v.IsExact} => a.val.equals b.val = true) ∧
      (a.IsExact → b.IsExact →
        (a.equals b = true ↔ a.type.kind = b.type.kind ∧ a.payload = b.payload)) ∧
      (a.Made → a.Lossless t →
        (a.convertTo t).equals b = a.equals b ∧ (a.truncateTo t).equals b = a.equals b) := by
  refine ⟨equals_self_eq_false_iff, equals_comm a b, read_equals_self_eq_false_iff text,
    equals_equivalence, equals_iff, fun hmade hlossless => ?_⟩
  have hconvert := hlossless.convertTo_equals hmade.proper b
  exact ⟨hconvert, hlossless.truncateTo_eq hmade.proper ▸ hconvert⟩

/-- Five as a signed byte and as an unsigned integer of 64 bits. -/
theorem five_equals_five_of_other_width :
    (integer .bits8 true 5).Made ∧ (integer .bits8 true 5).Lossless (.integer .bits64 false) ∧
      (integer .bits8 true 5).IsExact ∧ (integer .bits64 false 5).IsExact ∧
      (integer .bits8 true 5).equals (integer .bits64 false 5) = true ∧
      ((integer .bits8 true 5).convertTo (.integer .bits64 false)).equals
        (integer .bits8 true 5) = true := by
  have hmade : (integer .bits8 true 5).Made := made_of_proper (by decide)
  have hlossless : (integer .bits8 true 5).Lossless (.integer .bits64 false) :=
    .inr ⟨rfl, ValueType.integer_mem_range.mpr (by decide)⟩
  have hsigned : (integer .bits8 true 5).IsExact := by decide
  have hunsigned : (integer .bits64 false 5).IsExact := by decide
  obtain ⟨-, -, -, -, hexact, -⟩ := equality_by_kind_and_payload (integer .bits8 true 5)
    (integer .bits64 false 5) "5" (.integer .bits64 false)
  obtain ⟨-, -, -, -, -, hkept⟩ := equality_by_kind_and_payload (integer .bits8 true 5)
    (integer .bits8 true 5) "5" (.integer .bits64 false)
  exact ⟨hmade, hlossless, hsigned, hunsigned, (hexact hsigned hunsigned).mpr ⟨rfl, rfl⟩,
    (hkept hmade hlossless).1.trans (by decide)⟩

/-- Infinity is a number that differs from itself, and so does the text of a numeral that
overflows. -/
theorem infinity_not_equal_to_itself :
    (Value.decimal .bits64 ⟨0x7FF0000000000000⟩).Made ∧
      Decimal.isNaN ⟨0x7FF0000000000000⟩ = false ∧
      (Value.decimal .bits64 ⟨0x7FF0000000000000⟩).equals
        (.decimal .bits64 ⟨0x7FF0000000000000⟩) = false ∧
      (read "1e999").equals (read "1e999") = false :=
  ⟨made_of_proper fun hne => absurd rfl hne, by decide, by decide +kernel, by decide +kernel⟩

end Value

end RecordStore
