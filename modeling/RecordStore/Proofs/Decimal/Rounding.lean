import Mathlib
import RecordStore.Decimal.Basic

/-!
# Rounding to thirty-two bits

A count of units with no more significant digits than a format keeps is rounded to itself. Every
32-bit number is such a count in the 64-bit format, so going there and back changes nothing, and
rounding to what 32 bits can hold is idempotent: for numbers, infinities and what is not a number,
of which going there sets the quiet bit.
-/

namespace RecordStore.Decimal

lemma roundDiv_mul (q : Nat) {den : Nat} (h : 0 < den) : roundDiv (q * den) den = q := by
  simp [roundDiv, Nat.mul_div_cancel _ h, h]

namespace Format

/-- The magnitude of a count of units. -/
def ofUnits (f : Format) (n : Nat) : Nat :=
  (n.log2 - f.fractionBits) * 2 ^ f.fractionBits + n / 2 ^ (n.log2 - f.fractionBits)

/-- The count of units has no more significant digits than the format keeps. -/
def Representable (f : Format) (n : Nat) : Prop := 2 ^ (n.log2 - f.fractionBits) ∣ n

/-! ### Counts of units and magnitudes -/

lemma log2_units {f : Format} {bits : Nat} (h : f.exponentField bits ≠ 0) :
    (f.units bits).log2 = f.fractionBits + (f.exponentField bits - 1) := by
  have hfrac : f.fractionField bits < 2 ^ f.fractionBits := Nat.mod_lt _ (by positivity)
  rw [units, if_neg h, lastPlace]
  apply (Nat.log2_eq_iff (by positivity)).mpr
  rw [Nat.pow_succ, Nat.pow_add]
  constructor
  · exact Nat.mul_le_mul_right _ (by omega)
  · calc (2 ^ f.fractionBits + f.fractionField bits) * 2 ^ (f.exponentField bits - 1)
        < (2 ^ f.fractionBits * 2) * 2 ^ (f.exponentField bits - 1) :=
          Nat.mul_lt_mul_of_pos_right (by omega) (by positivity)
      _ = _ := by ring

lemma log2_units_sub {f : Format} {bits : Nat} :
    (f.units bits).log2 - f.fractionBits = f.exponentField bits - 1 := by
  by_cases h : f.exponentField bits = 0
  · have hfrac : f.fractionField bits < 2 ^ f.fractionBits := Nat.mod_lt _ (by positivity)
    rw [units, if_pos h, h]
    by_cases hz : f.fractionField bits = 0
    · simp [hz]
    · have := (Nat.log2_lt hz).mpr hfrac
      omega
  · rw [log2_units h]
    omega

lemma representable_units (f : Format) (bits : Nat) : f.Representable (f.units bits) := by
  rw [Representable, log2_units_sub, units]
  split
  · rename_i h
    simp [h]
  · exact Nat.dvd_mul_left _ _

lemma ofUnits_units (f : Format) (bits : Nat) : f.ofUnits (f.units bits) = bits := by
  have hsplit : f.exponentField bits * 2 ^ f.fractionBits + f.fractionField bits = bits :=
    Nat.div_add_mod' _ _
  rw [ofUnits, log2_units_sub, units]
  split
  · rename_i h
    rw [h] at hsplit ⊢
    simpa using hsplit
  · rename_i h
    rw [lastPlace, Nat.mul_div_cancel _ (by positivity), ← Nat.add_assoc,
      ← Nat.succ_mul, Nat.succ_eq_add_one, Nat.sub_add_cancel (by omega), hsplit]

lemma units_ofUnits {f : Format} {n : Nat} (h : f.Representable n) : f.units (f.ofUnits n) = n := by
  obtain ⟨q, hq⟩ := h
  by_cases hlt : n < 2 ^ f.fractionBits
  · have hshift : n.log2 - f.fractionBits = 0 := by
      by_cases hz : n = 0
      · simp [hz]
      · have := (Nat.log2_lt hz).mpr hlt
        omega
    have hfield : f.ofUnits n = n := by simp [ofUnits, hshift]
    rw [hfield, units, exponentField, fractionField, Nat.div_eq_of_lt hlt, if_pos rfl,
      Nat.mod_eq_of_lt hlt]
  · have hz : n ≠ 0 := by
      intro hz
      exact hlt (hz ▸ by positivity)
    have hge : f.fractionBits ≤ n.log2 := (Nat.le_log2 hz).mpr (by omega)
    obtain ⟨s, hs⟩ : ∃ s, n.log2 = f.fractionBits + s := ⟨_, (Nat.add_sub_cancel' hge).symm⟩
    have hshift : n.log2 - f.fractionBits = s := by omega
    rw [hshift] at hq
    have hpow : 0 < 2 ^ s := by positivity
    -- the leading digit of the quotient is the one that the exponent field stands for
    have hlow : 2 ^ f.fractionBits ≤ q := by
      have := Nat.log2_self_le hz
      rw [hs, Nat.pow_add, hq, Nat.mul_comm] at this
      exact Nat.le_of_mul_le_mul_left this hpow
    have hhigh : q < 2 ^ f.fractionBits * 2 := by
      have := Nat.lt_log2_self (n := n)
      rw [hs, show f.fractionBits + s + 1 = s + (f.fractionBits + 1) by omega, Nat.pow_add, hq,
        Nat.pow_succ] at this
      exact Nat.lt_of_mul_lt_mul_left this
    have hfield : f.ofUnits n = (s + 1) * 2 ^ f.fractionBits + (q - 2 ^ f.fractionBits) := by
      rw [ofUnits, hshift]
      conv_lhs => rw [hq, Nat.mul_div_cancel_left _ hpow]
      rw [Nat.succ_mul]
      omega
    have hexp : f.exponentField (f.ofUnits n) = s + 1 := by
      rw [exponentField, hfield, Nat.mul_comm, Nat.mul_add_div (by positivity),
        Nat.div_eq_of_lt (by omega), Nat.add_zero]
    have hfrac : f.fractionField (f.ofUnits n) = q - 2 ^ f.fractionBits := by
      rw [fractionField, hfield, Nat.mul_comm, Nat.mul_add_mod, Nat.mod_eq_of_lt (by omega)]
    rw [units, hexp, if_neg (by omega), hfrac, lastPlace, hexp, Nat.add_sub_cancel,
      Nat.add_sub_cancel' hlow, Nat.mul_comm]
    exact hq.symm

/-- What a format can hold is rounded to itself. -/
lemma round_of_representable {f : Format} (num den : Nat) {n : Nat} (hden : 0 < den)
    (h : num * 2 ^ f.places = n * den) (hn : f.Representable n) :
    f.round num den = min f.infinity (f.ofUnits n) := by
  obtain ⟨q, hq⟩ := hn
  have hdiv : num * 2 ^ f.places / den = n := by rw [h, Nat.mul_div_cancel _ hden]
  simp only [round, ofUnits, hdiv]
  have hscaled : num * 2 ^ f.places = q * (den * 2 ^ (n.log2 - f.fractionBits)) := by
    rw [h]
    conv_lhs => rw [hq]
    ring
  have hquot : n / 2 ^ (n.log2 - f.fractionBits) = q :=
    Nat.div_eq_of_eq_mul_right (by positivity) hq
  rw [hscaled, roundDiv_mul q (by positivity), hquot]

end Format

/-! ### Thirty-two bits within sixty-four -/

lemma log2_mul_pow {n : Nat} (h : n ≠ 0) (k : Nat) : (n * 2 ^ k).log2 = n.log2 + k := by
  apply (Nat.log2_eq_iff (Nat.mul_ne_zero h (by positivity))).mpr
  rw [show n.log2 + k + 1 = (n.log2 + 1) + k by omega, Nat.pow_add, Nat.pow_add _ _ k]
  exact ⟨Nat.mul_le_mul_right _ (Nat.log2_self_le h),
    Nat.mul_lt_mul_of_pos_right Nat.lt_log2_self (by positivity)⟩

/-- A finer unit and more digits keep what was representable. -/
lemma representable_mul_pow {f g : Format} (hfg : f.fractionBits ≤ g.fractionBits) {n : Nat}
    (h : f.Representable n) (k : Nat) : g.Representable (n * 2 ^ k) := by
  by_cases hz : n = 0
  · simp [hz, Format.Representable]
  · have hmul : 2 ^ (n.log2 - f.fractionBits) * 2 ^ k ∣ n * 2 ^ k := Nat.mul_dvd_mul_right h _
    rw [← Nat.pow_add] at hmul
    rw [Format.Representable, log2_mul_pow hz]
    exact (Nat.pow_dvd_pow 2 (by omega)).trans hmul

/-- How many units of the 64-bit format make one of the 32-bit format, as a power of two. -/
def widening : Nat := Format.double.places - Format.single.places

lemma places_double : Format.double.places = Format.single.places + widening := rfl

lemma units_single_lt {m : Nat} (h : m < Format.single.infinity) :
    Format.single.units m < 2 ^ 24 * 2 ^ 253 := by
  have hexp : Format.single.exponentField m < 255 :=
    Nat.div_lt_of_lt_mul (by simpa [Format.infinity, Format.single, Nat.mul_comm] using h)
  have hfrac : Format.single.fractionField m < 2 ^ 23 := Nat.mod_lt _ (by positivity)
  rw [Format.units]
  split
  · exact (hfrac.trans (by decide)).trans_le (Nat.le_mul_of_pos_right (2 ^ 24) (by positivity))
  · have hplace : Format.single.lastPlace m ≤ 2 ^ 253 :=
      Nat.pow_le_pow_right (by omega) (by omega)
    refine Nat.mul_lt_mul_of_lt_of_le ?_ hplace (by positivity)
    change 2 ^ 23 + Format.single.fractionField m < 2 ^ 24
    omega

/-- A finite 32-bit number is a finite 64-bit number. -/
lemma ofUnits_double_lt {n : Nat} (h : n < 2 ^ 24 * 2 ^ 253) :
    Format.double.ofUnits (n * 2 ^ widening) < Format.double.infinity := by
  have hn : n * 2 ^ widening < 2 ^ (24 + (253 + widening)) := by
    rw [Nat.pow_add, Nat.pow_add, ← Nat.mul_assoc]
    exact Nat.mul_lt_mul_of_pos_right h (by positivity)
  generalize n * 2 ^ widening = k at hn
  have hlog : k.log2 - 52 ≤ 1149 := by
    by_cases hz : k = 0
    · simp [hz]
    · have : k.log2 < 24 + (253 + widening) := (Nat.log2_lt hz).mpr hn
      exact Nat.sub_le_iff_le_add.mpr (Nat.le_of_lt_succ this)
  have hquot : k / 2 ^ (k.log2 - 52) < 2 ^ 53 := by
    apply Nat.div_lt_of_lt_mul
    rw [← Nat.pow_add]
    exact Nat.lt_log2_self.trans_le (Nat.pow_le_pow_right (by omega) (by omega))
  calc Format.double.ofUnits k
      = (k.log2 - 52) * 2 ^ 52 + k / 2 ^ (k.log2 - 52) := rfl
    _ < 1149 * 2 ^ 52 + 2 ^ 53 := by
        have := Nat.mul_le_mul_right (2 ^ 52) hlog
        omega
    _ < Format.double.infinity := by decide

lemma convert_of_lt {m : Nat} (h : m < Format.single.infinity) :
    convert .single .double m = Format.double.ofUnits (Format.single.units m * 2 ^ widening) := by
  have hrep : Format.double.Representable (Format.single.units m * 2 ^ widening) :=
    representable_mul_pow (by decide) (Format.representable_units .single m) _
  have hround := Format.round_of_representable (f := .double) (Format.single.units m)
    (2 ^ Format.single.places) (by positivity)
    (by rw [places_double, Nat.pow_add, Nat.mul_assoc, Nat.mul_comm (2 ^ widening)]) hrep
  rw [convert, if_pos h, hround]
  exact Nat.min_eq_right (ofUnits_double_lt (units_single_lt h)).le

lemma convert_convert_of_lt {m : Nat} (h : m < Format.single.infinity) :
    convert .double .single (convert .single .double m) = m := by
  have hlt := ofUnits_double_lt (units_single_lt h)
  have hunits := Format.units_ofUnits (f := .double)
    (representable_mul_pow (by decide) (Format.representable_units .single m) widening)
  have hround := Format.round_of_representable (f := .single)
    (Format.single.units m * 2 ^ widening) (2 ^ Format.double.places)
    (n := Format.single.units m) (by positivity)
    (by rw [places_double, Nat.pow_add, Nat.mul_assoc, Nat.mul_comm (2 ^ widening)])
    (Format.representable_units .single m)
  rw [convert_of_lt h, convert, if_pos hlt, hunits, hround, Format.ofUnits_units]
  exact Nat.min_eq_right h.le

/-! ### What is not a number -/

/-- The magnitude of a 32-bit number that is finite, infinite or a quiet NaN. -/
def IsQuiet (m : Nat) : Prop :=
  m ≤ Format.single.infinity ∨ ∃ payload < 2 ^ 23, m = Format.single.infinity + (payload ||| 2 ^ 22)

lemma quiet_payload_lt {payload : Nat} (h : payload < 2 ^ 23) : payload ||| 2 ^ 22 < 2 ^ 23 :=
  Nat.or_lt_two_pow h (by decide)

/-- The quiet bit of the wide format is the one of the narrow format, moved along. -/
lemma convert_quiet {payload : Nat} (h : payload < 2 ^ 23) :
    convert .single .double (Format.single.infinity + (payload ||| 2 ^ 22)) =
      Format.double.infinity + (payload ||| 2 ^ 22) * 2 ^ 29 := by
  have hq := quiet_payload_lt h
  have hpos : 0 < payload ||| 2 ^ 22 := Nat.pos_of_ne_zero (by simp [Nat.or_eq_zero_iff])
  have hfrac : Format.single.fractionField (Format.single.infinity + (payload ||| 2 ^ 22)) =
      payload ||| 2 ^ 22 := by
    rw [Format.fractionField, Format.infinity, Nat.mul_comm, Nat.mul_add_mod]
    exact Nat.mod_eq_of_lt hq
  have hwide : (payload ||| 2 ^ 22) * 2 ^ 52 / 2 ^ 23 = (payload ||| 2 ^ 22) * 2 ^ 29 := by omega
  have hset : (payload ||| 2 ^ 22) * 2 ^ 29 ||| 2 ^ 51 = (payload ||| 2 ^ 22) * 2 ^ 29 := by
    have : (2 : Nat) ^ 51 = 2 ^ 22 * 2 ^ 29 := by decide
    rw [this, ← Nat.shiftLeft_eq, ← Nat.shiftLeft_eq, ← Nat.shiftLeft_or_distrib, Nat.or_assoc,
      Nat.or_self]
  rw [convert, if_neg (by omega), if_neg (by omega), hfrac]
  change _ + ((payload ||| 2 ^ 22) * 2 ^ 52 / 2 ^ 23 ||| 2 ^ 51) = _
  rw [hwide, hset]

/-- A 32-bit number is read back from the 64-bit number that it is. -/
lemma convert_convert {m : Nat} (h : IsQuiet m) :
    convert .double .single (convert .single .double m) = m := by
  rcases h with h | ⟨payload, hp, rfl⟩
  · rcases Nat.lt_or_eq_of_le h with hlt | rfl
    · exact convert_convert_of_lt hlt
    · decide
  · have hq := quiet_payload_lt hp
    have hpos : 0 < payload ||| 2 ^ 22 := Nat.pos_of_ne_zero (by simp [Nat.or_eq_zero_iff])
    have hfrac : Format.double.fractionField
        (Format.double.infinity + (payload ||| 2 ^ 22) * 2 ^ 29) =
          (payload ||| 2 ^ 22) * 2 ^ 29 := by
      rw [Format.fractionField, Format.infinity, Nat.mul_comm (2 ^ _ - 1), Nat.mul_add_mod]
      apply Nat.mod_eq_of_lt
      change _ < 2 ^ 52
      omega
    rw [convert_quiet hp, convert, if_neg (by omega), if_neg (by omega), hfrac]
    change _ + ((payload ||| 2 ^ 22) * 2 ^ 29 * 2 ^ 23 / 2 ^ 52 ||| 2 ^ 22) = _
    rw [show (payload ||| 2 ^ 22) * 2 ^ 29 * 2 ^ 23 / 2 ^ 52 = payload ||| 2 ^ 22 by omega,
      Nat.or_assoc, Nat.or_self]

/-! ### Signs -/

lemma convert_single_lt {m : Nat} (h : IsQuiet m) : m < Format.single.signBit := by
  rcases h with h | ⟨payload, hp, rfl⟩
  · exact h.trans_lt (by decide)
  · have hq := quiet_payload_lt hp
    change 255 * 2 ^ 23 + _ < 2 ^ 31
    omega

lemma convert_double_lt {m : Nat} (h : IsQuiet m) :
    convert .single .double m < Format.double.signBit := by
  rcases h with h | ⟨payload, hp, rfl⟩
  · rcases Nat.lt_or_eq_of_le h with hlt | rfl
    · rw [convert_of_lt hlt]
      exact (ofUnits_double_lt (units_single_lt hlt)).trans (by decide)
    · decide
  · have hq := quiet_payload_lt hp
    rw [convert_quiet hp]
    change 2047 * 2 ^ 52 + _ < 2 ^ 63
    omega

lemma magnitude_ofMagnitude (negative : Bool) {m : Nat} (h : m < Format.double.signBit) :
    (ofMagnitude negative m).magnitude = m := by
  have hbit : Format.double.signBit = 2 ^ 63 := rfl
  rw [hbit] at h
  cases negative <;> simp [ofMagnitude, magnitude, hbit] <;> omega

lemma isNegative_ofMagnitude (negative : Bool) {m : Nat} (h : m < Format.double.signBit) :
    (ofMagnitude negative m).isNegative = negative := by
  have hbit : Format.double.signBit = 2 ^ 63 := rfl
  rw [hbit] at h
  cases negative <;> simp [ofMagnitude, isNegative, hbit] <;> omega

/-- Sign and magnitude of 32 bits, put together. -/
lemma ofSingle_ofNat (negative : Bool) {m : Nat} (h : IsQuiet m) :
    ofSingle (UInt32.ofNat (m + if negative then Format.single.signBit else 0)) =
      ofMagnitude negative (convert .single .double m) := by
  have hlt := convert_single_lt h
  have hbit : Format.single.signBit = 2 ^ 31 := rfl
  rw [hbit] at hlt
  have hnat : (UInt32.ofNat (m + if negative then 2 ^ 31 else 0)).toNat =
      m + if negative then 2 ^ 31 else 0 := by
    rw [UInt32.toNat_ofNat']
    cases negative <;> simp <;> omega
  rw [hbit, ofSingle, hbit, hnat]
  cases negative
  · simp only [Bool.false_eq_true, if_false, Nat.add_zero, Nat.mod_eq_of_lt hlt,
      Nat.not_le.mpr hlt, decide_false]
  · simp only [if_true, Nat.add_mod_right, Nat.mod_eq_of_lt hlt, Nat.le_add_left, decide_true]

/-- A 32-bit number that is not quiet is read like the quiet one with its fraction. -/
lemma convert_or_quiet {payload : Nat} (hpos : 0 < payload) (h : payload < 2 ^ 23) :
    convert .single .double (Format.single.infinity + payload) =
      convert .single .double (Format.single.infinity + (payload ||| 2 ^ 22)) := by
  have hfrac : Format.single.fractionField (Format.single.infinity + payload) = payload := by
    rw [Format.fractionField, Format.infinity, Nat.mul_comm, Nat.mul_add_mod]
    exact Nat.mod_eq_of_lt h
  have hwide : payload * 2 ^ 52 / 2 ^ 23 = payload * 2 ^ 29 := by omega
  have hbit : (2 : Nat) ^ 51 = 2 ^ 22 * 2 ^ 29 := by decide
  rw [convert_quiet h, convert, if_neg (by omega), if_neg (by omega), hfrac]
  change _ + (payload * 2 ^ 52 / 2 ^ 23 ||| 2 ^ 51) = _
  rw [hwide, hbit, ← Nat.shiftLeft_eq, ← Nat.shiftLeft_eq, ← Nat.shiftLeft_eq,
    Nat.shiftLeft_or_distrib]

/-- The magnitude of every 32-bit number is read like a quiet one. -/
lemma exists_isQuiet {m : Nat} (h : m < Format.single.signBit) :
    ∃ q, IsQuiet q ∧ convert .single .double m = convert .single .double q := by
  by_cases hle : m ≤ Format.single.infinity
  · exact ⟨m, Or.inl hle, rfl⟩
  · obtain ⟨payload, rfl⟩ := Nat.exists_eq_add_of_lt (Nat.not_le.mp hle)
    have hbit : Format.single.signBit = Format.single.infinity + 2 ^ 23 := by decide
    have hpayload : payload + 1 < 2 ^ 23 := by omega
    exact ⟨_, Or.inr ⟨payload + 1, hpayload, rfl⟩,
      convert_or_quiet (Nat.succ_pos payload) hpayload⟩

/-- A 32-bit number is one that 32 bits can hold. -/
theorem roundToSingle_ofSingle (bits : UInt32) : (ofSingle bits).roundToSingle = ofSingle bits := by
  have hsign : bits.toNat % Format.single.signBit < Format.single.signBit :=
    Nat.mod_lt _ (by decide)
  obtain ⟨q, hq, hconvert⟩ := exists_isQuiet hsign
  have hlt := convert_double_lt hq
  rw [ofSingle, hconvert, roundToSingle, toSingle, magnitude_ofMagnitude _ hlt,
    isNegative_ofMagnitude _ hlt, convert_convert hq, ofSingle_ofNat _ hq]

/-- What 32 bits can hold is what it was after rounding once. -/
theorem roundToSingle_idempotent (x : Decimal) :
    x.roundToSingle.roundToSingle = x.roundToSingle :=
  roundToSingle_ofSingle x.toSingle

@[simp] lemma roundToSingle_zero : Decimal.zero.roundToSingle = .zero := by decide +kernel

end RecordStore.Decimal
