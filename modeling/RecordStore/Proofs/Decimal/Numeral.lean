import Mathlib
import RecordStore.Proofs.Decimal.Grammar
import RecordStore.Proofs.Decimal.Rounding

/-!
# Numerals and the grammar

Each part of a numeral is read from the front of a text exactly if the text starts with such a part
and the part cannot go on. Put together, `Numeral.parse?` reads the texts that the grammar spells,
and no others, into the sign and the digits that stand there.
-/

namespace RecordStore.Numeral

open Grammar

/-- The value of a digit. -/
def digitValue (c : Char) : Nat := c.toNat - '0'.toNat

variable {text rest : List Char}

/-! ### Signs -/

lemma sign_append {a : List Char} (ha : IsSign a)
    (hrest : Stops (fun c => c = '+' ∨ c = '-') rest) :
    sign (a ++ rest) = (decide (a = ['-']), rest) := by
  rcases ha with rfl | rfl | rfl
  · cases rest with
    | nil => rfl
    | cons c rest =>
      simp only [stops_cons, not_or] at hrest
      rw [List.nil_append, sign]
      · simp
      · rintro _ ⟨⟩
        exact hrest.2 rfl
      · rintro _ ⟨⟩
        exact hrest.1 rfl
  · rfl
  · rfl

lemma exists_of_sign {negative : Bool} (h : sign text = (negative, rest)) :
    ∃ a, IsSign a ∧ text = a ++ rest := by
  unfold sign at h
  split at h <;> obtain ⟨-, rfl⟩ := Prod.mk.inj h
  · exact ⟨['-'], .inr (.inr rfl), rfl⟩
  · exact ⟨['+'], .inr (.inl rfl), rfl⟩
  · exact ⟨[], .inl rfl, rfl⟩

/-! ### Digits -/

lemma digits?_append {b : List Char} (hb : IsRun b) (hrest : Stops (·.isDigit) rest) :
    digits? (b ++ rest) = some (b.map digitValue, rest) := by
  have hspan : (b ++ rest).span Char.isDigit = (b, rest) := by
    rw [List.span_eq_takeWhile_dropWhile, List.takeWhile_append_of_pos hb.2,
      List.dropWhile_append_of_pos hb.2]
    cases rest with
    | nil => simp
    | cons c rest => simp [stops_cons.mp hrest]
  obtain ⟨c, b, rfl⟩ := List.exists_cons_of_ne_nil hb.1
  rw [digits?, hspan]
  rfl

lemma exists_of_digits? {run : List Nat} (h : digits? text = some (run, rest)) :
    ∃ b, IsRun b ∧ text = b ++ rest := by
  unfold digits? at h
  split at h
  · cases h
  · rename_i b rest' hne hspan
    rw [List.span_eq_takeWhile_dropWhile, Prod.mk.injEq] at hspan
    obtain ⟨-, rfl⟩ := Prod.mk.inj (Option.some.inj h)
    obtain ⟨rfl, rfl⟩ := hspan
    refine ⟨_, ⟨hne, fun c hc => List.mem_takeWhile_imp hc⟩, ?_⟩
    rw [List.takeWhile_append_dropWhile]

/-! ### Fractions and exponents -/

lemma fraction?_append {f : List Char} (hf : IsOptional Grammar.fraction f)
    (hpoint : Stops (· = '.') rest) (hdigit : Stops (·.isDigit) rest) :
    ∃ part, fraction? (f ++ rest) = some (part, rest) ∧ (part.isNone ↔ f = []) := by
  rcases hf with rfl | hf
  · refine ⟨none, ?_, by simp⟩
    rw [List.nil_append, fraction?]
    rintro _ rfl
    exact stops_cons.mp hpoint rfl
  · obtain ⟨b, hb, rfl⟩ := mem_fraction.mp hf
    refine ⟨some (b.map digitValue), ?_, by simp⟩
    rw [List.cons_append, fraction?, digits?_append hb hdigit]
    rfl

lemma exists_of_fraction? {part : Option (List Nat)} (h : fraction? text = some (part, rest)) :
    ∃ f, IsOptional Grammar.fraction f ∧ text = f ++ rest := by
  unfold fraction? at h
  split at h
  · obtain ⟨⟨run, rest'⟩, hdigits, h⟩ := Option.bind_eq_some_iff.mp h
    obtain ⟨-, rfl⟩ := Prod.mk.inj (Option.some.inj h)
    obtain ⟨b, hb, rfl⟩ := exists_of_digits? hdigits
    exact ⟨'.' :: b, .inr (mem_fraction.mpr ⟨b, hb, rfl⟩), rfl⟩
  · obtain ⟨-, rfl⟩ := Prod.mk.inj (Option.some.inj h)
    exact ⟨[], .inl rfl, rfl⟩

lemma exponent?_of_isOptional {e : List Char} (he : IsOptional Grammar.exponent e) :
    ∃ part, exponent? e = some (part, []) ∧ (part.isNone ↔ e = []) := by
  rcases he with rfl | he
  · exact ⟨none, rfl, by simp⟩
  · obtain ⟨mark, a, b, hmark, ha, hb, rfl⟩ := mem_exponent.mp he
    refine ⟨some (decide (a = ['-']), b.map digitValue), ?_, by simp⟩
    have hsign := sign_append ha (hb.stops_sign [])
    have hdigits := digits?_append hb (stops_nil _)
    rw [List.append_nil] at hsign hdigits
    simp [exponent?, if_pos (show mark = 'e' ∨ mark = 'E' from hmark), hsign, hdigits]

lemma exists_of_exponent? {part : Option (Bool × List Nat)}
    (h : exponent? text = some (part, rest)) :
    ∃ e, IsOptional Grammar.exponent e ∧ text = e ++ rest := by
  unfold exponent? at h
  split at h
  · obtain ⟨-, rfl⟩ := Prod.mk.inj (Option.some.inj h)
    exact ⟨[], .inl rfl, rfl⟩
  · rename_i mark text
    split at h
    · rename_i hmark
      rcases hsign : sign text with ⟨negative, behind⟩
      rw [hsign] at h
      obtain ⟨⟨run, rest'⟩, hdigits, h⟩ := Option.bind_eq_some_iff.mp h
      obtain ⟨-, rfl⟩ := Prod.mk.inj (Option.some.inj h)
      obtain ⟨b, hb, rfl⟩ := exists_of_digits? hdigits
      obtain ⟨a, ha, rfl⟩ := exists_of_sign hsign
      exact ⟨mark :: (a ++ b), .inr (mem_exponent.mpr ⟨mark, a, b, hmark, ha, hb, rfl⟩), by simp⟩
    · obtain ⟨-, rfl⟩ := Prod.mk.inj (Option.some.inj h)
      exact ⟨[], .inl rfl, rfl⟩

/-! ### Numerals -/

variable {s : String} {a b f e : List Char}

/-- What the grammar spells is read, with the sign and the digits that stand there. -/
theorem parse?_of_spells (h : Spells s.toList a b f e) :
    ∃ n, parse? s = some n ∧ n.negative = decide (a = ['-']) ∧ n.whole = b.map digitValue ∧
      (n.isWhole ↔ f = [] ∧ e = []) := by
  obtain ⟨exponent, hexponent, hmissing⟩ := exponent?_of_isOptional h.isExponent
  obtain ⟨fraction, hfraction, hmissing'⟩ :=
    fraction?_append h.isFraction (stops_exponent h.isExponent fun c => IsMark.ne_point)
      (stops_exponent h.isExponent fun c => IsMark.not_isDigit)
  refine ⟨⟨decide (a = ['-']), b.map digitValue, fraction, exponent⟩, ?_, rfl, rfl, ?_⟩
  · rw [parse?, h.text_eq, sign_append h.isSign (h.isRun.stops_sign _)]
    simp [digits?_append h.isRun (stops_fraction h.isFraction h.isExponent), hfraction, hexponent]
  · rw [isWhole, Bool.and_eq_true, hmissing, hmissing']

/-- What is read as a numeral is spelled by the grammar. -/
theorem exists_spells {n : Numeral} (h : parse? s = some n) :
    ∃ a b f e, Spells s.toList a b f e := by
  rw [parse?] at h
  rcases hsign : sign s.toList with ⟨negative, text⟩
  rw [hsign] at h
  obtain ⟨⟨whole, text'⟩, hdigits, h⟩ := Option.bind_eq_some_iff.mp h
  obtain ⟨⟨fraction, text''⟩, hfraction, h⟩ := Option.bind_eq_some_iff.mp h
  obtain ⟨⟨exponent, rest⟩, hexponent, hend⟩ := Option.bind_eq_some_iff.mp h
  obtain ⟨a, ha, hs⟩ := exists_of_sign hsign
  obtain ⟨b, hb, rfl⟩ := exists_of_digits? hdigits
  obtain ⟨f, hf, rfl⟩ := exists_of_fraction? hfraction
  obtain ⟨e, he, rfl⟩ := exists_of_exponent? hexponent
  -- nothing is left behind the exponent
  have hrest : rest = [] := by
    cases rest with
    | nil => rfl
    | cons c rest => cases hend
  rw [hrest, List.append_nil] at hs
  exact ⟨a, b, f, e, ha, hb, hf, he, hs⟩

/-! ### Whole numbers -/

lemma value_map_digitValue (b : List Char) :
    value (b.map digitValue) = Nat.ofDigitChars 10 b 0 := by
  rw [value, List.foldl_map, Nat.ofDigitChars_eq_foldl]
  rfl

/-- A sign and digits are read as the integer that they denote. -/
lemma toInt_of_spells {n : Numeral} (h : Spells s.toList a b f e) (hn : parse? s = some n) :
    n.toInt = meaning a b := by
  obtain ⟨n', hn', hnegative, hwhole, -⟩ := parse?_of_spells h
  obtain rfl := Option.some.inj (hn.symm.trans hn')
  rw [toInt, hnegative, hwhole, value_map_digitValue, meaning]
  simp

/-! ### Whole numbers as decimals -/

lemma foldl_digits (n : Nat) (ds : List Nat) :
    ds.foldl (fun n d => 10 * n + d) n = n * 10 ^ ds.length + value ds := by
  induction ds generalizing n with
  | nil => simp [value]
  | cons d ds ih =>
    rw [value, List.foldl_cons, List.foldl_cons, ih, ih (10 * 0 + d), List.length_cons]
    ring

lemma value_cons (d : Nat) (ds : List Nat) : value (d :: ds) = d * 10 ^ ds.length + value ds := by
  rw [value, List.foldl_cons, foldl_digits]
  simp

lemma value_dropWhile (ds : List Nat) : value (ds.dropWhile (· = 0)) = value ds := by
  induction ds with
  | nil => rfl
  | cons d ds ih =>
    by_cases hd : d = 0
    · rw [List.dropWhile_cons_of_pos (by simpa using hd), ih, value_cons, hd]
      simp
    · rw [List.dropWhile_cons_of_neg (by simpa using hd)]

/-- A number of `k + 1` digits without leading zeros is no smaller than `10 ^ k`. -/
lemma pow_le_value {ds : List Nat} {k : Nat} (h : k < (ds.dropWhile (· = 0)).length) :
    10 ^ k ≤ value ds := by
  rw [← value_dropWhile]
  cases hds : ds.dropWhile (· = 0) with
  | nil => simp [hds] at h
  | cons d rest =>
    have hd : d ≠ 0 := by
      have := List.head_dropWhile_not (· = 0) (l := ds) (by simp [hds])
      simpa [hds] using this
    rw [hds, List.length_cons] at h
    calc 10 ^ k ≤ 10 ^ rest.length := Nat.pow_le_pow_right (by decide) (by omega)
      _ ≤ d * 10 ^ rest.length := Nat.le_mul_of_pos_left _ (Nat.pos_of_ne_zero hd)
      _ ≤ value (d :: rest) := by rw [value_cons]; exact Nat.le_add_right _ _

/-- Whole numbers of more than 309 digits are beyond the largest decimal. -/
lemma round_eq_infinity {n : Nat} (h : 10 ^ (309 : Nat) ≤ n) :
    Decimal.Format.double.round n 1 = Decimal.Format.double.infinity := by
  have hpow : 2 ^ (1025 : Nat) ≤ n := le_trans (by decide +kernel) h
  have hpos : n ≠ 0 := (lt_of_lt_of_le (Nat.two_pow_pos 1025) hpow).ne'
  have hlog : 1025 ≤ n.log2 := (Nat.le_log2 hpos).mpr hpow
  have hshift : 2047 ≤ (n * 2 ^ Decimal.Format.double.places / 1).log2 - 52 := by
    rw [Nat.div_one, Decimal.log2_mul_pow hpos]
    change 2047 ≤ n.log2 + 1074 - 52
    omega
  rw [Decimal.Format.round]
  refine Nat.min_eq_left (le_trans ?_ (Nat.le_add_right _ _))
  exact Nat.mul_le_mul_right _ hshift

/-- A whole numeral is read as the decimal nearest to its value, however long it is. -/
theorem toDecimal_of_isWhole {n : Numeral} (h : n.isWhole) :
    n.toDecimal = .ofRatio n.negative (value n.whole) 1 := by
  obtain ⟨negative, whole, fraction, exponent⟩ := n
  obtain ⟨rfl, rfl⟩ : fraction = none ∧ exponent = none := by simpa [isWhole] using h
  set significant := whole.dropWhile (· = 0) with hsignificant
  have hvalue : value significant = value whole := value_dropWhile whole
  have hdecimal : toDecimal ⟨negative, whole, none, none⟩ =
      if significant = [] then .ofMagnitude negative 0
      else if 310 ≤ significant.length then .ofMagnitude negative Decimal.Format.double.infinity
      else .ofRatio negative (value significant) 1 := by
    rw [toDecimal]
    have hpoint : ¬ (significant.length : Int) < -324 := by omega
    simp only [Option.getD_none, List.append_nil, List.length_nil, scale, ← hsignificant]
    simp [hpoint]
  rw [hdecimal]
  split_ifs with hempty hlong
  · rw [hempty] at hvalue
    have hzero : Decimal.Format.double.round 0 1 = 0 := by
      simp [Decimal.Format.round, Decimal.roundDiv]
    rw [← hvalue, Decimal.ofRatio, value, List.foldl_nil, hzero]
  · rw [Decimal.ofRatio, round_eq_infinity (pow_le_value (k := 309) hlong)]
  · rw [hvalue]

end RecordStore.Numeral
