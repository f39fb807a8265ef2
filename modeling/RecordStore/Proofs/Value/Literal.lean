import Mathlib
import RecordStore.Proofs.Value.Scan

/-!
# Untyped texts

An untyped text is an integer, a decimal or `null` exactly if the grammar says so, and a string in
all other cases. The scan of its bytes and the numeral that is read from it agree on this, and the
text is read under the very type that is inferred for it.
-/

namespace RecordStore

open Grammar

variable {s : String} {a b f e : List Char}

/-! ### Shapes -/

lemma ne_null_of_spells (h : Spells s.toList a b f e) : s ≠ "null" := by
  rintro rfl
  have hstop : Stops (· = 'n') "null".toList := h.stops_letter (by rintro _ h rfl; revert h; decide)
  exact stops_cons.mp hstop rfl

lemma Shape.ofText_of_spells (h : Spells s.toList a b f e) :
    ofText s = if f = [] ∧ e = [] then .integer else .decimal := by
  obtain ⟨scan, hreads, hrun, hpoint, hexponent⟩ := Scan.Reads.of_spells h
  rw [ofText, if_neg (ne_null_of_spells h), Scan.steps_eq_some_iff.mpr hreads]
  simp only [Scan.shape, if_neg hrun, ← hpoint, ← hexponent]
  cases scan.point <;> cases scan.exponent <;> simp

lemma Shape.exists_spells (h : ofText s = .integer ∨ ofText s = .decimal) :
    ∃ a b f e, Spells s.toList a b f e := by
  rw [ofText] at h
  split at h
  · simp at h
  · split at h
    · rename_i scan hscan
      have hrun : scan.run ≠ 0 := by
        intro hzero
        simp [Scan.shape, hzero] at h
      obtain ⟨a, b, f, e, hspells, -, -⟩ := (Scan.steps_eq_some_iff.mp hscan).spells hrun
      exact ⟨a, b, f, e, hspells⟩
    · simp at h

theorem Shape.ofText_eq_integer_iff :
    ofText s = .integer ↔ s.toList ∈ Grammar.integer.matches' := by
  rw [mem_integer_iff]
  constructor
  · intro h
    obtain ⟨a, b, f, e, hspells⟩ := exists_spells (.inl h)
    rw [ofText_of_spells hspells] at h
    split at h
    · rename_i hnil
      obtain ⟨rfl, rfl⟩ := hnil
      exact ⟨a, b, hspells⟩
    · cases h
  · rintro ⟨a, b, h⟩
    rw [ofText_of_spells h, if_pos ⟨rfl, rfl⟩]

theorem Shape.ofText_eq_decimal_iff :
    ofText s = .decimal ↔ s.toList ∈ Grammar.decimal.matches' := by
  rw [mem_decimal_iff]
  constructor
  · intro h
    obtain ⟨a, b, f, e, hspells⟩ := exists_spells (.inr h)
    rw [ofText_of_spells hspells] at h
    split at h
    · cases h
    · rename_i hne
      exact ⟨a, b, f, e, hspells, not_and_or.mp hne⟩
  · rintro ⟨a, b, f, e, h, hne⟩
    rw [ofText_of_spells h, if_neg (not_and_or.mpr hne)]

lemma Shape.ofText_eq_null_iff : ofText s = .null ↔ s = "null" := by
  rw [ofText]
  split
  · simp [*]
  · rename_i hne
    simp only [hne, iff_false]
    split
    · rw [Scan.shape]
      split_ifs <;> simp
    · simp

/-! ### Literals -/

/-- The shape of a text that was read. -/
def Literal.shape : Literal → Shape
  | .null => .null
  | .whole _ => .integer
  | .fractional _ => .decimal
  | .text _ => .text

/-- The scan and the reading of a numeral agree on what a text is. -/
theorem Literal.shape_ofText (s : String) : (ofText s).shape = Shape.ofText s := by
  by_cases hnull : s = "null"
  · rw [Shape.ofText_eq_null_iff.mpr hnull, ofText, if_pos hnull]
    rfl
  · cases hparse : Numeral.parse? s with
    | some n =>
      obtain ⟨a, b, f, e, h⟩ := Numeral.exists_spells hparse
      obtain ⟨n', hn', -, -, hwhole⟩ := Numeral.parse?_of_spells h
      obtain rfl := Option.some.inj (hparse.symm.trans hn')
      simp only [ofText, if_neg hnull, hparse, Shape.ofText_of_spells h, ← hwhole]
      split <;> rfl
    | none =>
      have hnone : ¬ ∃ a b f e, Spells s.toList a b f e := by
        rintro ⟨a, b, f, e, h⟩
        obtain ⟨n, hn, -⟩ := Numeral.parse?_of_spells h
        rw [hparse] at hn
        cases hn
      simp only [ofText, if_neg hnull, hparse, shape]
      cases hshape : Shape.ofText s with
      | null => exact absurd (Shape.ofText_eq_null_iff.mp hshape) hnull
      | integer => exact absurd (Shape.exists_spells (.inl hshape)) hnone
      | decimal => exact absurd (Shape.exists_spells (.inr hshape)) hnone
      | text => rfl

/-! ### Two passes -/

namespace Literal

lemma integer?_of_spells (h : Spells s.toList a b [] []) (signed : Bool) :
    integer? signed s =
      if a = ['-'] ∧ signed = false then none
      else if fits signed (meaning a b) then some (meaning a b) else none := by
  have hsign := Numeral.sign_append h.isSign (h.isRun.stops_sign [])
  have htext : s.toList = a ++ (b ++ []) := by simpa using h.text_eq
  have hdigits : b.all Char.isDigit := List.all_eq_true.mpr h.isRun.2
  have hnonempty : b.isEmpty = false := List.isEmpty_eq_false_iff.mpr h.isRun.1
  rw [integer?, htext, hsign]
  by_cases hminus : a = ['-'] <;> simp [hdigits, hnonempty, hminus, meaning]

lemma integer?_signed (h : Spells s.toList a b [] []) :
    integer? true s = if fits true (meaning a b) then some (meaning a b) else none := by
  simp [integer?_of_spells h]

/-- A text with a minus is no unsigned integer, and if it is no signed one either, then the integer
that it denotes is negative. -/
lemma integer?_unsigned (h : Spells s.toList a b [] []) (hfits : ¬ fits true (meaning a b)) :
    integer? false s = if fits false (meaning a b) then some (meaning a b) else none := by
  rw [integer?_of_spells h]
  split
  · rename_i hminus
    rw [if_neg]
    intro hfits'
    have hle : meaning a b ≤ 0 := by
      rw [meaning, if_pos hminus.1]
      omega
    have hzero : meaning a b = 0 := by
      simp only [fits, Bool.and_eq_true, decide_eq_true_eq] at hfits'
      exact le_antisymm hle hfits'.1
    rw [hzero] at hfits
    exact hfits (by decide)
  · rfl

/-- A sign and digits are read as a whole numeral of the integer that they denote. -/
lemma ofText_of_spells (h : Spells s.toList a b [] []) :
    ∃ n : Numeral, ofText s = .whole n ∧ n.toInt = meaning a b ∧
      n.toDecimal = .ofRatio (a = ['-']) (Nat.ofDigitChars 10 b 0) 1 := by
  obtain ⟨n, hn, hnegative, hwhole, hshape⟩ := Numeral.parse?_of_spells h
  have hisWhole : n.isWhole := hshape.mpr ⟨rfl, rfl⟩
  refine ⟨n, ?_, Numeral.toInt_of_spells h hn, ?_⟩
  · rw [ofText, if_neg (ne_null_of_spells h), hn]
    exact if_pos hisWhole
  · rw [Numeral.toDecimal_of_isWhole hisWhole, hnegative, hwhole, Numeral.value_map_digitValue]

end Literal

/-- A whole numeral was spelled by a sign and digits. -/
lemma Literal.exists_spells {n : Numeral} (h : ofText s = .whole n) :
    ∃ a b, Spells s.toList a b [] [] ∧ n.toInt = meaning a b := by
  have hshape := shape_ofText s
  rw [h] at hshape
  obtain ⟨a, b, hspells⟩ := mem_integer_iff.mp (Shape.ofText_eq_integer_iff.mp hshape.symm)
  obtain ⟨n', hn', hmeaning, -⟩ := ofText_of_spells hspells
  obtain rfl := Literal.whole.inj (h.symm.trans hn')
  exact ⟨a, b, hspells, hmeaning⟩

lemma Literal.eq_of_ofText {text : String} (h : ofText s = .text text) : text = s := by
  rw [ofText] at h
  split at h
  · cases h
  · split at h
    · exact (Literal.text.inj h).symm
    · split at h <;> cases h

/-- The first pass gives the type that is inferred. -/
theorem Shape.type_ofText (s : String) : (ofText s).type s = ValueType.infer s := by
  have hshape := Literal.shape_ofText s
  rw [ValueType.infer]
  cases hliteral : Literal.ofText s with
  | null | fractional n =>
    rw [hliteral] at hshape
    rw [← hshape]
    rfl
  | text text =>
    rw [hliteral] at hshape
    rw [← hshape, Literal.eq_of_ofText hliteral]
    rfl
  | whole n =>
    obtain ⟨a, b, h, hmeaning⟩ := Literal.exists_spells hliteral
    rw [hliteral] at hshape
    rw [← hshape, Literal.shape, Literal.type, hmeaning, type, Literal.integer?_signed h]
    by_cases hfits : Literal.fits true (meaning a b)
    · simp [hfits]
    · rw [Literal.integer?_unsigned h hfits]
      by_cases hfits' : Literal.fits false (meaning a b) <;> simp [hfits, hfits']

/-! ### The second pass -/

/-- A reader of decimals that takes every number of the grammar. -/
def TakesNumbers (decimal? : String → Option Decimal) : Prop :=
  ∀ text : String, text.toList ∈ Grammar.integer.matches' ∨ text.toList ∈ Grammar.decimal.matches' →
    (decimal? text).isSome

lemma Literal.type_value (l : Literal) : l.value.type = l.type := by
  cases l with
  | null | fractional n => rfl
  | whole n =>
    rw [value, type]
    split_ifs <;> rfl
  | text text => rw [value, type, Value.ofBytes, Value.type_ofBytesIn, Utf8.length_encode]

theorem Value.type_read (s : String) : (read s).type = ValueType.infer s := Literal.type_value _

/-- The second pass finds a value under the inferred type: the value of the text, but a decimal is
what `decimal?` takes it for. -/
lemma Value.readAs_infer {decimal? : String → Option Decimal} (htakes : TakesNumbers decimal?)
    (s : String) :
    readAs decimal? (ValueType.infer s) s = read s ∨
      ∃ x y, decimal? s = some x ∧ readAs decimal? (ValueType.infer s) s = .decimal .bits64 x ∧
        read s = .decimal .bits64 y := by
  have hshape := Literal.shape_ofText s
  rw [ValueType.infer, read]
  cases hliteral : Literal.ofText s with
  | null => exact .inl rfl
  | text text =>
    rw [Literal.eq_of_ofText hliteral, Literal.type, Literal.value, ofBytes, Utf8.length_encode]
    exact .inl rfl
  | fractional n =>
    rw [hliteral] at hshape
    obtain ⟨x, hx⟩ := Option.isSome_iff_exists.mp
      (htakes s (.inr (Shape.ofText_eq_decimal_iff.mp hshape.symm)))
    refine .inr ⟨x, n.toDecimal, hx, ?_, rfl⟩
    simp [Literal.type, readAs, hx]
  | whole n =>
    obtain ⟨a, b, h, hmeaning⟩ := Literal.exists_spells hliteral
    rw [Literal.type, Literal.value, hmeaning]
    by_cases hfits : Literal.fits true (meaning a b)
    · left
      simp [readAs, Literal.integer?_signed h, hfits]
    · by_cases hfits' : Literal.fits false (meaning a b)
      · left
        simp [readAs, Literal.integer?_unsigned h hfits, hfits, hfits']
      · right
        obtain ⟨x, hx⟩ :=
          Option.isSome_iff_exists.mp (htakes s (.inl (mem_integer_iff.mpr ⟨a, b, h⟩)))
        refine ⟨x, n.toDecimal, hx, ?_, ?_⟩ <;> simp [readAs, hfits, hfits', hx]

/-! ### The smallest width -/

lemma Width.le_maxLength_fitting {n : Nat} (h : n < 2 ^ 32) : n ≤ (fitting n).maxLength := by
  rw [fitting]
  split_ifs with h8 h16
  · exact h8
  · exact h16
  · exact Nat.le_sub_one_of_lt h

lemma Width.code_fitting_le {n : Nat} {w : Width} (h : n ≤ w.maxLength) :
    (fitting n).code ≤ w.code := by
  rw [fitting]
  split_ifs with h8 h16
  · exact Nat.zero_le _
  · cases w with
    | bits8 => exact absurd h h8
    | bits16 | bits32 | bits64 => decide
  · cases w with
    | bits8 => exact absurd h h8
    | bits16 => exact absurd h h16
    | bits32 | bits64 => decide

/-! ### Classification -/

/-- How an untyped text is classified and read, with `decimal?` to read decimals in the second
pass. -/
structure Classified (decimal? : String → Option Decimal) (s : String) : Prop where
  null : (ValueType.infer s).isNull ↔ s = "null"
  integer : Shape.ofText s = .integer ↔ s.toList ∈ Grammar.integer.matches'
  decimal : Shape.ofText s = .decimal ↔ s.toList ∈ Grammar.decimal.matches'
  /-- The numeral that is read from the text is of the shape that was scanned. -/
  numeral : (Literal.ofText s).shape = Shape.ofText s
  integer_type : s.toList ∈ Grammar.integer.matches' → ValueType.infer s = .integer .bits64 true ∨
    ValueType.infer s = .integer .bits64 false ∨ ValueType.infer s = .decimal .bits64
  decimal_type : s.toList ∈ Grammar.decimal.matches' → ValueType.infer s = .decimal .bits64
  /-- All else is a string: all of the text, under the smallest width that holds its length. -/
  string : s ≠ "null" → s.toList ∉ Grammar.integer.matches' → s.toList ∉ Grammar.decimal.matches' →
    ∃ w, ValueType.infer s = .string w ∧ Value.read s = .string w (Utf8.encode s) ∧
      s.utf8ByteSize ≤ w.maxLength ∧ ∀ w' : Width, s.utf8ByteSize ≤ w'.maxLength → w.code ≤ w'.code
  type_eq : (Value.read s).type = ValueType.infer s
  first_pass : (Shape.ofText s).type s = ValueType.infer s
  /-- The second pass never falls back on null. -/
  second_pass : (Value.readAs decimal? (ValueType.infer s) s).type = ValueType.infer s
  value_eq : (ValueType.infer s).kind ≠ .decimal ∨ decimal? s = some (Value.read s).toDecimal →
    Value.readAs decimal? (ValueType.infer s) s = Value.read s

lemma Literal.isNull_type_iff (l : Literal) : l.type.isNull ↔ l.shape = .null := by
  cases l with
  | null => exact iff_of_true rfl rfl
  | fractional n | text text => simp [type, shape, ValueType.isNull, ValueType.kind]
  | whole n =>
    rw [type, shape]
    split_ifs <;> simp [ValueType.isNull, ValueType.kind]

lemma Literal.ofText_of_shape (h : Shape.ofText s = .text) : ofText s = .text s := by
  have hshape := shape_ofText s
  rw [h] at hshape
  cases hliteral : ofText s with
  | text text => rw [eq_of_ofText hliteral]
  | null | whole n | fractional n =>
    rw [hliteral] at hshape
    cases hshape

/-- The classifier accepts exactly the grammar, and both passes agree with it. -/
theorem Value.classified_by_grammar {decimal? : String → Option Decimal}
    (htakes : TakesNumbers decimal?) (s : String) (hsize : s.utf8ByteSize < 2 ^ 32) :
    Classified decimal? s where
  null := by
    rw [ValueType.infer, Literal.isNull_type_iff, Literal.shape_ofText, Shape.ofText_eq_null_iff]
  integer := Shape.ofText_eq_integer_iff
  decimal := Shape.ofText_eq_decimal_iff
  numeral := Literal.shape_ofText s
  integer_type h := by
    rw [← Shape.type_ofText, Shape.ofText_eq_integer_iff.mpr h, Shape.type]
    split_ifs <;> simp
  decimal_type h := by
    rw [← Shape.type_ofText, Shape.ofText_eq_decimal_iff.mpr h, Shape.type]
  string hnull hinteger hdecimal := by
    have htext : Shape.ofText s = .text := by
      cases hshape : Shape.ofText s with
      | null => exact absurd (Shape.ofText_eq_null_iff.mp hshape) hnull
      | integer => exact absurd (Shape.ofText_eq_integer_iff.mp hshape) hinteger
      | decimal => exact absurd (Shape.ofText_eq_decimal_iff.mp hshape) hdecimal
      | text => rfl
    have hholds := Width.le_maxLength_fitting hsize
    refine ⟨.fitting s.utf8ByteSize, ?_, ?_, hholds, fun w' => Width.code_fitting_le⟩
    · rw [ValueType.infer, Literal.ofText_of_shape htext, Literal.type]
    · rw [read, Literal.ofText_of_shape htext, Literal.value, ofBytes, Utf8.length_encode,
        ofBytesIn, List.take_of_length_le (by rw [Utf8.length_encode]; exact hholds)]
  type_eq := type_read s
  first_pass := Shape.type_ofText s
  second_pass := by
    rcases readAs_infer htakes s with heq | ⟨x, y, -, hx, hy⟩
    · rw [heq, type_read]
    · rw [hx, ← type_read, hy]
      rfl
  value_eq := by
    rintro hagree
    rcases readAs_infer htakes s with heq | ⟨x, y, hdecimal, hx, hy⟩
    · exact heq
    · rw [← type_read, hy, hdecimal] at hagree
      obtain rfl : x = y := by simpa [type, ValueType.kind, toDecimal] using hagree
      rw [hx, hy]

/-- The nearest decimal of a numeral takes every number of the grammar. -/
lemma Numeral.takesNumbers_nearest : TakesNumbers fun text => (parse? text).map toDecimal := by
  intro text h
  have hspells : ∃ a b f e, Spells text.toList a b f e := by
    rcases h with h | h
    · obtain ⟨a, b, hspells⟩ := mem_integer_iff.mp h
      exact ⟨a, b, [], [], hspells⟩
    · obtain ⟨a, b, f, e, hspells, -⟩ := mem_decimal_iff.mp h
      exact ⟨a, b, f, e, hspells⟩
  obtain ⟨a, b, f, e, hspells⟩ := hspells
  obtain ⟨n, hn, -⟩ := parse?_of_spells hspells
  simp [hn]

/-- A number with all its parts and both signs. -/
theorem Value.classified_number_with_exponent :
    TakesNumbers (fun text => (Numeral.parse? text).map Numeral.toDecimal) ∧
      "-12.5e+07".utf8ByteSize < 2 ^ 32 ∧
      Classified (fun text => (Numeral.parse? text).map Numeral.toDecimal) "-12.5e+07" ∧
      Shape.ofText "-12.5e+07" = .decimal :=
  ⟨Numeral.takesNumbers_nearest, by decide,
    classified_by_grammar Numeral.takesNumbers_nearest "-12.5e+07" (by decide), by decide⟩

-- a sign that is not right behind the mark, and a point without digits
example : Shape.ofText "1e5-2" = .text := by decide

example : Shape.ofText "5." = .text := by decide

end RecordStore
