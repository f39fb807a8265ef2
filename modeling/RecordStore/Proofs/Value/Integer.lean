import Mathlib
import RecordStore.Proofs.Value.Literal
import RecordStore.Proofs.Value.Made
import RecordStore.Value.Conversion
import RecordStore.Value.Text

/-!
# Integers in text

A text of a sign and digits is read as the integer that it denotes, however many digits there are:
under the signed type of 64 bits, else under the unsigned one, else as the nearest decimal. Printing
an integer value and reading the text again gives its integer back.
-/

namespace RecordStore

open Grammar

/-! ### Integers as text -/

lemma Grammar.mem_integer_iff_denotes {text : List Char} :
    text ∈ integer.matches' ↔ ∃ n, Denotes text n := by
  rw [mem_integer]
  constructor
  · rintro ⟨a, b, ha, hb, htext⟩
    exact ⟨meaning a b, a, b, ha, hb, htext, rfl⟩
  · rintro ⟨n, a, b, ha, hb, htext, -⟩
    exact ⟨a, b, ha, hb, htext⟩

lemma Grammar.isRun_toDigits (n : Nat) : IsRun (Nat.toDigits 10 n) :=
  ⟨Nat.toDigits_ne_nil, fun _ hc => Nat.isDigit_of_mem_toDigits (by decide) (by decide) hc⟩

/-- The text of an integer denotes it. -/
lemma Grammar.denotes_toString (n : Int) : Denotes (toString n).toList n := by
  cases n with
  | ofNat m =>
    refine ⟨[], Nat.toDigits 10 m, .inl rfl, isRun_toDigits m, ?_, ?_⟩
    · change m.repr.toList = _
      rw [Nat.repr_eq_ofList_toDigits, String.toList_ofList, List.nil_append]
    · simp [meaning]
  | negSucc m =>
    refine ⟨['-'], Nat.toDigits 10 (m + 1), .inr (.inr rfl), isRun_toDigits (m + 1), ?_, ?_⟩
    · change ("-" ++ (m + 1).repr).toList = _
      rw [String.toList_append, Nat.repr_eq_ofList_toDigits, String.toList_ofList]
      simp
    · rw [meaning, if_pos rfl, Nat.ofDigitChars_ten_toDigits]
      rfl

/-! ### Reading -/

namespace Value

lemma fits_signed_iff {n : Int} : Literal.fits true n ↔ -2 ^ 63 ≤ n ∧ n < 2 ^ 63 := by
  simp only [Literal.fits, Bool.and_eq_true, decide_eq_true_eq]
  change -2 ^ 63 ≤ n ∧ n ≤ 2 ^ 63 - 1 ↔ _
  omega

lemma fits_unsigned_iff {n : Int} : Literal.fits false n ↔ 0 ≤ n ∧ n < 2 ^ 64 := by
  simp only [Literal.fits, Bool.and_eq_true, decide_eq_true_eq]
  change 0 ≤ n ∧ n ≤ 2 ^ 64 - 1 ↔ _
  omega

/-- An integer text is read under the first type of 64 bits that holds what it denotes, and as the
nearest decimal if none does. -/
lemma read_of_denotes {s : String} {n : Int} (h : Denotes s.toList n) :
    read s =
      if -2 ^ 63 ≤ n ∧ n < 2 ^ 63 then .integer .bits64 true n
      else if 2 ^ 63 ≤ n ∧ n < 2 ^ 64 then .integer .bits64 false n
      else .decimal .bits64 (.ofRatio (n < 0) n.natAbs 1) := by
  obtain ⟨a, b, ha, hb, htext, hn⟩ := h
  have hspells : Spells s.toList a b [] [] := ⟨ha, hb, .inl rfl, .inl rfl, by simpa using htext⟩
  obtain ⟨numeral, hnumeral, hint, hdecimal⟩ := Literal.ofText_of_spells hspells
  rw [read, hnumeral, Literal.value, hint, ← hn]
  simp only [fits_signed_iff, fits_unsigned_iff]
  split_ifs with hsigned hunsigned hunsigned' hunsigned'
  · rfl
  · rfl
  · omega
  · omega
  · -- out of both ranges the integer is not zero, so its sign is the sign in the text
    have hsign : a = ['-'] ↔ n < 0 := by
      constructor
      · intro hminus
        have hle : n ≤ 0 := by
          rw [hn, meaning, if_pos hminus]
          omega
        omega
      · intro hneg
        by_contra hplus
        rw [hn, meaning, if_neg hplus] at hneg
        omega
    have habs : n.natAbs = Nat.ofDigitChars 10 b 0 := by
      rw [hn, meaning]
      split_ifs <;> simp
    simp only [hdecimal, habs, hsign]

/-- Every integer of a type is in one of the two ranges of 64 bits. -/
lemma range_of_proper {w : Width} {flags : Flags} {n : Int} (h : (integer w flags n).Proper) :
    -2 ^ 63 ≤ n ∧ n < 2 ^ 64 := by
  have hleast : -2 ^ 63 ≤ w.least flags.signed := by
    cases w <;> cases flags.signed <;> decide
  have hgreatest : w.greatest flags.signed < 2 ^ 64 := by
    cases w <;> cases flags.signed <;> decide
  exact ⟨hleast.trans h.1, h.2.trans_lt hgreatest⟩

/-- Printing and reading keep the integer. -/
lemma read_text {w : Width} {flags : Flags} {n : Int} (h : (integer w flags n).Proper) :
    ∃ signed : Bool, read (integer w flags n).text = .integer .bits64 signed n := by
  have hrange := range_of_proper h
  have hread : read (integer w flags n).text = _ := read_of_denotes (denotes_toString n)
  rw [hread]
  split_ifs with hsigned hunsigned
  · exact ⟨true, rfl⟩
  · exact ⟨false, rfl⟩
  · omega

/-- Every text of the form `[+-]?[0-9]+` denotes an integer and is read as it, and every integer
value is read back from its text. -/
theorem integers_in_text :
    (∀ s : String, s.toList ∈ Grammar.integer.matches' ↔ ∃ n, Denotes s.toList n) ∧
    (∀ (s : String) (n : Int), Denotes s.toList n →
      read s =
        if -2 ^ 63 ≤ n ∧ n < 2 ^ 63 then .integer .bits64 true n
        else if 2 ^ 63 ≤ n ∧ n < 2 ^ 64 then .integer .bits64 false n
        else .decimal .bits64 (.ofRatio (n < 0) n.natAbs 1)) ∧
    ∀ v : Value, v.Made → v.type.kind = .integer →
      (read v.text).type.kind = .integer ∧ (read v.text).toInt = v.toInt ∧
        (read v.text).equals v ∧ v.equals (read v.text) := by
  refine ⟨fun s => mem_integer_iff_denotes, fun s n => read_of_denotes, fun v hv hkind => ?_⟩
  cases v with
  | integer w flags n =>
    obtain ⟨signed, hread⟩ := read_text hv.proper
    rw [hread]
    exact ⟨rfl, rfl, by simp [equals], by simp [equals]⟩
  | null | dynamic | decimal | objectId | string => cases hkind

/-- The least signed integer behind a minus and zeros, the first integer beyond the unsigned ones
behind a plus, and the greatest unsigned integer as a value. -/
theorem integers_in_text_at_the_limits :
    (Denotes "-0009223372036854775808".toList (-2 ^ 63) ∧
      read "-0009223372036854775808" = .integer .bits64 true (-2 ^ 63)) ∧
    (Denotes "+18446744073709551616".toList (2 ^ 64) ∧
      read "+18446744073709551616" = .decimal .bits64 (.ofRatio false (2 ^ 64) 1)) ∧
    (integer .bits64 false (2 ^ 64 - 1)).Made ∧
      (read (integer .bits64 false (2 ^ 64 - 1)).text).toInt = 2 ^ 64 - 1 := by
  have hleast : Denotes "-0009223372036854775808".toList (-2 ^ 63) :=
    ⟨['-'], "0009223372036854775808".toList, .inr (.inr rfl),
      ⟨by decide, List.all_eq_true.mp rfl⟩, rfl, by decide⟩
  have hbeyond : Denotes "+18446744073709551616".toList (2 ^ 64) :=
    ⟨['+'], "18446744073709551616".toList, .inr (.inl rfl),
      ⟨by decide, List.all_eq_true.mp rfl⟩, rfl, by decide⟩
  have hmade : (integer .bits64 false (2 ^ 64 - 1)).Made := made_of_proper (by decide)
  exact ⟨⟨hleast, integers_in_text.2.1 _ _ hleast⟩, ⟨hbeyond, integers_in_text.2.1 _ _ hbeyond⟩,
    hmade, (integers_in_text.2.2 _ hmade rfl).2.1⟩

end Value

end RecordStore
