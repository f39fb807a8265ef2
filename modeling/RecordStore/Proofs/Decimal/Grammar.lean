import Mathlib
import RecordStore.Decimal.Numeral

/-!
# The grammar of numbers

The texts that spell numbers, as regular expressions: an integer is a sign and digits, a decimal is
an integer with a fraction, an exponent or both behind it. The membership lemmas take a text apart
into its signs and runs of digits, and `Numeral.parse?` reads exactly the texts of this grammar.
-/

namespace RecordStore

namespace Grammar

open RegularExpression

/-! ### Expressions -/

/-- One of the characters. -/
def oneOf (cs : List Char) : RegularExpression Char := cs.foldr (fun c r => char c + r) 0

def digit : RegularExpression Char := oneOf ['0', '1', '2', '3', '4', '5', '6', '7', '8', '9']

def digits : RegularExpression Char := digit * digit.star

def sign : RegularExpression Char := 1 + oneOf ['+', '-']

/-- `[+-]?[0-9]+` -/
def integer : RegularExpression Char := sign * digits

/-- `[.][0-9]+` -/
def fraction : RegularExpression Char := char '.' * digits

/-- `[eE][+-]?[0-9]+` -/
def exponent : RegularExpression Char := oneOf ['e', 'E'] * integer

/-- An integer and at least one of the two parts that can follow. -/
def decimal : RegularExpression Char := integer * (fraction + exponent + fraction * exponent)

/-! ### Membership -/

/-- A sign, or none. -/
def IsSign (text : List Char) : Prop := text = [] ∨ text = ['+'] ∨ text = ['-']

/-- Digits, at least one. -/
def IsRun (text : List Char) : Prop := text ≠ [] ∧ ∀ c ∈ text, c.isDigit

/-- The mark in front of an exponent. -/
def IsMark (c : Char) : Prop := c = 'e' ∨ c = 'E'

variable {text : List Char}

lemma mem_char {c : Char} : text ∈ (char c).matches' ↔ text = [c] := Iff.rfl

lemma mem_oneOf {cs : List Char} : text ∈ (oneOf cs).matches' ↔ ∃ c ∈ cs, text = [c] := by
  induction cs with
  | nil => simp [oneOf]
  | cons c cs ih =>
    change text ∈ (char c + oneOf cs).matches' ↔ _
    rw [matches'_add, Language.mem_add, mem_char, ih]
    simp

lemma mem_sign : text ∈ sign.matches' ↔ IsSign text := by
  rw [sign, matches'_add, Language.mem_add, mem_oneOf, matches'_epsilon, Language.mem_one]
  simp [IsSign]

lemma isDigit_iff_mem {c : Char} :
    c.isDigit ↔ c ∈ ['0', '1', '2', '3', '4', '5', '6', '7', '8', '9'] := by
  constructor
  · intro h
    obtain ⟨hlow, hhigh⟩ : 48 ≤ c.toNat ∧ c.toNat ≤ 57 := by
      simpa [Char.isDigit, UInt32.le_iff_toNat_le] using h
    rw [← Char.ofNat_toNat c]
    generalize c.toNat = n at hlow hhigh
    interval_cases n <;> decide
  · intro h
    fin_cases h <;> rfl

lemma mem_digit : text ∈ digit.matches' ↔ ∃ c, c.isDigit ∧ text = [c] := by
  simp only [digit, mem_oneOf, isDigit_iff_mem]

lemma mem_star_digit : text ∈ digit.star.matches' ↔ ∀ c ∈ text, c.isDigit := by
  rw [matches'_star, Language.mem_kstar]
  constructor
  · rintro ⟨words, rfl, hwords⟩ c hc
    obtain ⟨word, hword, hmem⟩ := List.mem_flatten.mp hc
    obtain ⟨d, hd, rfl⟩ := mem_digit.mp (hwords word hword)
    exact List.mem_singleton.mp hmem ▸ hd
  · intro h
    refine ⟨text.map ([·]), by simp [← List.flatMap_def], fun word hword => ?_⟩
    obtain ⟨c, hc, rfl⟩ := List.mem_map.mp hword
    exact mem_digit.mpr ⟨c, h c hc, rfl⟩

lemma mem_digits : text ∈ digits.matches' ↔ IsRun text := by
  rw [digits, matches'_mul, Language.mem_mul]
  constructor
  · rintro ⟨first, hfirst, rest, hrest, rfl⟩
    obtain ⟨c, hc, rfl⟩ := mem_digit.mp hfirst
    exact ⟨by simp, by simpa [hc] using mem_star_digit.mp hrest⟩
  · rintro ⟨hne, hdigits⟩
    obtain ⟨c, rest, rfl⟩ := List.exists_cons_of_ne_nil hne
    rw [List.forall_mem_cons] at hdigits
    exact ⟨[c], mem_digit.mpr ⟨c, hdigits.1, rfl⟩, rest, mem_star_digit.mpr hdigits.2, rfl⟩

lemma mem_integer :
    text ∈ integer.matches' ↔ ∃ a b, IsSign a ∧ IsRun b ∧ text = a ++ b := by
  rw [integer, matches'_mul, Language.mem_mul]
  simp only [mem_sign, mem_digits]
  constructor
  · rintro ⟨a, ha, b, hb, rfl⟩
    exact ⟨a, b, ha, hb, rfl⟩
  · rintro ⟨a, b, ha, hb, rfl⟩
    exact ⟨a, ha, b, hb, rfl⟩

lemma mem_fraction : text ∈ fraction.matches' ↔ ∃ b, IsRun b ∧ text = '.' :: b := by
  rw [fraction, matches'_mul, Language.mem_mul]
  simp only [mem_char, mem_digits]
  constructor
  · rintro ⟨point, rfl, b, hb, rfl⟩
    exact ⟨b, hb, rfl⟩
  · rintro ⟨b, hb, rfl⟩
    exact ⟨['.'], rfl, b, hb, rfl⟩

lemma mem_exponent : text ∈ exponent.matches' ↔
    ∃ mark a b, IsMark mark ∧ IsSign a ∧ IsRun b ∧ text = mark :: (a ++ b) := by
  rw [exponent, matches'_mul, Language.mem_mul]
  simp only [mem_oneOf, mem_integer]
  constructor
  · rintro ⟨_, ⟨mark, hmark, rfl⟩, _, ⟨a, b, ha, hb, rfl⟩, rfl⟩
    exact ⟨mark, a, b, by simpa [IsMark] using hmark, ha, hb, rfl⟩
  · rintro ⟨mark, a, b, hmark, ha, hb, rfl⟩
    exact ⟨[mark], ⟨mark, by simpa [IsMark] using hmark, rfl⟩, a ++ b, ⟨a, b, ha, hb, rfl⟩, rfl⟩

/-- Nothing, or a text of the expression. -/
def IsOptional (r : RegularExpression Char) (text : List Char) : Prop :=
  text = [] ∨ text ∈ r.matches'

/-- The text is a sign and digits, behind which a fraction and an exponent can stand. -/
structure Spells (text sign run fraction exponent : List Char) : Prop where
  isSign : IsSign sign
  isRun : IsRun run
  isFraction : IsOptional Grammar.fraction fraction
  isExponent : IsOptional Grammar.exponent exponent
  text_eq : text = sign ++ (run ++ (fraction ++ exponent))

lemma mem_integer_iff : text ∈ integer.matches' ↔ ∃ a b, Spells text a b [] [] := by
  rw [mem_integer]
  constructor
  · rintro ⟨a, b, ha, hb, rfl⟩
    exact ⟨a, b, ha, hb, .inl rfl, .inl rfl, by simp⟩
  · rintro ⟨a, b, h⟩
    exact ⟨a, b, h.isSign, h.isRun, by simpa using h.text_eq⟩

lemma mem_decimal_iff :
    text ∈ decimal.matches' ↔ ∃ a b f e, Spells text a b f e ∧ (f ≠ [] ∨ e ≠ []) := by
  have hfraction : ∀ f ∈ fraction.matches', f ≠ [] := by
    intro f hf
    obtain ⟨b, -, rfl⟩ := mem_fraction.mp hf
    simp
  have hexponent : ∀ e ∈ exponent.matches', e ≠ [] := by
    intro e he
    obtain ⟨mark, a, b, -, -, -, rfl⟩ := mem_exponent.mp he
    simp
  rw [decimal, matches'_mul, Language.mem_mul]
  simp only [matches'_add, matches'_mul, Language.mem_add, Language.mem_mul, mem_integer]
  constructor
  · rintro ⟨_, ⟨a, b, ha, hb, rfl⟩, rest, (hf | he) | ⟨f, hf, e, he, rfl⟩, rfl⟩
    · exact ⟨a, b, rest, [], ⟨ha, hb, .inr hf, .inl rfl, by simp⟩, .inl (hfraction rest hf)⟩
    · exact ⟨a, b, [], rest, ⟨ha, hb, .inl rfl, .inr he, by simp⟩, .inr (hexponent rest he)⟩
    · exact ⟨a, b, f, e, ⟨ha, hb, .inr hf, .inr he, by simp⟩, .inl (hfraction f hf)⟩
  · rintro ⟨a, b, f, e, ⟨ha, hb, hf, he, rfl⟩, hne⟩
    refine ⟨a ++ b, ⟨a, b, ha, hb, rfl⟩, f ++ e, ?_, by simp⟩
    rcases hf with rfl | hf <;> rcases he with rfl | he
    · simp at hne
    · exact .inl (.inr he)
    · exact .inl (.inl (by simpa using hf))
    · exact .inr ⟨f, hf, e, he, rfl⟩

/-! ### Meaning -/

/-- The integer of a sign and digits: the digits count powers of ten, a minus turns it round. -/
def meaning (a b : List Char) : Int :=
  if a = ['-'] then -(Nat.ofDigitChars 10 b 0 : Int) else Nat.ofDigitChars 10 b 0

/-- The text is an integer, and this one. -/
def Denotes (text : List Char) (n : Int) : Prop :=
  ∃ a b, IsSign a ∧ IsRun b ∧ text = a ++ b ∧ n = meaning a b

/-! ### Where a part ends -/

/-- The text does not go on with such a character. -/
def Stops (p : Char → Prop) (text : List Char) : Prop := ∀ c ∈ text.head?, ¬ p c

@[simp] lemma stops_nil (p : Char → Prop) : Stops p [] := by simp [Stops]

@[simp] lemma stops_cons {p : Char → Prop} {c : Char} : Stops p (c :: text) ↔ ¬ p c := by
  simp [Stops]

lemma IsRun.stops_sign {b : List Char} (h : IsRun b) (rest : List Char) :
    Stops (fun c => c = '+' ∨ c = '-') (b ++ rest) := by
  obtain ⟨c, b, rfl⟩ := List.exists_cons_of_ne_nil h.1
  have hc := h.2 c (by simp)
  rw [List.cons_append, stops_cons]
  rintro (rfl | rfl) <;> exact absurd hc (by decide)

/-- An exponent starts with its mark, so what is in front of it ends there. -/
lemma stops_exponent {e : List Char} (h : IsOptional exponent e) {p : Char → Prop}
    (hp : ∀ c, IsMark c → ¬ p c) : Stops p e := by
  rcases h with rfl | h
  · exact stops_nil p
  · obtain ⟨mark, a, b, hmark, -, -, rfl⟩ := mem_exponent.mp h
    exact stops_cons.mpr (hp mark hmark)

lemma IsMark.ne_point {c : Char} (h : IsMark c) : c ≠ '.' := by
  rcases h with rfl | rfl <;> decide

lemma IsMark.not_isDigit {c : Char} (h : IsMark c) : ¬ c.isDigit := by
  rcases h with rfl | rfl <;> decide

lemma stops_fraction {f e : List Char} (hf : IsOptional fraction f) (he : IsOptional exponent e) :
    Stops (·.isDigit) (f ++ e) := by
  rcases hf with rfl | hf
  · exact stops_exponent he fun c => IsMark.not_isDigit
  · obtain ⟨b, -, rfl⟩ := mem_fraction.mp hf
    exact stops_cons.mpr (by decide)

/-- A sign and digits start with neither letter of a word. -/
lemma Spells.stops_letter {a b f e : List Char} (h : Spells text a b f e) {p : Char → Prop}
    (hp : ∀ c, c.isDigit ∨ c = '+' ∨ c = '-' → ¬ p c) : Stops p text := by
  rw [h.text_eq]
  rcases h.isSign with rfl | rfl | rfl
  · obtain ⟨c, b, rfl⟩ := List.exists_cons_of_ne_nil h.isRun.1
    exact stops_cons.mpr (hp c (.inl (h.isRun.2 c (by simp))))
  · exact stops_cons.mpr (hp '+' (by decide))
  · exact stops_cons.mpr (hp '-' (by decide))

end Grammar

end RecordStore
