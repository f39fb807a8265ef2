import Mathlib
import RecordStore.Proofs.Decimal.Numeral
import RecordStore.Value.Scan

/-!
# The scan of untyped texts

After each byte the state of the scan says how the text read so far is built: a sign and digits, a
point and digits behind a number, or a mark, a sign and digits behind one. `Reads` is this relation;
a step of the scan keeps it, and every text in the relation is scanned to its state.
-/

namespace RecordStore.Scan

open Grammar

/-! ### Bytes of characters -/

abbrev IsAscii (c : Char) : Prop := c.toNat < 128

lemma utf8EncodeChar_of_isAscii {c : Char} (h : IsAscii c) :
    String.utf8EncodeChar c = [c.toUInt8] := by
  have hc : c.val.toNat ≤ 127 := Nat.le_of_lt_succ h
  simp only [String.utf8EncodeChar, if_pos hc]
  rfl

lemma exists_of_not_isAscii {c : Char} (h : ¬ IsAscii c) :
    ∃ b rest, String.utf8EncodeChar c = b :: rest ∧ 128 ≤ b.toNat := by
  have hc : ¬ c.val.toNat ≤ 127 := fun hle => h (Nat.lt_succ_of_le hle)
  simp only [String.utf8EncodeChar, if_neg hc]
  split
  · refine ⟨_, _, rfl, ?_⟩
    rw [UInt8.toNat_ofNat']
    omega
  · split
    · refine ⟨_, _, rfl, ?_⟩
      rw [UInt8.toNat_ofNat']
      omega
    · refine ⟨_, _, rfl, ?_⟩
      rw [UInt8.toNat_ofNat']
      omega

lemma encode_append_singleton (text : List Char) (c : Char) :
    Utf8.encode (.ofList (text ++ [c])) =
      Utf8.encode (.ofList text) ++ String.utf8EncodeChar c := by
  simp [Utf8.encode, List.utf8Encode_singleton]

lemma encode_of_isAscii {text : List Char} (h : ∀ c ∈ text, IsAscii c) :
    Utf8.encode (.ofList text) = text.map Char.toUInt8 := by
  induction text using List.reverseRecOn with
  | nil => rfl
  | append_singleton text c ih =>
    rw [List.forall_mem_append, List.forall_mem_singleton] at h
    rw [encode_append_singleton, ih h.1, utf8EncodeChar_of_isAscii h.2, List.map_append]
    rfl

lemma isAscii_of_isDigit {c : Char} (h : c.isDigit) : IsAscii c := by
  have : c.toNat ≤ 57 := by
    simp [Char.isDigit, UInt32.le_iff_toNat_le] at h
    exact h.2
  rw [IsAscii]
  omega

lemma isAscii_of_isSign {a : List Char} (h : IsSign a) : ∀ c ∈ a, IsAscii c := by
  rcases h with rfl | rfl | rfl <;> simp [IsAscii]

lemma isAscii_of_isMark {c : Char} (h : IsMark c) : IsAscii c := by
  rcases h with rfl | rfl <;> simp [IsAscii]

lemma toNat_toUInt8 {c : Char} (h : IsAscii c) : c.toUInt8.toNat = c.toNat := by
  have hc : c.val.toNat < 2 ^ 8 := Nat.lt_trans h (by decide)
  rw [Char.toUInt8, UInt32.toNat_toUInt8, Nat.mod_eq_of_lt hc]
  rfl

lemma toUInt8_eq_iff {c d : Char} (hc : IsAscii c) (hd : IsAscii d) :
    c.toUInt8 = d.toUInt8 ↔ c = d := by
  rw [← UInt8.toNat_inj, toNat_toUInt8 hc, toNat_toUInt8 hd, Char.toNat_inj]

lemma isDigit_iff {c : Char} (h : IsAscii c) :
    '0'.toUInt8 ≤ c.toUInt8 ∧ c.toUInt8 ≤ '9'.toUInt8 ↔ c.isDigit := by
  rw [UInt8.le_iff_toNat_le, UInt8.le_iff_toNat_le, toNat_toUInt8 h]
  simp [Char.isDigit, UInt32.le_iff_toNat_le]
  rfl

/-! ### Steps -/

variable {scan scan' : Scan} {i : Nat} {c : Char}

/-- The step on the byte of a character, said of the character. -/
lemma step_toUInt8 (hascii : IsAscii c) :
    scan.step i c.toUInt8 =
      if c.isDigit then some { scan with run := scan.run + 1 }
      else if c = '+' ∨ c = '-' then
        if i ≠ 0 ∧ scan.exponent ≠ some (i - 1) then none else some scan
      else if c = '.' then
        if scan.point.isSome ∨ scan.exponent.isSome ∨ scan.run = 0 then none
        else some { scan with point := some i, run := 0 }
      else if c = 'e' ∨ c = 'E' then
        if scan.exponent.isSome ∨ scan.run = 0 then none
        else some { scan with exponent := some i, run := 0 }
      else none := by
  rw [step]
  simp only [isDigit_iff hascii, toUInt8_eq_iff hascii (by decide : IsAscii '+'),
    toUInt8_eq_iff hascii (by decide : IsAscii '-'),
    toUInt8_eq_iff hascii (by decide : IsAscii '.'),
    toUInt8_eq_iff hascii (by decide : IsAscii 'e'),
    toUInt8_eq_iff hascii (by decide : IsAscii 'E')]

/-- Characters beyond ASCII start with a byte that no number can go on with. -/
lemma step_of_high {b : UInt8} (h : 128 ≤ b.toNat) : scan.step i b = none := by
  have hne (c : Char) (hc : IsAscii c) : b ≠ c.toUInt8 := by
    rintro rfl
    rw [toNat_toUInt8 hc] at h
    exact absurd hc (Nat.not_lt.mpr h)
  have hdigit : ¬ ('0'.toUInt8 ≤ b ∧ b ≤ '9'.toUInt8) := by
    rintro ⟨-, hle⟩
    exact absurd (h.trans (UInt8.le_iff_toNat_le.mp hle)) (by decide)
  simp [step, hdigit, hne _ (by decide : IsAscii '+'), hne _ (by decide : IsAscii '-'),
    hne _ (by decide : IsAscii '.'), hne _ (by decide : IsAscii 'e'),
    hne _ (by decide : IsAscii 'E')]

/-- What a byte can be with which the scan goes on. -/
lemma step_cases (hascii : IsAscii c) (h : scan.step i c.toUInt8 = some scan') :
    c.isDigit ∧ scan' = { scan with run := scan.run + 1 } ∨
    (c = '+' ∨ c = '-') ∧ (i = 0 ∨ scan.exponent = some (i - 1)) ∧ scan' = scan ∨
    c = '.' ∧ scan.point = none ∧ scan.exponent = none ∧ scan.run ≠ 0 ∧
      scan' = { scan with point := some i, run := 0 } ∨
    IsMark c ∧ scan.exponent = none ∧ scan.run ≠ 0 ∧
      scan' = { scan with exponent := some i, run := 0 } := by
  rw [step_toUInt8 hascii] at h
  split_ifs at h with hdigit hsign hplace hpoint hfree hmark hfree <;>
    obtain rfl := Option.some.inj h
  · exact .inl ⟨hdigit, rfl⟩
  · refine .inr (.inl ⟨hsign, ?_, rfl⟩)
    rw [not_and_or, not_not, not_not] at hplace
    exact hplace
  · simp only [not_or, Bool.not_eq_true, Option.isSome_eq_false_iff, Option.isNone_iff_eq_none]
      at hfree
    exact .inr (.inr (.inl ⟨hpoint, hfree.1, hfree.2.1, hfree.2.2, rfl⟩))
  · simp only [not_or, Bool.not_eq_true, Option.isSome_eq_false_iff, Option.isNone_iff_eq_none]
      at hfree
    exact .inr (.inr (.inr ⟨hmark, hfree.1, hfree.2, rfl⟩))

lemma step_digit (hc : c.isDigit) :
    scan.step i c.toUInt8 = some { scan with run := scan.run + 1 } := by
  rw [step_toUInt8 (isAscii_of_isDigit hc), if_pos hc]

lemma step_sign (hc : c = '+' ∨ c = '-') (hplace : i = 0 ∨ scan.exponent = some (i - 1)) :
    scan.step i c.toUInt8 = some scan := by
  have hplace' : ¬ (i ≠ 0 ∧ scan.exponent ≠ some (i - 1)) := by tauto
  rcases hc with rfl | rfl <;>
    simp [step_toUInt8, Char.isDigit, if_neg hplace']

lemma step_point (hpoint : scan.point = none) (hexponent : scan.exponent = none)
    (hrun : scan.run ≠ 0) :
    scan.step i '.'.toUInt8 = some { scan with point := some i, run := 0 } := by
  simp [step_toUInt8, Char.isDigit, hpoint, hexponent, hrun]

lemma step_mark (hc : IsMark c) (hexponent : scan.exponent = none) (hrun : scan.run ≠ 0) :
    scan.step i c.toUInt8 = some { scan with exponent := some i, run := 0 } := by
  rcases hc with rfl | rfl <;> simp [step_toUInt8, Char.isDigit, hexponent, hrun]

/-! ### Runs -/

lemma steps_append (scan : Scan) (i : Nat) (bytes rest : Bytes) :
    scan.steps i (bytes ++ rest) =
      (scan.steps i bytes).bind fun scan => scan.steps (i + bytes.length) rest := by
  induction bytes generalizing scan i with
  | nil => rfl
  | cons b bytes ih =>
    simp only [List.cons_append, steps, List.length_cons, Option.bind_assoc, ih]
    simp only [Nat.add_assoc, Nat.add_comm 1]

lemma steps_singleton (scan : Scan) (i : Nat) (b : UInt8) : scan.steps i [b] = scan.step i b := by
  simp [steps]

lemma steps_sign {a : List Char} (ha : IsSign a) (hplace : i = 0 ∨ scan.exponent = some (i - 1)) :
    scan.steps i (a.map Char.toUInt8) = some scan := by
  rcases ha with rfl | rfl | rfl
  · rfl
  · rw [List.map_singleton, steps_singleton, step_sign (.inl rfl) hplace]
  · rw [List.map_singleton, steps_singleton, step_sign (.inr rfl) hplace]

lemma steps_digits {ds : List Char} (hds : ∀ c ∈ ds, c.isDigit) :
    scan.steps i (ds.map Char.toUInt8) = some { scan with run := scan.run + ds.length } := by
  induction ds generalizing scan i with
  | nil => rfl
  | cons d ds ih =>
    rw [List.forall_mem_cons] at hds
    rw [List.map_cons, steps, step_digit hds.1, Option.bind_some, ih hds.2, List.length_cons]
    simp only [Nat.add_assoc, Nat.add_comm 1]

/-! ### Texts and states -/

/-- The text is scanned to the state: a sign and digits, or a number with a point or with a mark and
a sign behind it, and then digits. -/
inductive Reads : List Char → Scan → Prop
  | whole {a ds : List Char} (sign : IsSign a) (digits : ∀ c ∈ ds, c.isDigit) :
    Reads (a ++ ds) ⟨none, none, ds.length⟩
  | fraction {m ds : List Char} {scan : Scan} (number : Reads m scan)
    (point : scan.point = none) (exponent : scan.exponent = none) (run : scan.run ≠ 0)
    (digits : ∀ c ∈ ds, c.isDigit) :
    Reads (m ++ '.' :: ds) ⟨some m.length, none, ds.length⟩
  | exponent {m a ds : List Char} {mark : Char} {scan : Scan} (number : Reads m scan)
    (exponent : scan.exponent = none) (run : scan.run ≠ 0) (isMark : IsMark mark)
    (sign : IsSign a) (digits : ∀ c ∈ ds, c.isDigit) :
    Reads (m ++ mark :: (a ++ ds)) ⟨scan.point, some m.length, ds.length⟩

namespace Reads

variable {text : List Char}

lemma isAscii (h : Reads text scan) : ∀ c ∈ text, IsAscii c := by
  induction h with
  | whole ha hds =>
    exact List.forall_mem_append.mpr
      ⟨isAscii_of_isSign ha, fun c hc => isAscii_of_isDigit (hds c hc)⟩
  | fraction _ _ _ _ hds ih =>
    exact List.forall_mem_append.mpr ⟨ih, List.forall_mem_cons.mpr
      ⟨by decide, fun c hc => isAscii_of_isDigit (hds c hc)⟩⟩
  | exponent _ _ _ hmark ha hds ih =>
    exact List.forall_mem_append.mpr ⟨ih, List.forall_mem_cons.mpr
      ⟨isAscii_of_isMark hmark, List.forall_mem_append.mpr
        ⟨isAscii_of_isSign ha, fun c hc => isAscii_of_isDigit (hds c hc)⟩⟩⟩

/-- A text in the relation is scanned to its state. -/
lemma steps_eq (h : Reads text scan) : start.steps 0 (text.map Char.toUInt8) = some scan := by
  induction h with
  | whole ha hds =>
    rw [List.map_append, steps_append, steps_sign ha (.inl rfl), Option.bind_some,
      steps_digits hds]
    simp [start]
  | fraction _ hpoint hexponent hrun hds ih =>
    rw [List.map_append, steps_append, ih, Option.bind_some, List.map_cons, steps,
      step_point hpoint hexponent hrun, Option.bind_some, steps_digits hds]
    simp [hexponent]
  | exponent _ hexponent hrun hmark ha hds ih =>
    rw [List.map_append, steps_append, ih, Option.bind_some, List.map_cons, steps,
      step_mark hmark hexponent hrun, Option.bind_some, List.map_append, steps_append,
      steps_sign ha (.inr (by simp)), Option.bind_some, steps_digits hds]
    simp

/-! ### One more character -/

lemma digit (h : Reads text scan) (hc : c.isDigit) :
    Reads (text ++ [c]) { scan with run := scan.run + 1 } := by
  have hmore {ds : List Char} (hds : ∀ c ∈ ds, c.isDigit) : ∀ d ∈ ds ++ [c], d.isDigit :=
    List.forall_mem_append.mpr ⟨hds, List.forall_mem_singleton.mpr hc⟩
  cases h with
  | whole ha hds => simpa using Reads.whole ha (hmore hds)
  | fraction hm hpoint hexponent hrun hds =>
    simpa using Reads.fraction hm hpoint hexponent hrun (hmore hds)
  | exponent hm hexponent hrun hmark ha hds =>
    simpa using Reads.exponent hm hexponent hrun hmark ha (hmore hds)

/-- Where a sign is allowed there is no sign yet, nor a digit behind the start or the mark. -/
lemma sign (h : Reads text scan) (hc : c = '+' ∨ c = '-')
    (hplace : text.length = 0 ∨ scan.exponent = some (text.length - 1)) :
    Reads (text ++ [c]) scan := by
  have hsign : IsSign [c] := by
    rcases hc with rfl | rfl
    · exact .inr (.inl rfl)
    · exact .inr (.inr rfl)
  have hnone : ∀ d ∈ ([] : List Char), d.isDigit := by simp
  cases h with
  | @whole a ds ha hds =>
    obtain ⟨rfl, rfl⟩ : a = [] ∧ ds = [] := by simpa using hplace
    exact .whole hsign hnone
  | fraction => simp at hplace
  | @exponent m a ds mark scan hm hexponent hrun hmark ha hds =>
    obtain ⟨rfl, rfl⟩ : a = [] ∧ ds = [] := by
      simp only [List.length_append, List.length_cons, Option.some.injEq] at hplace
      rw [← List.length_eq_zero_iff, ← List.length_eq_zero_iff]
      omega
    simpa using Reads.exponent hm hexponent hrun hmark hsign hnone

/-- A step keeps the relation. -/
theorem step (h : Reads text scan) (hascii : IsAscii c)
    (hstep : scan.step text.length c.toUInt8 = some scan') : Reads (text ++ [c]) scan' := by
  have hnone : ∀ d ∈ ([] : List Char), d.isDigit := by simp
  rcases step_cases hascii hstep with ⟨hc, rfl⟩ | ⟨hc, hplace, rfl⟩ |
    ⟨rfl, hpoint, hexponent, hrun, rfl⟩ | ⟨hc, hexponent, hrun, rfl⟩
  · exact h.digit hc
  · exact h.sign hc hplace
  · simpa [hexponent] using Reads.fraction h hpoint hexponent hrun hnone
  · exact .exponent h hexponent hrun hc (.inl rfl) hnone

end Reads

/-- What is scanned is in the relation, by induction on the characters from the front on. -/
lemma reads_of_steps {text : List Char}
    (h : start.steps 0 (Utf8.encode (.ofList text)) = some scan) : Reads text scan := by
  induction text using List.reverseRecOn generalizing scan with
  | nil =>
    obtain rfl : start = scan := by simpa [Utf8.encode, steps] using h
    exact .whole (.inl rfl) (by simp)
  | append_singleton text c ih =>
    rw [encode_append_singleton, steps_append] at h
    obtain ⟨scan₀, hscan₀, hstep⟩ := Option.bind_eq_some_iff.mp h
    have hreads := ih hscan₀
    have hascii : IsAscii c := by
      by_contra hc
      obtain ⟨b, rest, hb, hhigh⟩ := exists_of_not_isAscii hc
      rw [hb, steps, step_of_high hhigh] at hstep
      cases hstep
    rw [utf8EncodeChar_of_isAscii hascii, steps_singleton, encode_of_isAscii hreads.isAscii,
      List.length_map, Nat.zero_add] at hstep
    exact hreads.step hascii hstep

theorem steps_eq_some_iff {s : String} :
    start.steps 0 (Utf8.encode s) = some scan ↔ Reads s.toList scan := by
  rw [← String.ofList_toList (s := s), String.toList_ofList]
  refine ⟨reads_of_steps, fun h => ?_⟩
  rw [encode_of_isAscii h.isAscii]
  exact h.steps_eq

/-! ### The grammar -/

namespace Reads

variable {text : List Char}

lemma isRun_of_length_ne {ds : List Char} (hds : ∀ c ∈ ds, c.isDigit) (h : ds.length ≠ 0) :
    IsRun ds := ⟨fun hnil => h (hnil ▸ rfl), hds⟩

lemma integer (h : Reads text scan) (hpoint : scan.point = none) (hexponent : scan.exponent = none)
    (hrun : scan.run ≠ 0) : ∃ a b, IsSign a ∧ IsRun b ∧ text = a ++ b := by
  cases h with
  | whole ha hds => exact ⟨_, _, ha, isRun_of_length_ne hds hrun, rfl⟩
  | fraction => cases hpoint
  | exponent => cases hexponent

/-- In front of a mark stand a sign, digits and perhaps a fraction. -/
lemma mantissa (h : Reads text scan) (hexponent : scan.exponent = none) (hrun : scan.run ≠ 0) :
    ∃ a b f, IsSign a ∧ IsRun b ∧ IsOptional Grammar.fraction f ∧ text = a ++ (b ++ f) ∧
      (scan.point = none ↔ f = []) := by
  cases h with
  | whole ha hds =>
    exact ⟨_, _, [], ha, isRun_of_length_ne hds hrun, .inl rfl, by simp, by simp⟩
  | @fraction m ds _ hm hpoint hexponent' hrun' hds =>
    obtain ⟨a, b, ha, hb, rfl⟩ := hm.integer hpoint hexponent' hrun'
    have hf := mem_fraction.mpr ⟨ds, isRun_of_length_ne hds hrun, rfl⟩
    exact ⟨a, b, '.' :: ds, ha, hb, .inr hf, by simp, by simp⟩
  | exponent => cases hexponent

/-- A text that ends in digits spells a number with the parts that the state tells. -/
theorem spells (h : Reads text scan) (hrun : scan.run ≠ 0) :
    ∃ a b f e, Spells text a b f e ∧ (scan.point = none ↔ f = []) ∧
      (scan.exponent = none ↔ e = []) := by
  cases hexponent : scan.exponent with
  | none =>
    obtain ⟨a, b, f, ha, hb, hf, htext, hpoint⟩ := h.mantissa hexponent hrun
    exact ⟨a, b, f, [], ⟨ha, hb, hf, .inl rfl, by simpa using htext⟩, hpoint, by simp⟩
  | some k =>
    cases h with
    | whole | fraction => cases hexponent
    | @exponent m a' ds mark scan hm hexponent' hrun' hmark ha' hds =>
      obtain ⟨a, b, f, ha, hb, hf, rfl, hpoint⟩ := hm.mantissa hexponent' hrun'
      have he := mem_exponent.mpr ⟨mark, a', ds, hmark, ha', isRun_of_length_ne hds hrun, rfl⟩
      exact ⟨a, b, f, mark :: (a' ++ ds), ⟨ha, hb, hf, .inr he, by simp⟩, hpoint, by simp⟩

/-- Every number is in the relation, with a state that tells its parts. -/
theorem of_spells {a b f e : List Char} (h : Spells text a b f e) :
    ∃ scan, Reads text scan ∧ scan.run ≠ 0 ∧ (scan.point = none ↔ f = []) ∧
      (scan.exponent = none ↔ e = []) := by
  have hlength {ds : List Char} (hds : IsRun ds) : ds.length ≠ 0 :=
    fun hzero => hds.1 (List.length_eq_zero_iff.mp hzero)
  -- the digits in front, then the fraction, then the exponent
  obtain ⟨scan₁, hscan₁, hrun₁, hpoint₁, hexponent₁⟩ : ∃ scan, Reads (a ++ b) scan ∧
      scan.run ≠ 0 ∧ scan.point = none ∧ scan.exponent = none :=
    ⟨_, .whole h.isSign h.isRun.2, hlength h.isRun, rfl, rfl⟩
  obtain ⟨scan₂, hscan₂, hrun₂, hpoint₂, hexponent₂⟩ : ∃ scan, Reads (a ++ b ++ f) scan ∧
      scan.run ≠ 0 ∧ (scan.point = none ↔ f = []) ∧ scan.exponent = none := by
    rcases h.isFraction with rfl | hf
    · exact ⟨scan₁, by simpa using hscan₁, hrun₁, by simpa using hpoint₁, hexponent₁⟩
    · obtain ⟨ds, hds, rfl⟩ := mem_fraction.mp hf
      exact ⟨_, .fraction hscan₁ hpoint₁ hexponent₁ hrun₁ hds.2, hlength hds, by simp, rfl⟩
  rw [h.text_eq, ← List.append_assoc b, ← List.append_assoc a, ← List.append_assoc a]
  rcases h.isExponent with rfl | he
  · exact ⟨scan₂, by simpa using hscan₂, hrun₂, hpoint₂, by simpa using hexponent₂⟩
  · obtain ⟨mark, a', ds, hmark, ha', hds, rfl⟩ := mem_exponent.mp he
    exact ⟨_, .exponent hscan₂ hexponent₂ hrun₂ hmark ha' hds.2, hlength hds, hpoint₂, by simp⟩

end Reads

end RecordStore.Scan
