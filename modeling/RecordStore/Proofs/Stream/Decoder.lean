import Mathlib
import RecordStore.Proofs.Record.Field
import RecordStore.Stream

/-!
# What decoders accept

A decoder is described by the prefixes that it accepts: it reads `a` and leaves `rest` if and only
if the input is an encoding of `a` in front of `rest`. Each equivalence is used from left to right
to learn from a successful run, and from right to left to read what was written.

A decoder that streams never looks ahead: input that is longer is read alike, and the only thing
that more input can mend is that there was too little.
-/

namespace RecordStore.Decoder

variable {α β ε δ : Type} {input rest : Bytes}

/-! ### Composing -/

lemma bind_eq_ok {decoder : Decoder ε α} {next : α → Decoder ε β} {b : β} :
    (decoder >>= next) input = .ok (b, rest) ↔
      ∃ a left, decoder input = .ok (a, left) ∧ next a left = .ok (b, rest) := by
  constructor
  · intro h
    change (do let p ← decoder input; next p.1 p.2) = _ at h
    cases hrun : decoder input with
    | error e =>
      rw [hrun] at h
      cases h
    | ok p =>
      rw [hrun] at h
      exact ⟨p.1, p.2, rfl, h⟩
  · rintro ⟨a, left, hrun, hnext⟩
    change (do let p ← decoder input; next p.1 p.2) = _
    rw [hrun]
    exact hnext

/-- A sequence fails where one of its two parts does. -/
lemma bind_eq_error {decoder : Decoder ε α} {next : α → Decoder ε β} {e : ε} :
    (decoder >>= next) input = .error e ↔
      decoder input = .error e ∨
        ∃ a left, decoder input = .ok (a, left) ∧ next a left = .error e := by
  change (do let p ← decoder input; next p.1 p.2) = _ ↔ _
  cases hrun : decoder input with
  | error e' =>
    constructor
    · intro h
      cases h
      exact .inl rfl
    · rintro (h | ⟨a, left, h, -⟩)
      · cases h
        rfl
      · cases h
  | ok p =>
    constructor
    · intro h
      exact .inr ⟨p.1, p.2, rfl, h⟩
    · rintro (h | ⟨a, left, h, hnext⟩)
      · cases h
      · cases h
        exact hnext

lemma map_eq_ok {decoder : Decoder ε α} {f : α → β} {b : β} :
    (f <$> decoder) input = .ok (b, rest) ↔ ∃ a, decoder input = .ok (a, rest) ∧ f a = b := by
  constructor
  · intro h
    change (do let p ← decoder input; pure (f p.1, p.2)) = _ at h
    cases hrun : decoder input with
    | error e =>
      rw [hrun] at h
      cases h
    | ok p =>
      rw [hrun] at h
      cases h
      exact ⟨p.1, rfl, rfl⟩
  · rintro ⟨a, hrun, rfl⟩
    change (do let p ← decoder input; pure (f p.1, p.2)) = _
    rw [hrun]
    rfl

lemma pure_eq_ok {a b : α} :
    (pure a : Decoder ε α) input = .ok (b, rest) ↔ a = b ∧ input = rest := by
  constructor
  · intro h
    cases h
    exact ⟨rfl, rfl⟩
  · rintro ⟨rfl, rfl⟩
    rfl

lemma throw_ne_ok {e : ε} {a : α} : ¬ (throw e : Decoder ε α) input = .ok (a, rest) :=
  fun h => by cases h

lemma within_eq_ok {wrap : ε → δ} {decoder : Decoder ε α} {a : α} :
    decoder.within wrap input = .ok (a, rest) ↔ decoder input = .ok (a, rest) := by
  unfold within
  cases decoder input with
  | error e =>
    constructor
    · intro h
      cases h
    · intro h
      cases h
  | ok p =>
    constructor
    · intro h
      cases h
      rfl
    · intro h
      cases h
      rfl

/-! ### Pieces -/

lemma take_eq_ok {n : Nat} {short : Nat → ε} {bytes : Bytes} :
    take n short input = .ok (bytes, rest) ↔ bytes.length = n ∧ input = bytes ++ rest := by
  unfold take
  constructor
  · intro h
    split at h
    · rename_i hlen
      cases h
      exact ⟨List.length_take_of_le (Bytes.atLeast_eq_true.mp hlen),
        (List.take_append_drop n input).symm⟩
    · cases h
  · rintro ⟨rfl, rfl⟩
    rw [if_pos (by simp), List.take_left, List.drop_left]

lemma number_eq_ok {width : Nat} {short : Nat → ε} {n : Nat} :
    (LittleEndian.decode <$> take width short) input = .ok (n, rest) ↔
      n < 256 ^ width ∧ input = LittleEndian.encode width n ++ rest := by
  rw [map_eq_ok]
  constructor
  · rintro ⟨bytes, hbytes, rfl⟩
    obtain ⟨rfl, rfl⟩ := take_eq_ok.mp hbytes
    exact ⟨LittleEndian.decode_lt bytes, by rw [LittleEndian.encode_decode]⟩
  · rintro ⟨hlt, rfl⟩
    exact ⟨_, take_eq_ok.mpr ⟨LittleEndian.length_encode _ _, rfl⟩,
      LittleEndian.decode_encode_of_lt hlt⟩

lemma byte_eq_ok {n : Nat} :
    byte input = .ok (n, rest) ↔ n < 256 ^ 1 ∧ input = LittleEndian.encode 1 n ++ rest :=
  number_eq_ok

lemma word_eq_ok {n : Nat} :
    word input = .ok (n, rest) ↔ n < 256 ^ 4 ∧ input = LittleEndian.encode 4 n ++ rest :=
  number_eq_ok

lemma blob_eq_ok {n : Nat} {bytes : Bytes} :
    blob n input = .ok (bytes, rest) ↔ bytes.length = n ∧ input = bytes ++ rest :=
  take_eq_ok

/-! ### Reading on -/

/-- More input behind changes nothing but what is left over, unless the decoder has failed because
its input had ended. -/
structure Streams (ended : ε → Prop) (decoder : Decoder ε α) : Prop where
  ok_append {input rest : Bytes} {a : α} (h : decoder input = .ok (a, rest)) (x : Bytes) :
    decoder (input ++ x) = .ok (a, rest ++ x)
  error_append {input : Bytes} {e : ε} (h : decoder input = .error e) (hended : ¬ ended e)
    (x : Bytes) : decoder (input ++ x) = .error e

section Streams

variable {ended : ε → Prop}

lemma streams_pure (a : α) : Streams ended (pure a) where
  ok_append := by
    rintro _ _ _ ⟨⟩ x
    rfl
  error_append := by
    rintro _ _ ⟨⟩

/-- A failure for what has been read already does not look at the input. -/
lemma streams_throw (e : ε) : Streams ended (throw e : Decoder ε α) where
  ok_append h := absurd h throw_ne_ok
  error_append := by
    rintro _ _ ⟨⟩ _ x
    rfl

/-- A piece is missing only if the input has ended. -/
lemma streams_take {n : Nat} {short : Nat → ε} (hshort : ∀ actual, ended (short actual)) :
    Streams ended (take n short) where
  ok_append := by
    intro input rest bytes h x
    obtain ⟨hlength, rfl⟩ := take_eq_ok.mp h
    exact take_eq_ok.mpr ⟨hlength, List.append_assoc _ _ _⟩
  error_append := by
    intro input e h hended
    unfold take at h
    split at h
    · cases h
    · cases h
      exact absurd (hshort _) hended

namespace Streams

/-- Decoders one behind the other. -/
theorem bind {decoder : Decoder ε α} {next : α → Decoder ε β} (h : Streams ended decoder)
    (hnext : ∀ a, Streams ended (next a)) : Streams ended (decoder >>= next) where
  ok_append := by
    intro input rest b hrun x
    obtain ⟨a, left, hfirst, hsecond⟩ := bind_eq_ok.mp hrun
    exact bind_eq_ok.mpr ⟨a, left ++ x, h.ok_append hfirst x, (hnext a).ok_append hsecond x⟩
  error_append := by
    intro input e hrun hended x
    rcases bind_eq_error.mp hrun with hfirst | ⟨a, left, hfirst, hsecond⟩
    · exact bind_eq_error.mpr (.inl (h.error_append hfirst hended x))
    · exact bind_eq_error.mpr (.inr ⟨a, left ++ x, h.ok_append hfirst x,
        (hnext a).error_append hsecond hended x⟩)

lemma map {decoder : Decoder ε α} (h : Streams ended decoder) (f : α → β) :
    Streams ended (f <$> decoder) :=
  h.bind fun a => streams_pure (f a)

/-- Failures seen from further out. -/
lemma within {decoder : Decoder ε α} (h : Streams ended decoder) (ended' : δ → Prop)
    {wrap : ε → δ} (himp : ∀ e, ended e → ended' (wrap e)) :
    Streams ended' (decoder.within wrap) where
  ok_append hrun x := within_eq_ok.mpr (h.ok_append (within_eq_ok.mp hrun) x)
  error_append := by
    intro input e hrun hended x
    unfold Decoder.within at hrun ⊢
    cases hinner : decoder input with
    | ok p =>
      rw [hinner] at hrun
      cases hrun
    | error e' =>
      rw [hinner] at hrun
      cases hrun
      rw [h.error_append hinner (mt (himp e') hended) x]
      rfl

/-- Input that is cut off within what is read has ended too early. Any other outcome would stay as
it is when the rest of the input is there. -/
theorem ended_of_cut {decoder : Decoder ε α} (h : Streams ended decoder) {p q : Bytes} {a : α}
    (hrun : decoder (p ++ rest) = .ok (a, rest)) (hcut : q <+: p) (hne : q ≠ p) :
    ∃ e, decoder q = .error e ∧ ended e := by
  obtain ⟨y, rfl⟩ := hcut
  rw [List.append_assoc] at hrun
  cases hq : decoder q with
  | ok r =>
    obtain ⟨a', left⟩ := r
    have hlonger := h.ok_append hq (y ++ rest)
    rw [hrun] at hlonger
    have hleft : rest = left ++ (y ++ rest) := congrArg Prod.snd (Except.ok.inj hlonger)
    have hy : y = [] := by
      have := congrArg List.length hleft
      simp only [List.length_append] at this
      exact List.length_eq_zero_iff.mp (by omega)
    exact absurd (by rw [hy, List.append_nil]) hne
  | error e =>
    refine ⟨e, rfl, ?_⟩
    by_contra hended
    have hlonger := h.error_append hq hended (y ++ rest)
    rw [hrun] at hlonger
    cases hlonger

end Streams

lemma streams_byte : Streams (fun _ => True) byte := (streams_take fun _ => trivial).map _

lemma streams_word : Streams (fun _ => True) word := (streams_take fun _ => trivial).map _

lemma streams_blob (n : Nat) : Streams (fun _ => True) (blob n) := streams_take fun _ => trivial

end Streams

end RecordStore.Decoder
