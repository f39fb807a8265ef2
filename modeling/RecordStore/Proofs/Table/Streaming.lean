import Mathlib
import RecordStore.Proofs.Table.Rewriting

/-!
# Reading a table from a stream

A table is read without looking at what is behind it. Bytes that are refused for what they say stay
refused, whatever follows; bytes that are cut off are reported as a failure of the stream. So no
stored table is the beginning of another one.
-/

namespace RecordStore.Table

open Decoder (Streams)

/-! ### Reading on -/

section ReadingOn

variable {α : Type}

/-- A stream that has failed. -/
abbrev IsStream (e : Error) : Prop := e.isStream = true

lemma streams_stream {decoder : Decoder StreamError α} (h : Streams (fun _ => True) decoder) :
    Streams IsStream (decoder.within .stream) :=
  h.within IsStream fun _ _ => rfl

lemma streams_schema {decoder : Decoder Schema.Error α} (h : Streams Schema.IsStream decoder) :
    Streams IsStream (decoder.within .schema) :=
  h.within IsStream fun _ ⟨_, he⟩ => he ▸ rfl

/-- The bytes of a chunk are all there before any of them is checked. -/
lemma streams_readChunk (types : List ValueType) (index : Nat) :
    Streams IsStream (readChunk types index) := by
  refine (streams_stream Decoder.streams_word).bind fun count => ?_
  refine (streams_stream Decoder.streams_word).bind fun size => ?_
  refine (streams_stream (Decoder.streams_blob size)).bind fun bytes => ?_
  cases checkStored types count bytes with
  | error reason => exact Decoder.streams_throw _
  | ok dense => exact Decoder.streams_pure _

lemma streams_readChunks (types : List ValueType) (count index : Nat) :
    Streams IsStream (readChunks types count index) := by
  induction count generalizing index with
  | zero => exact Decoder.streams_pure []
  | succ count ih =>
    refine (streams_readChunk types index).bind fun first => ?_
    exact (ih (index + 1)).bind fun others => Decoder.streams_pure (first :: others)

/-- A table is read without looking at what is behind it. -/
theorem streams_readWithConfig (config : Config) : Streams IsStream (readWithConfig config) := by
  unfold readWithConfig
  cases config.validate with
  | error reason => exact Decoder.streams_throw _
  | ok u =>
    refine (streams_stream Decoder.streams_word).bind fun version => ?_
    split_ifs
    · exact Decoder.streams_throw _
    · refine (streams_schema Schema.streams_read).bind fun schema => ?_
      refine (streams_stream Decoder.streams_word).bind fun count => ?_
      exact (streams_readChunks schema.types count 0).bind fun chunks => Decoder.streams_pure _

end ReadingOn

/-! ### Longer input, shorter input -/

/-- What is read does not depend on the configuration, as long as it is valid. -/
lemma readWithConfig_of_config {config config' : Config} {input rest : Bytes} {t : Table}
    (h : readWithConfig config input = .ok (t, rest)) (hconfig : config'.validate = .ok ()) :
    readWithConfig config' input = .ok ({ t with config := config' }, rest) := by
  obtain ⟨⟨blocks, hread⟩, hinput⟩ := readWithConfig_eq_ok.mp h
  refine readWithConfig_eq_ok.mpr ⟨⟨blocks, ?_⟩, hinput⟩
  exact {
    config_valid := hconfig
    config_eq := rfl
    generation_eq := hread.generation_eq
    schema_valid := hread.schema_valid
    named := hread.named
    holds := ⟨⟨hread.holds.types_eq, hread.holds.chunks_eq, hread.holds.count_eq⟩,
      fun _ => legible_of_tight hread.tight⟩
    tight := hread.tight
    few := hread.few
    compact_eq := hread.compact_eq }

/-- Bytes in front of others are read alike, unless the stream has failed; and where a table has
been read, every input that is cut off within it makes the stream fail. So a stored table that is
the beginning of another one is that other one. -/
theorem readWithConfig_from_stream (config : Config) (b : Bytes) :
    (∀ t rest, readWithConfig config b = .ok (t, rest) →
      (∀ x, readWithConfig config (b ++ x) = .ok (t, rest ++ x)) ∧
      ∃ p, b = p ++ rest ∧ ∀ q, q <+: p → q ≠ p →
        ∃ e, readWithConfig config q = .error e ∧ e.isStream = true) ∧
    (∀ e, readWithConfig config b = .error e → e.isStream = false →
      ∀ x, readWithConfig config (b ++ x) = .error e) ∧
    ∀ config' b' t t', readWithConfig config b = .ok (t, []) →
      readWithConfig config' b' = .ok (t', []) → b <+: b' → b = b' := by
  have hstreams := streams_readWithConfig config
  refine ⟨?_, ?_, ?_⟩
  · intro t rest h
    refine ⟨hstreams.ok_append h, ?_⟩
    obtain ⟨-, rfl⟩ := readWithConfig_eq_ok.mp h
    exact ⟨t.bytes, rfl, fun q hcut hne => hstreams.ended_of_cut h hcut hne⟩
  · intro e h hcontent
    exact hstreams.error_append h (Bool.eq_false_iff.mp hcontent)
  · rintro config' b' t t' h h' ⟨y, rfl⟩
    obtain ⟨⟨_, hread⟩, -⟩ := readWithConfig_eq_ok.mp h'
    have hlonger := readWithConfig_of_config (hstreams.ok_append h y) hread.config_valid
    rw [h'] at hlonger
    have hy : [] = [] ++ y := congrArg Prod.snd (Except.ok.inj hlonger)
    rw [← hy.trans (List.nil_append y), List.append_nil]

/-- A table that is followed by another byte, cut off within its record, and said to have one
record more. -/
theorem readWithConfig_from_stream_with_slack :
    (∃ t, readWithConfig .default (storedWithSlack ++ [9]) = .ok (t, [9])) ∧
      (∃ e, readWithConfig .default (storedWithSlack.take 30) = .error e ∧ e.isStream = true) ∧
      readWithConfig .default (storedWithSlack.set 19 2 ++ [9]) =
        .error (.corrupt 0 (.miscounted 2 1)) := by
  have h : readWithConfig .default storedWithSlack =
      .ok ({ build (.ofColumns [⟨"x", .integer .bits8 false, 0⟩]) .default with
        chunks := [⟨6, 0, [6, 0, 0, 0, 7, 0], 1⟩]
        numRecords := 1
        compact := false }, []) := by cbv
  have hcorrupt : readWithConfig .default (storedWithSlack.set 19 2) =
      .error (.corrupt 0 (.miscounted 2 1)) := by cbv
  obtain ⟨hlonger, p, hp, hcut⟩ := (readWithConfig_from_stream .default storedWithSlack).1 _ _ h
  rw [List.append_nil] at hp
  refine ⟨⟨_, hlonger [9]⟩, ?_, ?_⟩
  · exact hcut _ (hp ▸ List.take_prefix _ _) (hp ▸ by decide)
  · exact (readWithConfig_from_stream .default _).2.1 _ hcorrupt rfl [9]

end RecordStore.Table
