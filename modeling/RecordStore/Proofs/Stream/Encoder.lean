import Mathlib
import RecordStore.Stream

/-!
# What encoders write

An encoder that puts pieces one behind the other does to every sink what putting all of them at
once would do. It fails if and only if the sink has too little room.
-/

namespace RecordStore.Encoder

variable {ε δ : Type}

/-- The encoder does to every sink what putting the bytes in one piece does, and has one of these
failures where that fails. -/
def Emits (failure : ε → Prop) (encoder : Encoder ε Unit) (bytes : Bytes) : Prop :=
  ∀ sink, (∃ s, encoder sink = (.ok (), s) ∧ put bytes sink = (.ok (), s)) ∨
    ∃ e e' s, encoder sink = (.error e, s) ∧ put bytes sink = (.error e', s) ∧ failure e

/-! ### Pieces -/

lemma emits_put (bytes : Bytes) : Emits (fun _ => True) (put bytes) bytes := by
  intro sink
  rcases hput : put bytes sink with ⟨e | u, s⟩
  · exact .inr ⟨e, e, s, rfl, rfl, trivial⟩
  · exact .inl ⟨s, rfl, rfl⟩

lemma emits_word (n : Nat) : Emits (fun _ => True) (word n) (LittleEndian.encode 4 n) :=
  emits_put _

lemma emits_byte (n : Nat) : Emits (fun _ => True) (byte n) (LittleEndian.encode 1 n) :=
  emits_put _

lemma emits_pure {failure : ε → Prop} : Emits failure (pure () : Encoder ε Unit) [] := by
  intro sink
  refine .inl ⟨sink, rfl, ?_⟩
  rcases sink with ⟨_ | room, written⟩
  · simp only [put, List.append_nil]
  · simp [put]

/-! ### One piece behind the other -/

lemma bind_apply (first second : Encoder ε Unit) (sink : Sink) :
    (do first; second) sink =
      match first sink with
      | (.ok (), sink) => second sink
      | (.error e, sink) => (.error e, sink) := by
  change ExceptT.bindCont (fun _ => second) (first sink).1 (first sink).2 = _
  rcases first sink with ⟨_ | _, _⟩ <;> rfl

/-- Two pieces are put as one. -/
lemma put_append (a b : Bytes) : put (a ++ b) = (do put a; put b) := by
  funext sink
  rw [bind_apply]
  rcases sink with ⟨_ | room, written⟩
  · simp only [put, List.append_assoc]
  · by_cases ha : a.length ≤ room
    · by_cases hb : b.length ≤ room - a.length
      · have hab : a.length + b.length ≤ room := by omega
        simp only [put, if_pos ha, if_pos hb, if_pos hab, List.length_append, Nat.sub_sub,
          List.append_assoc]
      · have hab : ¬ a.length + b.length ≤ room := by omega
        simp only [put, if_pos ha, if_neg hb, if_neg hab, List.length_append, List.take_append,
          List.append_assoc, List.take_of_length_le ha]
    · have hab : ¬ a.length + b.length ≤ room := by omega
      simp only [put, if_neg ha, List.length_append, if_neg hab]
      rw [List.take_append_of_le_length (by omega)]

/-! ### Sinks that fill up -/

/-- The outcome of writing these bytes to a sink that has this much room left: the sink has taken
as many of them as there was room for, and the run has succeeded exactly if these are all. -/
structure Fills (failure : ε → Prop) (bytes : Bytes) (room : Nat) (written : Bytes)
    (outcome : Except ε Unit × Sink) : Prop where
  sink_eq : outcome.2 = ⟨some (room - bytes.length), written ++ bytes.take room⟩
  ok_iff : outcome.1 = .ok () ↔ bytes.length ≤ room
  of_error : ∀ e, outcome.1 = .error e → failure e

/-- An unbounded sink takes these bytes without failure, and any other one until it is full. -/
structure Writes (failure : ε → Prop) (encoder : Encoder ε Unit) (bytes : Bytes) : Prop where
  unbounded : ∀ written, encoder ⟨none, written⟩ = (.ok (), ⟨none, written ++ bytes⟩)
  bounded : ∀ room written, Fills failure bytes room written (encoder ⟨some room, written⟩)

namespace Emits

variable {failure : ε → Prop}

/-- An unbounded sink takes all bytes. -/
lemma eq_of_unbounded {encoder : Encoder ε Unit} {bytes : Bytes} (h : Emits failure encoder bytes)
    (written : Bytes) : encoder ⟨none, written⟩ = (.ok (), ⟨none, written ++ bytes⟩) := by
  rcases h ⟨none, written⟩ with ⟨s, hrun, hput⟩ | ⟨e, e', s, -, hput, -⟩
  · cases hput
    exact hrun
  · cases hput

/-- A sink that has taken a piece has it behind what was there. -/
lemma written_of_ok {encoder : Encoder ε Unit} {bytes : Bytes} (h : Emits failure encoder bytes)
    {sink sink' : Sink} (hrun : encoder sink = (.ok (), sink')) :
    sink'.written = sink.written ++ bytes := by
  rcases h sink with ⟨s, hrun', hput⟩ | ⟨e, e', s, hrun', -⟩
  · rw [hrun] at hrun'
    cases hrun'
    rw [put] at hput
    split at hput
    · cases hput
      rfl
    · split_ifs at hput
      · cases hput
        rfl
      · cases hput
  · rw [hrun] at hrun'
    cases hrun'

/-- Failures seen from further out. -/
lemma within {encoder : Encoder ε Unit} {bytes : Bytes} (h : Emits failure encoder bytes)
    (failure' : δ → Prop) (wrap : ε → δ) (himp : ∀ e, failure e → failure' (wrap e)) :
    Emits failure' (encoder.within wrap) bytes := by
  intro sink
  rcases h sink with ⟨s, hrun, hput⟩ | ⟨e, e', s, hrun, hput, hfailure⟩
  · refine .inl ⟨s, ?_, hput⟩
    rw [Encoder.within, hrun]
  · refine .inr ⟨wrap e, e', s, ?_, hput, himp e hfailure⟩
    rw [Encoder.within, hrun]

/-- Encoders one behind the other write their bytes one behind the other. -/
theorem bind {first second : Encoder ε Unit} {a b : Bytes} (ha : Emits failure first a)
    (hb : Emits failure second b) : Emits failure (do first; second) (a ++ b) := by
  intro sink
  rw [bind_apply, put_append, bind_apply]
  rcases ha sink with ⟨s, hrun, hput⟩ | ⟨e, e', s, hrun, hput, hfailure⟩
  · rw [hrun, hput]
    exact hb s
  · rw [hrun, hput]
    exact .inr ⟨e, e', s, rfl, rfl, hfailure⟩

/-- An encoder for each element, one behind the other. -/
lemma forM {α : Type} {encode : α → Encoder ε Unit} {bytes : α → Bytes} {l : List α}
    (h : ∀ a ∈ l, Emits failure (encode a) (bytes a)) :
    Emits failure (l.forM encode) (l.flatMap bytes) := by
  induction l with
  | nil => exact emits_pure
  | cons a l ih =>
    obtain ⟨ha, hl⟩ := List.forall_mem_cons.mp h
    rw [List.flatMap_cons]
    exact ha.bind (ih hl)

/-- A bounded sink has the beginning of the bytes, as far as it had room for them. -/
lemma fills {encoder : Encoder ε Unit} {bytes : Bytes} (h : Emits failure encoder bytes)
    (room : Nat) (written : Bytes) :
    Fills failure bytes room written (encoder ⟨some room, written⟩) := by
  by_cases hroom : bytes.length ≤ room
  · have hput : put bytes ⟨some room, written⟩ =
        (.ok (), ⟨some (room - bytes.length), written ++ bytes⟩) := if_pos hroom
    rcases h ⟨some room, written⟩ with ⟨s, hrun, hput'⟩ | ⟨e, e', s, -, hput', -⟩
    · cases hput.symm.trans hput'
      rw [hrun]
      refine ⟨?_, iff_of_true rfl hroom, fun e he => nomatch he⟩
      rw [List.take_of_length_le hroom]
    · cases hput.symm.trans hput'
  · have hput : put bytes ⟨some room, written⟩ =
        (.error .full, ⟨some 0, written ++ bytes.take room⟩) := if_neg hroom
    rcases h ⟨some room, written⟩ with ⟨s, -, hput'⟩ | ⟨e, e', s, hrun, hput', hfailure⟩
    · cases hput.symm.trans hput'
    · cases hput.symm.trans hput'
      rw [hrun]
      refine ⟨?_, iff_of_false (fun he => nomatch he) hroom, ?_⟩
      · rw [Nat.sub_eq_zero_of_le (Nat.le_of_not_le hroom)]
      · intro e' he'
        exact Except.error.inj he' ▸ hfailure

/-- What is written into any sink, with room for all of it or not. -/
lemma writes {encoder : Encoder ε Unit} {bytes : Bytes} (h : Emits failure encoder bytes) :
    Writes failure encoder bytes :=
  ⟨h.eq_of_unbounded, h.fills⟩

end Emits

end RecordStore.Encoder
