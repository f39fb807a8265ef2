import Mathlib
import RecordStore.Proofs.Outcome
import RecordStore.Proofs.Record.Field
import RecordStore.Proofs.Value.Made
import RecordStore.Record.Field

/-!
# Written fields are read back

Writing goes piece by piece over the front of a buffer: a length and a payload, a tag and the field
behind it. Two pieces one behind the other are one piece, so a whole field is put into the buffer as
one. What was put is then a field of its type, whose size and value are read back whatever bytes
follow it.
-/

namespace RecordStore.Field

/-! ### Pieces of a field -/

@[simp] lemma put_nil (out : Bytes) : put [] out = .ok (0, out) := by
  simp [put, Bytes.overwrite]

/-- What fits gives way to as many bytes at the front. -/
lemma put_of_le {bytes out : Bytes} (h : bytes.length ≤ out.length) :
    put bytes out = .ok (bytes.length, bytes ++ out.drop bytes.length) := by
  simp [put, h, Bytes.overwrite]

lemma put_of_lt {bytes out : Bytes} (h : out.length < bytes.length) :
    put bytes out = .error .outOfBounds := by
  rw [put, if_neg]
  simpa using h

/-- Behind a piece the rest of the buffer is written as a buffer of its own. -/
lemma putBehind_eq (front rest : Bytes) (next : Bytes → Except Fault (Nat × Bytes)) :
    putBehind (front.length, front ++ rest) next =
      (fun written => (front.length + written.1, front ++ written.2)) <$> next rest := by
  simp only [putBehind, List.drop_left, List.take_left]
  rfl

/-- Two pieces one behind the other are one piece. -/
lemma put_append (front back out : Bytes) :
    (do putBehind (← put front out) (put back)) = put (front ++ back) out := by
  have hlength : (front ++ back).length = front.length + back.length := List.length_append
  by_cases hfront : front.length ≤ out.length
  · rw [put_of_le hfront, ok_bind, putBehind_eq]
    have hrest : (out.drop front.length).length = out.length - front.length := List.length_drop
    by_cases hback : back.length ≤ (out.drop front.length).length
    · rw [put_of_le hback, put_of_le (by omega), List.drop_drop, hlength, List.append_assoc]
      rfl
    · rw [put_of_lt (Nat.not_le.mp hback), put_of_lt (by omega)]
      rfl
  · rw [put_of_lt (Nat.not_le.mp hfront), put_of_lt (by omega)]
    rfl

lemma writePlain_eq (t : ValueType) (v : Value) (out : Bytes) :
    writePlain t v out = put (encodePlain t v) out := by
  cases t with
  | null w | dynamic w => exact (put_nil out).symm
  | integer w flags | objectId w => rfl
  | decimal w => cases w <;> rfl
  | string w => exact put_append _ _ out

/-- A field is put into the buffer as a whole. -/
theorem write_eq (t : ValueType) (v : Value) (out : Bytes) :
    write t v out = put (encode t v) out := by
  cases t with
  | dynamic w =>
    have hplain : writePlain v.storedType v = put (encodePlain v.storedType v) :=
      funext (writePlain_eq v.storedType v)
    rw [write, hplain]
    exact put_append _ _ out
  | null w | integer w flags | decimal w | objectId w | string w =>
    simp only [write, encode, writePlain_eq]

/-! ### Back and forth -/

/-- The bytes are read as one field that holds the value, whatever follows them. In a dynamic column
they carry the type of the value. -/
structure Carries (t : ValueType) (v : Value) (field : Bytes) : Prop where
  size : ∀ rest, size? t (field ++ rest) = some field.length
  value : ∀ rest, decode? t (field ++ rest) = some v.stored
  tag : t.isDynamic = true → ∀ rest, tagged? (field ++ rest) = some v.storedType

lemma tagged?_encode {t : ValueType} {v : Value} (h : t.isDynamic = true) (named : v.type.Named)
    (rest : Bytes) : tagged? (encode t v ++ rest) = some v.storedType := by
  cases t with
  | dynamic w =>
    rw [encode, List.append_assoc]
    exact tagged?_append (isDynamic_storedType v) (named_storedType.mpr named) _
  | null w | integer w flags | decimal w | objectId w | string w => cases h

lemma carries_encode {t : ValueType} {v : Value} (hv : v.Proper) (ht : Fits t v)
    (htells : t.Tells v.type) : Carries t v (encode t v) where
  size := size?_append (isField_encode hv ht) (legible_encode_iff.mpr htells)
  value rest := by
    rw [decode?_append (isField_encode hv ht), value_encode hv ht (legible_encode_iff.mpr htells)]
  tag h := tagged?_encode h (htells h)

/-- In a dynamic column a type that is read from its tag is a named one. -/
lemma Carries.named {t : ValueType} {v : Value} {field : Bytes} (h : Carries t v field)
    (ht : t.isDynamic = true) : v.type.Named := by
  obtain ⟨-, named, -⟩ := exists_of_tagged? (h.tag ht [])
  exact named_storedType.mp named

/-- Any value that there is, converted to the type of the field, is written over as many leading
bytes as its size says. It is read back from them, the same value of the same type but for nulls
and placeholders, which are all read as the plain null, unless the field is to tell a type that has
a flag without a name. -/
theorem written_is_read (t : ValueType) {v : Value} (hv : v.Made) {out : Bytes}
    (hroom : encodedSize t (v.convertTo t) ≤ out.length) :
    ∃ field : Bytes, field.length = encodedSize t (v.convertTo t) ∧
      write t (v.convertTo t) out = .ok (field.length, field ++ out.drop field.length) ∧
      (Carries t (v.convertTo t) field ↔ t.Tells v.type) := by
  have hproper : (v.convertTo t).Proper := Value.proper_convertTo hv.proper t
  have hfits := fits_convertTo t v
  have hkeeps : t.isDynamic = true → v.convertTo t = v := by
    cases t with
    | dynamic w => exact fun _ => v.convertTo_dynamic w
    | null w | integer w flags | decimal w | objectId w | string w => exact nofun
  refine ⟨encode t (v.convertTo t), length_encode hfits, ?_, fun h ht => ?_, fun htells => ?_⟩
  · rw [write_eq, put_of_le]
    rwa [length_encode hfits]
  · rw [← hkeeps ht]
    exact h.named ht
  · refine carries_encode hproper hfits fun ht => ?_
    rw [hkeeps ht]
    exact htells ht

/-- Minus two in sixteen bits goes behind its tag over the first six of eight bytes. -/
theorem written_is_read_minus_two :
    (Value.ofInt (.integer .bits16 true) (-2)).Made ∧
      write (.dynamic .bits8) (.integer .bits16 true (-2)) (List.replicate 8 255) =
        .ok (6, [2, 1, 1, 0, 254, 255, 255, 255]) ∧
      Carries (.dynamic .bits8) (.integer .bits16 true (-2)) [2, 1, 1, 0, 254, 255] := by
  have hmade : (Value.ofInt (.integer .bits16 true) (-2)).Made := .ofInt _ _
  have hwrite : write (.dynamic .bits8) (.integer .bits16 true (-2)) (List.replicate 8 255) =
      .ok (6, [2, 1, 1, 0, 254, 255, 255, 255]) := by decide
  have hroom : encodedSize (.dynamic .bits8) (.integer .bits16 true (-2)) ≤
      (List.replicate 8 (255 : UInt8)).length := by decide
  obtain ⟨field, hlength, hfield, hiff⟩ := written_is_read (.dynamic .bits8) hmade hroom
  have hcarries := hiff.mpr fun _ => rfl
  have hsix : field.length = 6 := hlength
  have hbytes : field ++ [255, 255] = [2, 1, 1, 0, 254, 255] ++ [255, 255] := by
    rw [hsix] at hfield
    exact (Prod.mk.inj (Except.ok.inj (hfield.symm.trans hwrite))).2
  rw [List.append_cancel_right hbytes] at hcarries
  exact ⟨hmade, hwrite, hcarries⟩

/-- Five in eight bits, under a flag without a name, goes behind the tag of its type. No reader
knows this tag, so that it is read as null and has no size. -/
theorem byte_of_unnamed_flag_not_read :
    (Value.ofInt (.integer .bits8 ⟨false, 1⟩) 5).Made ∧
      write (.dynamic .bits8) (.integer .bits8 ⟨false, 1⟩ 5) (Bytes.zeros 5) =
        .ok (5, [2, 0, 2, 0, 5]) ∧
      size? (.dynamic .bits8) [2, 0, 2, 0, 5] = none ∧
      decode? (.dynamic .bits8) [2, 0, 2, 0, 5] = some .plainNull ∧
      ¬ Carries (.dynamic .bits8) (.integer .bits8 ⟨false, 1⟩ 5) [2, 0, 2, 0, 5] := by
  refine ⟨.ofInt _ _, by decide, by decide, by decide, fun h => ?_⟩
  exact absurd (h.named rfl) (by decide)

end RecordStore.Field
