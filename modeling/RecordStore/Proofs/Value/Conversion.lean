import Mathlib
import RecordStore.Proofs.Value.Made

/-!
# Conversion saturates

Converting a value to a type is a projection onto the values of the type: an integer goes to the
nearest integer of the range, a string to its longest start that fits, a value of another kind to
zero. Converting again changes nothing, and a detour over a type with a wider range does not show.
-/

namespace RecordStore

/-! ### Ranges -/

/-- What a value holds, apart from its type. -/
inductive Payload
  | none
  | integer (n : Int)
  | decimal (x : Decimal)
  | objectId (id : ObjectId)
  | bytes (bytes : Bytes)

def Value.payload : Value → Payload
  | .null _ | .dynamic _ => .none
  | .integer _ _ n => .integer n
  | .decimal _ x => .decimal x
  | .objectId _ id => .objectId id
  | .string _ bytes => .bytes bytes

/-- All that values of the type can hold. -/
def ValueType.range (t : ValueType) : Set Payload :=
  {p | ∃ v : Value, v.Proper ∧ v.type = t ∧ v.payload = p}

lemma Value.eq_of_payload_eq {v v' : Value} (htype : v.type = v'.type)
    (hpayload : v.payload = v'.payload) : v = v' := by
  cases v <;> cases v' <;> simp_all [type, payload]

lemma ValueType.payload_mem_range (v : Value) : v.payload ∈ v.type.range ↔ v.Proper := by
  constructor
  · rintro ⟨v', hv', htype, hpayload⟩
    exact Value.eq_of_payload_eq htype hpayload ▸ hv'
  · intro hv
    exact ⟨v, hv, rfl, rfl⟩

namespace ValueType

variable {w w' : Width} {flags flags' : Flags}

lemma integer_mem_range {n : Int} :
    .integer n ∈ (integer w flags).range ↔
      w.least flags.signed ≤ n ∧ n ≤ w.greatest flags.signed :=
  payload_mem_range (.integer w flags n)

lemma decimal_mem_range {x : Decimal} :
    .decimal x ∈ (decimal w).range ↔ (w ≠ .bits64 → x.roundToSingle = x) :=
  payload_mem_range (.decimal w x)

lemma bytes_mem_range {bytes : Bytes} :
    .bytes bytes ∈ (string w).range ↔ bytes.length ≤ w.maxLength :=
  payload_mem_range (.string w bytes)

lemma bounds_of_range_subset (h : (integer w' flags').range ⊆ (integer w flags).range) :
    w.least flags.signed ≤ w'.least flags'.signed ∧
      w'.greatest flags'.signed ≤ w.greatest flags.signed := by
  have hrange : w'.least flags'.signed ≤ w'.greatest flags'.signed := by
    cases w' <;> cases flags'.signed <;> decide
  have hleast := integer_mem_range.mp (h (integer_mem_range.mpr ⟨le_rfl, hrange⟩))
  have hgreatest := integer_mem_range.mp (h (integer_mem_range.mpr ⟨hrange, le_rfl⟩))
  exact ⟨hleast.1, hgreatest.2⟩

lemma maxLength_of_range_subset (h : (string w').range ⊆ (string w).range) :
    w'.maxLength ≤ w.maxLength := by
  have hlength : (Bytes.zeros w'.maxLength).length = w'.maxLength := Bytes.length_zeros _
  have hmem := bytes_mem_range.mp (h (bytes_mem_range.mpr hlength.le))
  rwa [hlength] at hmem

/-- The smallest positive decimal of 64 bits is none of 32 bits. -/
lemma width_of_range_subset (h : (decimal w').range ⊆ (decimal w).range) (hw : w ≠ .bits64) :
    w' ≠ .bits64 := by
  rintro rfl
  have hmem : Payload.decimal ⟨1⟩ ∈ (decimal .bits64).range :=
    decimal_mem_range.mpr fun hne => absurd rfl hne
  have hround := decimal_mem_range.mp (h hmem) hw
  exact absurd hround (by decide +kernel)

end ValueType

namespace Value

/-! ### Conversion by kind -/

variable {w w' : Width} {flags flags' : Flags} {n : Int} {x : Decimal} {bytes : Bytes} {v : Value}

lemma convertTo_integer (h : (integer w flags n).Proper) :
    (integer w flags n).convertTo (.integer w' flags') =
      .integer w' flags' (w'.saturate flags'.signed n) := by
  rw [convertTo]
  split
  · rename_i htype
    cases htype
    rw [Width.saturate_of_mem h]
  · rfl

lemma ofDecimal_decimal (w : Width) (x : Decimal) :
    ofDecimal (.decimal w) x = .decimal w (if w = .bits64 then x else x.roundToSingle) := by
  cases w <;> rfl

lemma convertTo_decimal (h : (decimal w x).Proper) :
    (decimal w x).convertTo (.decimal w') =
      .decimal w' (if w' = .bits64 then x else x.roundToSingle) := by
  rw [convertTo]
  split
  · rename_i htype
    cases htype
    split_ifs with hw
    · rfl
    · rw [h hw]
  · exact ofDecimal_decimal w' x

lemma convertTo_string (h : (string w bytes).Proper) :
    (string w bytes).convertTo (.string w') = .string w' (bytes.take w'.maxLength) := by
  rw [convertTo]
  split
  · rename_i htype
    cases htype
    rw [List.take_of_length_le h]
  · rfl

lemma convertTo_null : (null w).convertTo (.null w') = .null w' := by
  cases w <;> cases w' <;> rfl

lemma convertTo_objectId {id : ObjectId} :
    (objectId w id).convertTo (.objectId w') = .objectId w' id := by
  cases w <;> cases w' <;> rfl

lemma convertTo_of_isDynamic (v : Value) {t : ValueType} (h : t.isDynamic = true) :
    v.convertTo t = v := by
  cases t with
  | dynamic w => exact convertTo_dynamic v w
  | null | integer | decimal | objectId | string => cases h

lemma convertTo_of_kind_ne {t : ValueType} (hkind : v.type.kind ≠ t.kind)
    (hdynamic : t.isDynamic = false) : v.convertTo t = zero t := by
  have htype : v.type ≠ t := fun heq => hkind (congrArg _ heq)
  unfold convertTo
  rw [if_neg htype]
  split
  · cases hdynamic
  · exact absurd rfl hkind
  · exact absurd rfl hkind
  · exact absurd rfl hkind
  · exact absurd rfl hkind
  · exact absurd rfl hkind
  · rfl

/-- Zero stays zero. -/
lemma convertTo_zero {t t' : ValueType} (hkind : t'.kind = t.kind)
    (hdynamic : t.isDynamic = false) : (zero t).convertTo t' = zero t' := by
  have hproper := proper_zero t
  cases t with
  | null w => cases t' <;> cases hkind; exact convertTo_null
  | dynamic w => cases hdynamic
  | integer w flags =>
    cases t' <;> cases hkind
    rename_i w' flags'
    have hproper' := proper_zero (.integer w' flags')
    rw [zero, convertTo_integer hproper, zero, Width.saturate_of_mem hproper']
  | decimal w =>
    cases t' <;> cases hkind
    rw [zero, convertTo_decimal hproper, zero, Decimal.roundToSingle_zero, ite_self]
  | objectId w => cases t' <;> cases hkind; exact convertTo_objectId
  | string w =>
    cases t' <;> cases hkind
    rw [zero, convertTo_string hproper, zero, List.take_nil]

/-! ### Projections -/

theorem convertTo_idempotent (v : Value) (t : ValueType) :
    (v.convertTo t).convertTo t = v.convertTo t := by
  cases hdynamic : t.isDynamic with
  | true => exact convertTo_of_isDynamic _ hdynamic
  | false =>
    have hself := convertTo_self (v.convertTo t)
    rwa [type_convertTo v hdynamic] at hself

lemma saturate_saturate {signed signed' : Bool} {n : Int}
    (hleast : w.least signed ≤ w'.least signed')
    (hgreatest : w'.greatest signed' ≤ w.greatest signed) :
    w'.saturate signed' (w.saturate signed n) = w'.saturate signed' n := by
  rw [Width.saturate, Width.saturate, Width.saturate]
  omega

/-- A detour over a type of the same kind with a wider range does not show. -/
theorem convertTo_convertTo (h : v.Proper) {t t' : ValueType} (hkind : t'.kind = t.kind)
    (hrange : t'.range ⊆ t.range) : (v.convertTo t).convertTo t' = v.convertTo t' := by
  by_cases hv : v.type.kind = t.kind
  · have hproper := proper_convertTo h t
    match t, t', hkind with
    | .null _, .null _, _ =>
      cases v <;> cases hv
      rw [convertTo_null, convertTo_null, convertTo_null]
    | .dynamic _, .dynamic _, _ => rw [convertTo_dynamic, convertTo_dynamic, convertTo_dynamic]
    | .objectId _, .objectId _, _ =>
      cases v <;> cases hv
      rw [convertTo_objectId, convertTo_objectId, convertTo_objectId]
    | .integer _ _, .integer _ _, _ =>
      cases v <;> cases hv
      obtain ⟨hleast, hgreatest⟩ := ValueType.bounds_of_range_subset hrange
      rw [convertTo_integer h] at hproper ⊢
      rw [convertTo_integer hproper, convertTo_integer h, saturate_saturate hleast hgreatest]
    | .decimal w, .decimal w', _ =>
      cases v <;> cases hv
      have hwidth : w ≠ .bits64 → w' ≠ .bits64 := ValueType.width_of_range_subset hrange
      rw [convertTo_decimal h] at hproper ⊢
      rw [convertTo_decimal hproper, convertTo_decimal h]
      split_ifs with hw' hw
      · rfl
      · exact absurd hw' (hwidth hw)
      · rfl
      · rw [Decimal.roundToSingle_idempotent]
    | .string _, .string _, _ =>
      cases v <;> cases hv
      have hlength := ValueType.maxLength_of_range_subset hrange
      rw [convertTo_string h] at hproper ⊢
      rw [convertTo_string hproper, convertTo_string h, List.take_take, Nat.min_eq_left hlength]
  · cases hdynamic : t.isDynamic with
    | true => rw [convertTo_of_isDynamic v hdynamic]
    | false =>
      have hdynamic' : t'.isDynamic = false := by
        rw [ValueType.isDynamic, hkind]
        exact hdynamic
      rw [convertTo_of_kind_ne hv hdynamic, convertTo_zero hkind hdynamic,
        convertTo_of_kind_ne (hkind ▸ hv) hdynamic']

/-- What the type can hold is kept. -/
lemma payload_convertTo (h : v.Proper) {t : ValueType} (hmem : v.payload ∈ t.range) :
    (v.convertTo t).payload = v.payload := by
  obtain ⟨v', hv', rfl, hpayload⟩ := hmem
  by_cases hkind : v.type.kind = v'.type.kind
  · match v, v', hkind with
    | .null _, .null _, _ => rw [type, convertTo_null]; rfl
    | .dynamic _, .dynamic _, _ => rw [type, convertTo_dynamic]
    | .objectId _ _, .objectId _ _, _ => rw [type, convertTo_objectId]; rfl
    | .integer _ _ n, .integer _ _ _, _ =>
      cases hpayload
      rw [type, convertTo_integer h, Width.saturate_of_mem hv']
      rfl
    | .decimal _ x, .decimal w _, _ =>
      cases hpayload
      have hround : (if w = .bits64 then x else x.roundToSingle) = x := by
        split_ifs with hw
        · rfl
        · exact hv' hw
      rw [type, convertTo_decimal h, hround]
      rfl
    | .string _ bytes, .string _ _, _ =>
      cases hpayload
      rw [type, convertTo_string h, List.take_of_length_le hv']
      rfl
  · -- of different kinds only nulls and placeholders hold the same, which is nothing
    cases v <;> cases v' <;> cases hpayload
    · exact absurd rfl hkind
    · rw [type, convertTo_dynamic]
    · rfl
    all_goals exact absurd rfl hkind

end Value

/-! ### Nearest and longest -/

/-- Of all integers of the set `m` is nearest to `n`, and no other is as near. -/
structure IsNearest (s : Set Int) (n m : Int) : Prop where
  mem : m ∈ s
  nearer : ∀ k ∈ s, k ≠ m → |n - m| < |n - k|

lemma Width.isNearest_saturate (w : Width) (signed : Bool) (n : Int) :
    IsNearest (Set.Icc (w.least signed) (w.greatest signed)) n (w.saturate signed n) := by
  refine ⟨Set.mem_Icc.mpr (w.saturate_mem signed n), fun k hk hne => ?_⟩
  obtain ⟨hleast, hgreatest⟩ := Set.mem_Icc.mp hk
  rw [saturate] at hne ⊢
  rw [abs_eq_max_neg, abs_eq_max_neg]
  omega

/-- The longest start of a string within a length. -/
structure IsLongestStart (limit : Nat) (bytes kept : Bytes) : Prop where
  start : kept <+: bytes
  length_le : kept.length ≤ limit
  longest : ∀ start, start <+: bytes → start.length ≤ limit → start <+: kept

lemma isLongestStart_take (limit : Nat) (bytes : Bytes) :
    IsLongestStart limit bytes (bytes.take limit) := by
  refine ⟨List.take_prefix limit bytes, List.length_take_le limit bytes, fun start hstart hle => ?_⟩
  rw [List.prefix_take_iff]
  exact ⟨hstart, hle⟩

namespace Value

/-! ### The projection -/

/-- Converting `v` to `t` is the projection onto the values of the type. -/
structure Saturates (v : Value) (t : ValueType) : Prop where
  unchanged : t.isDynamic = true → v.convertTo t = v
  type_eq : t.isDynamic = false → (v.convertTo t).type = t
  proper : (v.convertTo t).Proper
  single : ∀ w x, v.convertTo t = .decimal w x → w ≠ .bits64 → ∃ bits, x = .ofSingle bits
  integer : ∀ w flags n w' flags', v = .integer w flags n → t = .integer w' flags' →
    ∃ m, v.convertTo t = .integer w' flags' m ∧
      IsNearest (Set.Icc (w'.least flags'.signed) (w'.greatest flags'.signed)) n m
  string : ∀ w bytes w', v = .string w bytes → t = .string w' →
    ∃ kept, v.convertTo t = .string w' kept ∧ IsLongestStart w'.maxLength bytes kept
  zero : v.type.kind ≠ t.kind → t.isDynamic = false → v.convertTo t = .zero t
  kept : v.payload ∈ t.range → (v.convertTo t).payload = v.payload
  idempotent : (v.convertTo t).convertTo t = v.convertTo t
  narrows : ∀ t', t'.kind = t.kind → t'.range ⊆ t.range →
    (v.convertTo t).convertTo t' = v.convertTo t'

/-- Every value that is made is converted to every type by projection. -/
theorem conversion_saturates {v : Value} (h : v.Made) (t : ValueType) : Saturates v t where
  unchanged := convertTo_of_isDynamic v
  type_eq := type_convertTo v
  proper := proper_convertTo h.proper t
  single := by
    intro w x heq hw
    have hproper := proper_convertTo h.proper t
    rw [heq] at hproper
    exact ⟨x.toSingle, (hproper hw).symm⟩
  integer := by
    rintro w flags n w' flags' rfl rfl
    exact ⟨w'.saturate flags'.signed n, convertTo_integer h.proper,
      w'.isNearest_saturate flags'.signed n⟩
  string := by
    rintro w bytes w' rfl rfl
    exact ⟨bytes.take w'.maxLength, convertTo_string h.proper, isLongestStart_take _ bytes⟩
  zero := convertTo_of_kind_ne
  kept := payload_convertTo h.proper
  idempotent := convertTo_idempotent v t
  narrows := fun _ hkind hrange => convertTo_convertTo h.proper hkind hrange

/-- The greatest unsigned integer becomes the greatest signed one, the nearest of its range. -/
theorem greatest_unsigned_saturates :
    (Value.integer .bits64 false (2 ^ 64 - 1)).Made ∧
      (Value.integer .bits64 false (2 ^ 64 - 1)).Saturates (.integer .bits64 true) ∧
      (Value.integer .bits64 false (2 ^ 64 - 1)).convertTo (.integer .bits64 true) =
        .integer .bits64 true (2 ^ 63 - 1) :=
  have hmade : (Value.integer .bits64 false (2 ^ 64 - 1)).Made := made_of_proper (by decide)
  ⟨hmade, conversion_saturates hmade _, by decide⟩

end Value

end RecordStore
