import Mathlib
import RecordStore.Proofs.Value.Proper

/-!
# The grammar of fields

`IsField t bytes` says that the bytes are one field of type `t`: the bytes of a fixed size, a
string behind its length, or a field behind the tag of its own type. What is written for a proper
value is a field. A field is legible unless its own type has a flag without a name, so that no
reader knows its tag. The readers accept exactly the byte strings that start with a legible field,
whatever follows, and read back what is written for a value of a named type as it is stored.
-/

namespace RecordStore

/-! ### Numbers at the front -/

namespace LittleEndian

lemma drop_encode_append (width n : Nat) (rest : Bytes) :
    (encode width n ++ rest).drop width = rest :=
  List.drop_left' (length_encode width n)

lemma take_encode_append (width n : Nat) (rest : Bytes) :
    (encode width n ++ rest).take width = encode width n :=
  List.take_left' (length_encode width n)

/-- Bytes that are numerous enough start with a numeral. -/
lemma exists_encode_append {width : Nat} {bytes : Bytes} (h : width ≤ bytes.length) :
    ∃ n rest, n < 256 ^ width ∧ bytes = encode width n ++ rest := by
  have hlen : (bytes.take width).length = width := List.length_take_of_le h
  refine ⟨decode (bytes.take width), bytes.drop width, ?_, ?_⟩
  · have := decode_lt (bytes.take width)
    rwa [hlen] at this
  · have := encode_decode (bytes.take width)
    rw [hlen] at this
    rw [this, List.take_append_drop]

end LittleEndian

namespace Field

/-! ### Fields and their readers -/

/-- The bytes are one field of the type. -/
inductive IsField : ValueType → Bytes → Prop
  | fixed {t : ValueType} {bytes : Bytes} (size : t.fixedSize? = some bytes.length) :
      IsField t bytes
  | string {w : Width} {payload : Bytes} (fits : payload.length ≤ w.maxLength) :
      IsField (.string w) (LittleEndian.encode w.lengthBytes payload.length ++ payload)
  | dynamic {w : Width} {inner : ValueType} {bytes : Bytes} (plain : inner.isDynamic = false)
      (field : IsField inner bytes) :
      IsField (.dynamic w) (LittleEndian.encode tagBytes inner.tag ++ bytes)

/-- The tag in front of a field of a dynamic column is one that is read. -/
def Legible (t : ValueType) (bytes : Bytes) : Prop :=
  t.isDynamic = true → (tagged? bytes).isSome = true

instance (t : ValueType) (bytes : Bytes) : Decidable (Legible t bytes) :=
  inferInstanceAs (Decidable (_ → _))

lemma legible_of_plain {t : ValueType} (h : t.isDynamic = false) (bytes : Bytes) :
    Legible t bytes := fun hdynamic => by
  rw [h] at hdynamic
  cases hdynamic

lemma number?_encode_append {width n : Nat} (h : n < 256 ^ width) (rest : Bytes) :
    number? width (LittleEndian.encode width n ++ rest) = some n := by
  rw [number?, if_pos (by simp), LittleEndian.take_encode_append,
    LittleEndian.decode_encode_of_lt h]

lemma exists_of_number? {width n : Nat} {bytes : Bytes} (h : number? width bytes = some n) :
    n < 256 ^ width ∧ ∃ rest, bytes = LittleEndian.encode width n ++ rest := by
  unfold number? at h
  split at h
  · rename_i hlen
    obtain ⟨m, rest, hm, rfl⟩ := LittleEndian.exists_encode_append (Bytes.atLeast_eq_true.mp hlen)
    rw [LittleEndian.take_encode_append, LittleEndian.decode_encode_of_lt hm] at h
    cases h
    exact ⟨hm, rest, rfl⟩
  · cases h

/-- The tag of a named type is read, whatever follows. -/
lemma tagged?_append {inner : ValueType} (plain : inner.isDynamic = false) (named : inner.Named)
    (rest : Bytes) :
    tagged? (LittleEndian.encode tagBytes inner.tag ++ rest) = some inner := by
  rw [tagged?, number?_encode_append (ValueType.tag_lt inner)]
  simp [ValueType.ofTag_tag named, plain, Except.toOption]

/-- The tag of any other type is not. -/
lemma tagged?_append_of_not_named {inner : ValueType} (h : ¬ inner.Named) (rest : Bytes) :
    tagged? (LittleEndian.encode tagBytes inner.tag ++ rest) = none := by
  rw [tagged?, number?_encode_append (ValueType.tag_lt inner)]
  simp [ValueType.ofTag_tag_of_not_named h, Except.toOption]

lemma legible_append_iff {w : Width} {inner : ValueType} (plain : inner.isDynamic = false)
    (rest : Bytes) :
    Legible (.dynamic w) (LittleEndian.encode tagBytes inner.tag ++ rest) ↔ inner.Named := by
  constructor
  · intro h
    by_contra hnamed
    have hsome := h rfl
    rw [tagged?_append_of_not_named hnamed] at hsome
    cases hsome
  · intro hnamed _
    rw [tagged?_append plain hnamed]
    rfl

lemma lt_of_le_maxLength {w : Width} {n : Nat} (h : n ≤ w.maxLength) :
    n < 256 ^ w.lengthBytes := by
  have : 0 < 256 ^ w.lengthBytes := Nat.pow_pos (by omega)
  rw [Width.maxLength] at h
  omega

lemma plainSize?_append {t : ValueType} {bytes : Bytes} (ht : t.isDynamic = false)
    (h : IsField t bytes) (rest : Bytes) : plainSize? t (bytes ++ rest) = some bytes.length := by
  cases h with
  | fixed size =>
    cases t with
    | string w | dynamic w => cases size
    | null w | integer w flags | decimal w | objectId w => simp [plainSize?, size]
  | string fits =>
    rw [plainSize?, List.append_assoc, number?_encode_append (lt_of_le_maxLength fits)]
    simp
  | dynamic plain field => cases ht

lemma size?_of_plain {t : ValueType} (h : t.isDynamic = false) (bytes : Bytes) :
    size? t bytes = plainSize? t bytes := by
  cases t with
  | dynamic w => cases h
  | null w | integer w flags | decimal w | objectId w | string w => rfl

/-- A legible field is as long as its reader says, whatever follows. -/
theorem size?_append {t : ValueType} {bytes : Bytes} (h : IsField t bytes)
    (legible : Legible t bytes) (rest : Bytes) : size? t (bytes ++ rest) = some bytes.length := by
  cases t with
  | dynamic w =>
    cases h with
    | fixed size => cases size
    | dynamic plain field =>
      rename_i inner payload
      have named := (legible_append_iff plain payload).mp legible
      rw [size?, List.append_assoc, tagged?_append plain named, LittleEndian.drop_encode_append]
      simp [plainSize?_append plain field]
  | null w | integer w flags | decimal w | objectId w | string w =>
    exact plainSize?_append rfl h rest

/-- Of a field that is not legible no reader tells the size. -/
theorem size?_eq_none {t : ValueType} {bytes : Bytes} (h : IsField t bytes)
    (illegible : ¬ Legible t bytes) (rest : Bytes) : size? t (bytes ++ rest) = none := by
  cases t with
  | dynamic w =>
    cases h with
    | fixed size => cases size
    | dynamic plain field =>
      have named := mt (legible_append_iff plain _).mpr illegible
      rw [size?, List.append_assoc, tagged?_append_of_not_named named]
      rfl
  | null w | integer w flags | decimal w | objectId w | string w =>
    exact absurd (legible_of_plain rfl bytes) illegible

lemma exists_of_fixedSize? {t : ValueType} {bytes : Bytes} {n : Nat} (ht : t.fixedSize?.isSome)
    (h : plainSize? t bytes = some n) :
    ∃ field rest, bytes = field ++ rest ∧ field.length = n ∧ IsField t field := by
  obtain ⟨size, hsize⟩ := Option.isSome_iff_exists.mp ht
  have hplain : plainSize? t bytes = if Bytes.atLeast size bytes then some size else none := by
    cases t with
    | string w | dynamic w => cases hsize
    | null w | integer w flags | decimal w | objectId w => simp [plainSize?, hsize]
  rw [hplain] at h
  split at h
  · rename_i hlen
    cases h
    have htake : (bytes.take n).length = n := List.length_take_of_le (Bytes.atLeast_eq_true.mp hlen)
    exact ⟨bytes.take n, bytes.drop n, (List.take_append_drop n bytes).symm, htake,
      .fixed (by rw [htake]; exact hsize)⟩
  · cases h

lemma exists_of_plainSize? {t : ValueType} {bytes : Bytes} {n : Nat} (ht : t.isDynamic = false)
    (h : plainSize? t bytes = some n) :
    ∃ field rest, bytes = field ++ rest ∧ field.length = n ∧ IsField t field := by
  cases t with
  | dynamic w => cases ht
  | null w | integer w flags | decimal w | objectId w => exact exists_of_fixedSize? rfl h
  | string w =>
    simp only [plainSize?, Option.bind_eq_bind, Option.bind_eq_some_iff] at h
    obtain ⟨size, hsize, h⟩ := h
    obtain ⟨length, hnumber, rfl⟩ := Option.map_eq_some_iff.mp hsize
    obtain ⟨hlt, rest, rfl⟩ := exists_of_number? hnumber
    split at h
    · rename_i hlen
      cases h
      have hpayload : (rest.take length).length = length := by
        apply List.length_take_of_le
        simp only [Bytes.atLeast_eq_true, List.length_append, LittleEndian.length_encode] at hlen
        omega
      refine ⟨LittleEndian.encode w.lengthBytes length ++ rest.take length, rest.drop length, ?_,
        ?_, ?_⟩
      · rw [List.append_assoc, List.take_append_drop]
      · rw [List.length_append, LittleEndian.length_encode, hpayload]
      · have := @IsField.string w (rest.take length) (by
          rw [hpayload, Width.maxLength]
          omega)
        rwa [hpayload] at this
    · cases h

/-- A tag that is read is the tag of a named type. -/
lemma exists_of_tagged? {bytes : Bytes} {t : ValueType} (h : tagged? bytes = some t) :
    t.isDynamic = false ∧ t.Named ∧
      ∃ rest, bytes = LittleEndian.encode tagBytes t.tag ++ rest := by
  simp only [tagged?, Option.bind_eq_bind, Option.bind_eq_some_iff] at h
  obtain ⟨tag, hnumber, inner, hof, h⟩ := h
  obtain ⟨-, rest, rfl⟩ := exists_of_number? hnumber
  split at h
  · cases h
  · rename_i hplain
    cases h
    cases hok : ValueType.ofTag tag with
    | error e => rw [hok] at hof; cases hof
    | ok t' =>
      rw [hok] at hof
      cases hof
      obtain ⟨named, rfl⟩ := ValueType.ofTag_eq_ok_iff.mp hok
      exact ⟨by simpa using hplain, named, rest, rfl⟩

/-- Whatever the reader accepts starts with a legible field. -/
theorem exists_of_size? {t : ValueType} {bytes : Bytes} {n : Nat} (h : size? t bytes = some n) :
    ∃ field rest, bytes = field ++ rest ∧ field.length = n ∧ IsField t field ∧
      Legible t field := by
  cases t with
  | dynamic w =>
    simp only [size?, Option.bind_eq_bind, Option.bind_eq_some_iff] at h
    obtain ⟨inner, htag, h⟩ := h
    obtain ⟨m, hm, rfl⟩ := Option.map_eq_some_iff.mp h
    obtain ⟨hplain, hnamed, rest, rfl⟩ := exists_of_tagged? htag
    rw [LittleEndian.drop_encode_append] at hm
    obtain ⟨field, rest, rfl, rfl, hfield⟩ := exists_of_plainSize? hplain hm
    refine ⟨LittleEndian.encode tagBytes inner.tag ++ field, rest, ?_, ?_, .dynamic hplain hfield,
      (legible_append_iff hplain field).mpr hnamed⟩
    · rw [List.append_assoc]
    · rw [List.length_append, LittleEndian.length_encode]
  | null w | integer w flags | decimal w | objectId w | string w =>
    rw [size?_of_plain rfl] at h
    obtain ⟨field, rest, hbytes, hlength, hfield⟩ := exists_of_plainSize? rfl h
    exact ⟨field, rest, hbytes, hlength, hfield, legible_of_plain rfl field⟩

/-! ### Values of fields -/

/-- The value of a field. -/
def value (t : ValueType) (bytes : Bytes) : Value := (decode? t bytes).getD .plainNull

lemma number?_append {width : Nat} {bytes : Bytes} (h : bytes.length = width) (rest : Bytes) :
    number? width (bytes ++ rest) = some (LittleEndian.decode bytes) := by
  subst h
  rw [number?, if_pos (by simp), List.take_left]

lemma exists_decodePlain? {t : ValueType} {bytes : Bytes} (ht : t.isDynamic = false)
    (h : IsField t bytes) :
    ∃ v : Value, (∀ rest, decodePlain? t (bytes ++ rest) = some v) ∧ v.Proper ∧ v.stored = v ∧
      (v.type.Named ↔ t.Named) := by
  cases h with
  | fixed size =>
    cases t with
    | string w | dynamic w => cases size
    | null w => exact ⟨.plainNull, fun _ => rfl, trivial, rfl, iff_of_true rfl rfl⟩
    | integer w flags =>
      have hlen : bytes.length = w.bytes := (Option.some.inj size).symm
      refine ⟨.ofInt (.integer w flags) (w.wrap flags.signed (LittleEndian.decode bytes)),
        fun rest => ?_, Value.proper_ofInt _ _, rfl, Iff.rfl⟩
      rw [decodePlain?, number?_append hlen]
      rfl
    | decimal w =>
      by_cases hw : w = .bits64
      · subst hw
        have hlen : bytes.length = 8 := (Option.some.inj size).symm
        refine ⟨.decimal .bits64 ⟨UInt64.ofNat (LittleEndian.decode bytes)⟩, fun rest => ?_,
          fun hne => absurd rfl hne, rfl, Iff.rfl⟩
        rw [decodePlain?, number?_append hlen]
        rfl
      · have hlen : bytes.length = 4 := by
          rw [ValueType.fixedSize?, if_neg hw] at size
          exact (Option.some.inj size).symm
        refine ⟨.ofDecimal (.decimal w) (.ofSingle (UInt32.ofNat (LittleEndian.decode bytes))),
          fun rest => ?_, Value.proper_ofDecimal _ _, ?_, ?_⟩
        · cases w with
          | bits64 => exact absurd rfl hw
          | bits8 | bits16 | bits32 =>
            rw [decodePlain?, number?_append hlen]
            · rfl
            · exact hw
        · exact Value.stored_of_type (by rw [Value.type_ofDecimal]; rfl)
            (by rw [Value.type_ofDecimal]; rfl)
        · rw [Value.type_ofDecimal]
    | objectId w =>
      have hlen : bytes.length = 8 := (Option.some.inj size).symm
      refine ⟨.objectId w ⟨UInt64.ofNat (LittleEndian.decode bytes)⟩, fun rest => ?_, trivial, rfl,
        Iff.rfl⟩
      rw [decodePlain?, number?_append hlen]
      rfl
  | string fits =>
    rename_i w payload
    refine ⟨.ofBytesIn w payload, fun rest => ?_, Value.proper_ofBytesIn _ _, rfl, Iff.rfl⟩
    rw [decodePlain?, List.append_assoc, number?_encode_append (lt_of_le_maxLength fits)]
    simp
  | dynamic plain field => cases ht

/-- A field has one value, whatever follows it. -/
lemma exists_decode? {t : ValueType} {bytes : Bytes} (h : IsField t bytes) :
    ∃ v : Value, (∀ rest, decode? t (bytes ++ rest) = some v) ∧ v.Proper ∧ v.stored = v ∧
      (v.type.Named ↔ t.Named) := by
  cases t with
  | dynamic w =>
    cases h with
    | fixed size => cases size
    | dynamic plain field =>
      rename_i inner payload
      by_cases named : inner.Named
      · obtain ⟨v, hv, proper, stored, htype⟩ := exists_decodePlain? plain field
        refine ⟨v, fun rest => ?_, proper, stored, iff_of_true (htype.mpr named) rfl⟩
        rw [decode?, List.append_assoc, number?_encode_append (ValueType.tag_lt inner),
          LittleEndian.drop_encode_append]
        simp [ValueType.ofTag_tag named, plain, hv]
      · -- A tag that is not read stands for null.
        refine ⟨.plainNull, fun rest => ?_, trivial, rfl, iff_of_true rfl rfl⟩
        rw [decode?, List.append_assoc, number?_encode_append (ValueType.tag_lt inner)]
        simp [ValueType.ofTag_tag_of_not_named named]
  | null w | integer w flags | decimal w | objectId w | string w => exact exists_decodePlain? rfl h

theorem decode?_append {t : ValueType} {bytes : Bytes} (h : IsField t bytes) (rest : Bytes) :
    decode? t (bytes ++ rest) = some (value t bytes) := by
  obtain ⟨v, hv, -⟩ := exists_decode? h
  have hnil := hv []
  rw [List.append_nil] at hnil
  rw [hv rest, value, hnil]
  rfl

lemma value_eq {t : ValueType} {bytes : Bytes} {v : Value} (h : IsField t bytes)
    (hv : decode? t bytes = some v) : value t bytes = v := by
  have := decode?_append h []
  rw [List.append_nil, hv] at this
  exact (Option.some.inj this).symm

lemma proper_value {t : ValueType} {bytes : Bytes} (h : IsField t bytes) :
    (value t bytes).Proper := by
  obtain ⟨v, hv, proper, -⟩ := exists_decode? h
  have hnil := hv []
  rw [List.append_nil] at hnil
  rwa [value_eq h hnil]

lemma stored_value {t : ValueType} {bytes : Bytes} (h : IsField t bytes) :
    (value t bytes).stored = value t bytes := by
  obtain ⟨v, hv, -, stored, -⟩ := exists_decode? h
  have hnil := hv []
  rw [List.append_nil] at hnil
  rwa [value_eq h hnil]

/-- In a column of a named type every value is of one, and in no other column. -/
lemma named_value_iff {t : ValueType} {bytes : Bytes} (h : IsField t bytes) :
    (value t bytes).type.Named ↔ t.Named := by
  obtain ⟨v, hv, -, -, htype⟩ := exists_decode? h
  have hnil := hv []
  rw [List.append_nil] at hnil
  rw [value_eq h hnil]
  exact htype

/-- The value of a field of a string column is a string of the column. -/
lemma exists_value_string {w : Width} {bytes : Bytes} (h : IsField (.string w) bytes) :
    ∃ text, value (.string w) bytes = .string w text := by
  cases h with
  | fixed size => cases size
  | string fits =>
    rename_i payload
    have hdecode : decodePlain? (.string w)
        (LittleEndian.encode w.lengthBytes payload.length ++ payload) =
          some (.ofBytesIn w payload) := by
      rw [decodePlain?, number?_encode_append (lt_of_le_maxLength fits)]
      simp
    exact ⟨payload.take w.maxLength, congrArg (fun v : Option Value => v.getD .plainNull) hdecode⟩

/-! ### Fields that are written -/

lemma length_encodePlain {t : ValueType} {v : Value} (ht : t.isDynamic = false) (hv : v.type = t) :
    (encodePlain t v).length = plainSize t v := by
  subst hv
  cases v with
  | null w => rfl
  | dynamic w => cases ht
  | integer w flags n => exact LittleEndian.length_encode _ _
  | decimal w x => cases w <;> exact LittleEndian.length_encode _ _
  | objectId w id => exact id.length_toBytes
  | string w payload =>
    simp only [encodePlain, Value.type, plainSize, Value.size, Value.toBytes, List.length_append,
      LittleEndian.length_encode]

lemma isField_encodePlain {v : Value} (hd : v.type.isDynamic = false) (hv : v.Proper) :
    IsField v.type (encodePlain v.type v) := by
  cases v with
  | dynamic w => cases hd
  | string w payload => exact .string hv
  | null w | integer w flags n | decimal w x | objectId w id =>
    apply IsField.fixed
    rw [length_encodePlain hd rfl]
    rfl

/-- The type under which a column stores a value that is converted to it. -/
def Fits (t : ValueType) (v : Value) : Prop := t.isDynamic = false → v.type = t

lemma fits_convertTo (t : ValueType) (v : Value) : Fits t (v.convertTo t) := Value.type_convertTo v

lemma isDynamic_storedType (v : Value) : v.storedType.isDynamic = false := by
  unfold Value.storedType
  split
  · rfl
  · rename_i h
    simpa using h

lemma encodePlain_storedType_of_dynamic {v : Value} (h : v.type.isDynamic = true) :
    encodePlain v.storedType v = [] := by
  rw [Value.storedType, if_pos h]
  rfl

/-- What is written for a proper value is a field of the column. -/
theorem isField_encode {t : ValueType} {v : Value} (hv : v.Proper) (ht : Fits t v) :
    IsField t (encode t v) := by
  cases t with
  | dynamic w =>
    refine .dynamic (isDynamic_storedType v) ?_
    by_cases hd : v.type.isDynamic = true
    · rw [encodePlain_storedType_of_dynamic hd, Value.storedType, if_pos hd]
      exact .fixed rfl
    · rw [Value.storedType, if_neg hd]
      exact isField_encodePlain (by simpa using hd) hv
  | null w | integer w flags | decimal w | objectId w | string w =>
    have htype := ht rfl
    rw [← htype]
    rw [encode]
    · exact isField_encodePlain (by rw [htype]; rfl) hv
    · intro w hw
      rw [hw] at htype
      cases htype

lemma named_storedType {v : Value} : v.storedType.Named ↔ v.type.Named := by
  unfold Value.storedType
  split
  · rename_i hd
    have hkind : v.type.kind ≠ .integer := by
      intro hkind
      simp [ValueType.isDynamic, hkind] at hd
    refine ⟨fun _ => ?_, fun _ => rfl⟩
    rw [ValueType.Named, ValueType.flags_eq_empty hkind]
    rfl
  · rfl

/-- What is written is legible, unless a dynamic column is to tell a type that is not named. -/
lemma legible_encode_iff {t : ValueType} {v : Value} :
    Legible t (encode t v) ↔ t.Tells v.type := by
  cases t with
  | dynamic w =>
    refine ((legible_append_iff (isDynamic_storedType v) _).trans named_storedType).trans ?_
    exact ⟨fun named _ => named, fun named => named rfl⟩
  | null w | integer w flags | decimal w | objectId w | string w =>
    exact iff_of_true (legible_of_plain rfl _) nofun

/-- What a column stores of a value is legible if the column tells its type. -/
lemma legible_convertTo_iff {t : ValueType} {v : Value} :
    Legible t (encode t (v.convertTo t)) ↔ t.Tells v.type := by
  cases t with
  | dynamic w =>
    rw [Value.convertTo_dynamic]
    exact legible_encode_iff
  | null w | integer w flags | decimal w | objectId w | string w =>
    exact iff_of_true (legible_of_plain rfl _) nofun

lemma length_encode {t : ValueType} {v : Value} (ht : Fits t v) :
    (encode t v).length = encodedSize t v := by
  cases t with
  | dynamic w =>
    rw [encode, encodedSize, List.length_append, LittleEndian.length_encode]
    congr 1
    by_cases hd : v.type.isDynamic = true
    · rw [encodePlain_storedType_of_dynamic hd, Value.storedType, if_pos hd]
      rfl
    · rw [Value.storedType, if_neg hd]
      exact length_encodePlain (by simpa using hd) rfl
  | null w | integer w flags | decimal w | objectId w | string w =>
    exact length_encodePlain rfl (ht rfl)

/-! ### Reading what was written -/

lemma decode_encode_wrap (w : Width) (n : Int) :
    (LittleEndian.decode (LittleEndian.encode w.bytes (w.wrap false n).toNat) : Int) =
      w.wrap false n := by
  have hrange := Width.wrap_mem w false n
  rw [LittleEndian.decode_encode_of_lt]
  · simp only [Width.least, Bool.false_eq_true, if_false] at hrange
    omega
  · simp only [Width.least, Width.greatest, Width.bits, Bool.false_eq_true, if_false] at hrange
    cases w <;> simp only [Width.bytes] at hrange ⊢ <;> omega

lemma decodePlain?_encodePlain {v : Value} (hd : v.type.isDynamic = false) (hv : v.Proper) :
    decodePlain? v.type (encodePlain v.type v) = some v.stored := by
  cases v with
  | null w => rfl
  | dynamic w => cases hd
  | integer w flags n =>
    simp only [Value.type, encodePlain, decodePlain?, Value.toUnsigned_eq_wrap hv]
    rw [← List.append_nil (LittleEndian.encode _ _),
      number?_append (LittleEndian.length_encode _ _)]
    simp only [Option.bind_eq_bind, Option.bind_some, decode_encode_wrap,
      Width.wrap_wrap_of_mem hv, Value.ofInt, Width.saturate_of_mem hv]
    rfl
  | decimal w x =>
    by_cases hw : w = .bits64
    · subst hw
      have hbits : x.bits.toNat < 256 ^ 8 := x.bits.toNat_lt
      simp only [Value.type, encodePlain, decodePlain?, Value.toDecimal]
      rw [← List.append_nil (LittleEndian.encode _ _), number?_encode_append hbits]
      simp [Value.stored, Value.type, ValueType.isNull, ValueType.isDynamic, ValueType.kind]
    · have hbits : x.toSingle.toNat < 256 ^ 4 := x.toSingle.toNat_lt
      have hdecode : decodePlain? (.decimal w) (LittleEndian.encode 4 x.toSingle.toNat) =
          some (.ofDecimal (.decimal w) (.ofSingle x.toSingle)) := by
        cases w with
        | bits64 => exact absurd rfl hw
        | bits8 | bits16 | bits32 =>
          rw [← List.append_nil (LittleEndian.encode _ _), decodePlain?,
            number?_encode_append hbits]
          · simp
          · exact hw
      have hencode : encodePlain (.decimal w) (.decimal w x) =
          LittleEndian.encode 4 x.toSingle.toNat := by
        cases w with
        | bits64 => exact absurd rfl hw
        | bits8 | bits16 | bits32 => rfl
      have hsingle : Decimal.ofSingle x.toSingle = x := hv hw
      have hof : Value.ofDecimal (.decimal w) x = .decimal w x := by
        cases w with
        | bits64 => exact absurd rfl hw
        | bits8 | bits16 | bits32 => exact congrArg _ (hv hw)
      rw [Value.type, hencode, hdecode, hsingle, hof]
      rfl
  | objectId w id =>
    have hraw : id.raw.toNat < 256 ^ 8 := id.raw.toNat_lt
    simp only [Value.type, encodePlain, decodePlain?, Value.toObjectId, ObjectId.toBytes]
    rw [← List.append_nil (LittleEndian.encode _ _), number?_encode_append hraw]
    simp [Value.stored, Value.type, ValueType.isNull, ValueType.isDynamic, ValueType.kind]
  | string w payload =>
    simp only [Value.type, encodePlain, decodePlain?, Value.toBytes]
    rw [number?_encode_append (lt_of_le_maxLength hv)]
    simp [Value.ofBytesIn, Value.stored, Value.type, ValueType.isNull, ValueType.isDynamic,
      ValueType.kind, List.take_of_length_le hv]

/-- What is written for a proper value is read back as it is stored, if it is legible. -/
theorem value_encode {t : ValueType} {v : Value} (hv : v.Proper) (ht : Fits t v)
    (legible : Legible t (encode t v)) : value t (encode t v) = v.stored := by
  refine value_eq (isField_encode hv ht) ?_
  cases t with
  | dynamic w =>
    have named := (legible_append_iff (isDynamic_storedType v) _).mp legible
    rw [encode, decode?, number?_encode_append (ValueType.tag_lt _)]
    simp only [Option.bind_eq_bind, Option.bind_some, ValueType.ofTag_tag named,
      isDynamic_storedType, Bool.false_eq_true, if_false, LittleEndian.drop_encode_append]
    by_cases hd : v.type.isDynamic = true
    · rw [encodePlain_storedType_of_dynamic hd, Value.storedType, if_pos hd, Value.stored,
        if_pos (Or.inr hd)]
      rfl
    · rw [Value.storedType, if_neg hd]
      exact decodePlain?_encodePlain (by simpa using hd) hv
  | null w | integer w flags | decimal w | objectId w | string w =>
    have := decodePlain?_encodePlain (by rw [ht rfl]; rfl) hv
    rw [ht rfl] at this
    exact this

/-- Anything else that is written reads as null. -/
lemma value_encode_of_not_legible {t : ValueType} {v : Value} (h : ¬ Legible t (encode t v)) :
    value t (encode t v) = .plainNull := by
  cases t with
  | dynamic w =>
    have hnamed := mt (legible_append_iff (isDynamic_storedType v) _).mpr h
    rw [value, encode, decode?, number?_encode_append (ValueType.tag_lt _)]
    simp only [Option.bind_eq_bind, Option.bind_some, ValueType.ofTag_tag_of_not_named hnamed,
      Option.getD_some]
  | null w | integer w flags | decimal w | objectId w | string w =>
    exact absurd (legible_of_plain rfl _) h

lemma named_stored {v : Value} : v.stored.type.Named ↔ v.type.Named := by
  cases v <;> exact Iff.rfl

/-- What is written is read back if it is legible, and only then. -/
theorem value_encode_iff {t : ValueType} {v : Value} (hv : v.Proper) (ht : Fits t v) :
    value t (encode t v) = v.stored ↔ Legible t (encode t v) := by
  refine ⟨fun h => ?_, value_encode hv ht⟩
  by_contra hillegible
  rw [value_encode_of_not_legible hillegible] at h
  have hnamed : v.stored.type.Named := h ▸ rfl
  exact hillegible (legible_encode_iff.mpr fun _ => named_stored.mp hnamed)

/-! ### Zeros -/

/-- Zero bytes are the field of the zero of a type. -/
lemma encode_zero (t : ValueType) : encode t (.zero t) = Bytes.zeros (minSize t) := by
  cases t with
  | integer w flags =>
    have hzero : (Value.integer w flags 0).toUnsigned = 0 := by
      simp [Value.toUnsigned, Width.wrap]
    rw [Value.zero, encode]
    · rw [encodePlain, hzero]
      change _ = Bytes.zeros w.bytes
      cases w <;> decide
    · intro w' h
      cases h
  | decimal w => cases w <;> decide +kernel
  | null w | dynamic w | objectId w | string w => cases w <;> decide

lemma legible_zero (t : ValueType) : Legible t (encode t (.zero t)) := by
  cases t with
  | dynamic w =>
    have named : (Value.zero (.dynamic w)).type.Named := rfl
    exact legible_encode_iff.mpr fun _ => named
  | null w | integer w flags | decimal w | objectId w | string w => exact legible_of_plain rfl _

lemma fits_zero (t : ValueType) : Fits t (.zero t) := fun _ => Value.type_zero t

end Field

end RecordStore
