import RecordStore.Text

/-!
Types of values. A type is a kind with a width and, for integers, a byte of flags; it is stored as
a tag of 32 bits. A type keeps every bit of its flags, and its tag states them all, but a tag is
read only if every flag in it has a name. So the types that are read back are the named ones, and
no other tag is a type.
-/

namespace RecordStore

/-! ### Widths -/

/-- Eight, sixteen, thirty-two or sixty-four bits: the width of a number, or of the length in
front of a string. -/
inductive Width
  | bits8
  | bits16
  | bits32
  | bits64
  deriving DecidableEq, Repr, Inhabited

namespace Width

/-- The width field of a tag. -/
def code : Width → Nat
  | bits8 => 0
  | bits16 => 1
  | bits32 => 2
  | bits64 => 3

def ofCode? : Nat → Option Width
  | 0 => some bits8
  | 1 => some bits16
  | 2 => some bits32
  | 3 => some bits64
  | _ => none

def bytes : Width → Nat
  | bits8 => 1
  | bits16 => 2
  | bits32 => 4
  | bits64 => 8

def bits (w : Width) : Nat := 8 * w.bytes

/-- Bytes of the length in front of a string. It never takes more than four. -/
def lengthBytes : Width → Nat
  | bits8 => 1
  | bits16 => 2
  | bits32 | bits64 => 4

/-- The longest string whose length fits in front of it. -/
def maxLength (w : Width) : Nat := 256 ^ w.lengthBytes - 1

/-- The smallest width that can hold the length `n`, and four length bytes for all beyond. -/
def fitting (n : Nat) : Width :=
  if n ≤ bits8.maxLength then bits8 else if n ≤ bits16.maxLength then bits16 else bits32

theorem code_lt (w : Width) : w.code < 256 := by cases w <;> decide

@[simp] theorem ofCode?_code (w : Width) : ofCode? w.code = some w := by cases w <;> rfl

theorem code_injective {v w : Width} (h : v.code = w.code) : v = w := by
  have := ofCode?_code v
  rw [h, ofCode?_code] at this
  exact (Option.some.inj this).symm

theorem code_of_ofCode? {n : Nat} {w : Width} (h : ofCode? n = some w) : w.code = n := by
  unfold ofCode? at h
  split at h <;> simp_all [code] <;> subst h <;> rfl

end Width

/-! ### Kinds -/

/-- What a value is, apart from its width. -/
inductive Kind
  | null
  | dynamic
  | integer
  | decimal
  | objectId
  | string
  deriving DecidableEq, Repr

namespace Kind

/-- The kind field of a tag. -/
def code : Kind → Nat
  | null => 0
  | dynamic => 1
  | integer => 2
  | decimal => 3
  | objectId => 4
  | string => 5

def ofCode? : Nat → Option Kind
  | 0 => some null
  | 1 => some dynamic
  | 2 => some integer
  | 3 => some decimal
  | 4 => some objectId
  | 5 => some string
  | _ => none

theorem code_lt (k : Kind) : k.code < 256 := by cases k <;> decide

@[simp] theorem ofCode?_code (k : Kind) : ofCode? k.code = some k := by cases k <;> rfl

theorem code_injective {k l : Kind} (h : k.code = l.code) : k = l := by
  have := ofCode?_code k
  rw [h, ofCode?_code] at this
  exact (Option.some.inj this).symm

theorem code_of_ofCode? {n : Nat} {k : Kind} (h : ofCode? n = some k) : k.code = n := by
  unfold ofCode? at h
  split at h <;> cases h <;> rfl

end Kind

/-! ### Flags -/

/-- The flags of a type, which fill one byte. The lowest bit has a name and marks signed integers;
the seven bits above it have none. -/
structure Flags where
  signed : Bool
  unnamed : Fin 128 := 0
  deriving DecidableEq, Repr

namespace Flags

/-- A signedness, and no flag without a name. -/
instance : Coe Bool Flags := ⟨fun signed => { signed }⟩

/-- No flag. -/
def empty : Flags := false

/-- The flag field of a tag. -/
def byte (f : Flags) : Nat := f.signed.toNat + 2 * f.unnamed

/-- The flags in a byte, if all of them have names. -/
def ofByte? : Nat → Option Flags
  | 0 => some false
  | 1 => some true
  | _ => none

theorem byte_lt (f : Flags) : f.byte < 256 := by
  have := f.signed.toNat_le
  simp only [byte]
  omega

theorem byte_injective {f g : Flags} (h : f.byte = g.byte) : f = g := by
  obtain ⟨signed, unnamed⟩ := f
  obtain ⟨signed', unnamed'⟩ := g
  simp only [byte] at h
  cases signed <;> cases signed' <;> simp only [Bool.toNat_false, Bool.toNat_true] at h <;>
    first | omega | rw [Fin.ext (by omega : unnamed.val = unnamed'.val)]

/-- What is read are the flags that have names, each from its own byte. -/
theorem ofByte?_eq_some_iff {n : Nat} {f : Flags} :
    ofByte? n = some f ↔ f.unnamed = 0 ∧ f.byte = n := by
  obtain ⟨signed, unnamed⟩ := f
  constructor
  · intro h
    unfold ofByte? at h
    split at h <;> cases h <;> exact ⟨rfl, rfl⟩
  · rintro ⟨rfl, rfl⟩
    cases signed <;> rfl

end Flags

/-! ### Types -/

/-- A type. Every kind keeps the width of its tag, also where the width carries no meaning. -/
inductive ValueType
  | null (width : Width)
  | dynamic (width : Width)
  | integer (width : Width) (flags : Flags)
  | decimal (width : Width)
  | objectId (width : Width)
  | string (width : Width)
  deriving DecidableEq, Repr

/-- Why something is no type or no identifier. -/
inductive TypeError
  | invalidTag (tag : Nat)
  | invalidHex (reason : Hex.HexError)
  | invalidLength (expected actual : Nat)
  deriving DecidableEq, Repr

def TypeError.message : TypeError → String
  | .invalidTag tag =>
    let digits := Nat.toDigits 16 tag
    "invalid type tag: 0x" ++ String.ofList (List.replicate (8 - digits.length) '0' ++ digits)
  | .invalidHex reason => "invalid hex string: " ++ reason.message
  | .invalidLength expected actual =>
    s!"invalid byte length: expected {expected}, got {actual}"

namespace ValueType

/-- The type of nulls. -/
def plainNull : ValueType := .null .bits8

instance : Inhabited ValueType := ⟨plainNull⟩

/-- The type of a kind. Flags are dropped for all kinds but integers. -/
def ofKind (kind : Kind) (width : Width) (flags : Flags) : ValueType :=
  match kind with
  | .null => .null width
  | .dynamic => .dynamic width
  | .integer => .integer width flags
  | .decimal => .decimal width
  | .objectId => .objectId width
  | .string => .string width

def kind : ValueType → Kind
  | .null _ => .null
  | .dynamic _ => .dynamic
  | .integer _ _ => .integer
  | .decimal _ => .decimal
  | .objectId _ => .objectId
  | .string _ => .string

def width : ValueType → Width
  | .null w | .dynamic w | .integer w _ | .decimal w | .objectId w | .string w => w

def flags : ValueType → Flags
  | .integer _ flags => flags
  | _ => .empty

def isSigned (t : ValueType) : Bool := t.flags.signed

/-- Every flag of the type has a name. -/
def Named (t : ValueType) : Prop := t.flags.unnamed = 0

instance : DecidablePred Named := fun t => inferInstanceAs (Decidable (t.flags.unnamed = 0))

def isNull (t : ValueType) : Bool := t.kind = .null

def isDynamic (t : ValueType) : Bool := t.kind = .dynamic

/-- A field of type `t` tells the type `u` of a value: by a tag, which is read if `u` is named,
where the field is for values of any type. No other field has to tell a type. -/
def Tells (t u : ValueType) : Prop := t.isDynamic = true → u.Named

instance (t u : ValueType) : Decidable (t.Tells u) := inferInstanceAs (Decidable (_ → _))

/-- Every field tells the type in its place. -/
def TellsAll (types others : List ValueType) : Prop := ∀ p ∈ types.zip others, p.1.Tells p.2

instance (types others : List ValueType) : Decidable (TellsAll types others) :=
  inferInstanceAs (Decidable (∀ p ∈ types.zip others, p.1.Tells p.2))

/-- The stored size of a value depends on the value. -/
def isVariable (t : ValueType) : Bool := t.kind = .string || t.kind = .dynamic

/-- The stored size of every value of the type, where it is one and the same. -/
def fixedSize? : ValueType → Option Nat
  | .null _ => some 0
  | .integer w _ => some w.bytes
  | .decimal w => some (if w = .bits64 then 8 else 4)
  | .objectId _ => some 8
  | .string _ | .dynamic _ => none

/-! ### Tags -/

/-- Kind, width and flags, one byte each from the lowest on. -/
def tag (t : ValueType) : Nat := t.kind.code + 256 * t.width.code + 65536 * t.flags.byte

/-- The type that a tag stands for. -/
def ofTag (tag : Nat) : Except TypeError ValueType :=
  match Kind.ofCode? (tag % 256), Width.ofCode? (tag / 256 % 256), Flags.ofByte? (tag / 65536) with
  | some kind, some width, some flags =>
    if kind = .integer ∨ flags = .empty then .ok (ofKind kind width flags)
    else .error (.invalidTag tag)
  | _, _, _ => .error (.invalidTag tag)

/-! ### Text -/

def text : ValueType → String
  | .null _ => "null"
  | .dynamic _ => "dynamic"
  | .integer w flags => if flags.signed then s!"int{w.bits}" else s!"uint{w.bits}"
  | .decimal w => s!"decimal{w.bits}"
  | .objectId _ => "object_id"
  | .string w => s!"string{w.bits}"

def debugText (t : ValueType) : String := s!"Type({t.text})"

/-! ### Laws -/

theorem flags_eq_empty {t : ValueType} (h : t.kind ≠ .integer) : t.flags = .empty := by
  cases t with
  | integer w flags => exact absurd rfl h
  | null w | dynamic w | decimal w | objectId w | string w => rfl

/-- No field has to tell the type of another field for values of any type. -/
theorem tells_self (t : ValueType) : t.Tells t := by
  cases t with
  | integer w flags => exact nofun
  | null w | dynamic w | decimal w | objectId w | string w => exact fun _ => rfl

theorem tellsAll_nil (types : List ValueType) : TellsAll types [] := by
  rw [TellsAll, List.zip_nil_right]
  exact nofun

theorem tellsAll_cons {t u : ValueType} {types others : List ValueType} :
    TellsAll (t :: types) (u :: others) ↔ t.Tells u ∧ TellsAll types others := by
  rw [TellsAll, List.zip_cons_cons, List.forall_mem_cons]
  rfl

theorem tellsAll_self (types : List ValueType) : TellsAll types types := by
  induction types with
  | nil => exact nofun
  | cons t types ih => exact tellsAll_cons.mpr ⟨t.tells_self, ih⟩

@[simp] theorem ofKind_self (t : ValueType) : ofKind t.kind t.width t.flags = t := by
  cases t <;> rfl

theorem kind_ofKind (k : Kind) (w : Width) (f : Flags) : (ofKind k w f).kind = k := by
  cases k <;> rfl

theorem width_ofKind (k : Kind) (w : Width) (f : Flags) : (ofKind k w f).width = w := by
  cases k <;> rfl

theorem flags_ofKind {k : Kind} {w : Width} {f : Flags} (h : k = .integer ∨ f = .empty) :
    (ofKind k w f).flags = f := by
  rcases h with rfl | rfl
  · rfl
  · cases k <;> rfl

theorem tag_lt (t : ValueType) : t.tag < UInt32.size := by
  have hkind := t.kind.code_lt
  have hwidth := t.width.code_lt
  have hflags := t.flags.byte_lt
  simp only [tag, UInt32.size]
  omega

theorem kind_tag (t : ValueType) : t.tag % 256 = t.kind.code := by
  have hkind := t.kind.code_lt
  have hwidth := t.width.code_lt
  simp only [tag]
  omega

theorem width_tag (t : ValueType) : t.tag / 256 % 256 = t.width.code := by
  have hkind := t.kind.code_lt
  have hwidth := t.width.code_lt
  simp only [tag]
  omega

theorem flags_tag (t : ValueType) : t.tag / 65536 = t.flags.byte := by
  have hkind := t.kind.code_lt
  have hwidth := t.width.code_lt
  simp only [tag]
  omega

theorem tag_injective {s t : ValueType} (h : s.tag = t.tag) : s = t := by
  have hkind : s.kind = t.kind := Kind.code_injective (by rw [← kind_tag, h, kind_tag])
  have hwidth : s.width = t.width := Width.code_injective (by rw [← width_tag, h, width_tag])
  have hflags : s.flags = t.flags := Flags.byte_injective (by rw [← flags_tag, h, flags_tag])
  rw [← ofKind_self s, hkind, hwidth, hflags, ofKind_self]

/-- The tags that are read are those of the named types, each as its own type. -/
theorem ofTag_eq_ok_iff {n : Nat} {t : ValueType} : ofTag n = .ok t ↔ t.Named ∧ t.tag = n := by
  constructor
  · intro h
    unfold ofTag at h
    split at h
    · rename_i kind width flags hkind hwidth hflags
      split at h
      · rename_i hinteger
        cases h
        obtain ⟨hunnamed, hbyte⟩ := Flags.ofByte?_eq_some_iff.mp hflags
        have hk := Kind.code_of_ofCode? hkind
        have hw := Width.code_of_ofCode? hwidth
        refine ⟨by rwa [Named, flags_ofKind hinteger], ?_⟩
        rw [tag, kind_ofKind, width_ofKind, flags_ofKind hinteger]
        omega
      · cases h
    · cases h
  · rintro ⟨hnamed, rfl⟩
    have hflags := Flags.ofByte?_eq_some_iff.mpr ⟨hnamed, rfl⟩
    have hinteger : t.kind = .integer ∨ t.flags = .empty :=
      (Decidable.em _).imp_right flags_eq_empty
    simp only [ofTag, kind_tag, width_tag, flags_tag, Kind.ofCode?_code, Width.ofCode?_code, hflags,
      if_pos hinteger, ofKind_self]

theorem ofTag_tag {t : ValueType} (h : t.Named) : ofTag t.tag = .ok t :=
  ofTag_eq_ok_iff.mpr ⟨h, rfl⟩

/-- A type with a flag that has no name is packed into a tag that is not read. -/
theorem ofTag_tag_of_not_named {t : ValueType} (h : ¬ t.Named) :
    ofTag t.tag = .error (.invalidTag t.tag) := by
  have hflags : Flags.ofByte? t.flags.byte = none := by
    rw [Option.eq_none_iff_forall_not_mem]
    intro f hf
    obtain ⟨hunnamed, hbyte⟩ := Flags.ofByte?_eq_some_iff.mp hf
    rw [Flags.byte_injective hbyte] at hunnamed
    exact h hunnamed
  rw [ofTag, flags_tag, hflags]
  split
  · rename_i hnone
    cases hnone
  · rfl

end ValueType

end RecordStore
