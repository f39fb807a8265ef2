import Mathlib
import RecordStore.Proofs.Schema.Editing
import RecordStore.Proofs.Schema.RoundTrip

/-!
# What a fingerprint tells

The bytes that are hashed for a column list determine the list: every number among them has a fixed
size, and every name stands behind its length. So two schemas have one fingerprint exactly if they
have the same names and types in the same order, as long as the hash function tells the two byte
strings apart.
-/

namespace RecordStore

/-! ### Numerals in front of other bytes -/

namespace LittleEndian

/-- A numeral of a fixed width holds the number up to that width. -/
lemma encode_eq_encode_iff {width m n : Nat} :
    encode width m = encode width n ↔ m % 256 ^ width = n % 256 ^ width := by
  constructor
  · intro h
    rw [← decode_encode, ← decode_encode, h]
  · intro h
    rw [← encode_mod width m, h, encode_mod]

/-- A numeral of a fixed width is found in front of other bytes. -/
lemma encode_append_inj {width m n : Nat} {rest rest' : Bytes} :
    encode width m ++ rest = encode width n ++ rest' ↔
      m % 256 ^ width = n % 256 ^ width ∧ rest = rest' := by
  rw [← encode_eq_encode_iff]
  constructor
  · intro h
    exact List.append_inj h (by rw [length_encode, length_encode])
  · rintro ⟨h, rfl⟩
    rw [h]

end LittleEndian

namespace Fingerprint

open LittleEndian

/-! ### The bytes of columns -/

/-- The name is short enough for its length to be kept in four bytes. -/
def IsShort (column : String × ValueType) : Prop := column.1.utf8ByteSize < 2 ^ 32

variable {column column' : String × ValueType} {columns columns' : List (String × ValueType)}

/-- A column is found in front of other bytes. -/
lemma columnBytes_append_inj (h : IsShort column) (h' : IsShort column') {rest rest' : Bytes}
    (heq : columnBytes column ++ rest = columnBytes column' ++ rest') :
    column = column' ∧ rest = rest' := by
  simp only [columnBytes, List.append_assoc] at heq
  obtain ⟨htag, heq⟩ := encode_append_inj.mp heq
  obtain ⟨hsize, heq⟩ := encode_append_inj.mp heq
  rw [Nat.mod_eq_of_lt column.2.tag_lt, Nat.mod_eq_of_lt column'.2.tag_lt] at htag
  rw [Nat.mod_eq_of_lt (show column.1.utf8ByteSize < 256 ^ 4 from h),
    Nat.mod_eq_of_lt (show column'.1.utf8ByteSize < 256 ^ 4 from h')] at hsize
  -- the names end at the same place, as their lengths are read before them
  have hlength : (Utf8.encode column.1).length = (Utf8.encode column'.1).length := by
    rw [Utf8.length_encode, Utf8.length_encode, hsize]
  obtain ⟨hname, hrest⟩ := List.append_inj heq hlength
  exact ⟨Prod.ext (Utf8.encode_inj.mp hname) (ValueType.tag_injective htag), hrest⟩

lemma columnBytes_ne_nil (column : String × ValueType) : columnBytes column ≠ [] := by
  intro h
  have hlength := congrArg List.length h
  simp only [columnBytes, List.length_append, length_encode, List.length_nil] at hlength
  omega

/-- The columns are found one after the other, and there are no more on one side. -/
lemma flatMap_columnBytes_inj (h : ∀ c ∈ columns, IsShort c) (h' : ∀ c ∈ columns', IsShort c)
    (heq : columns.flatMap columnBytes = columns'.flatMap columnBytes) : columns = columns' := by
  induction columns generalizing columns' with
  | nil =>
    cases columns' with
    | nil => rfl
    | cons column' columns' =>
      rw [List.flatMap_nil, List.flatMap_cons] at heq
      exact absurd (List.append_eq_nil_iff.mp heq.symm).1 (columnBytes_ne_nil column')
  | cons column columns ih =>
    cases columns' with
    | nil =>
      rw [List.flatMap_nil, List.flatMap_cons] at heq
      exact absurd (List.append_eq_nil_iff.mp heq).1 (columnBytes_ne_nil column)
    | cons column' columns' =>
      obtain ⟨hcolumn, hcolumns⟩ := List.forall_mem_cons.mp h
      obtain ⟨hcolumn', hcolumns'⟩ := List.forall_mem_cons.mp h'
      rw [List.flatMap_cons, List.flatMap_cons] at heq
      obtain ⟨rfl, hrest⟩ := columnBytes_append_inj hcolumn hcolumn' heq
      rw [ih hcolumns hcolumns' hrest]

/-- What is hashed tells the count, as far as four bytes keep it, and the columns. -/
theorem preimage_eq_iff (h : ∀ c ∈ columns, IsShort c) (h' : ∀ c ∈ columns', IsShort c)
    {count count' : Nat} :
    preimage count columns = preimage count' columns' ↔
      count % 2 ^ 32 = count' % 2 ^ 32 ∧ columns = columns' := by
  constructor
  · intro heq
    simp only [preimage, List.append_assoc] at heq
    have heq := List.append_cancel_left (List.append_cancel_left heq)
    obtain ⟨hcount, hcolumns⟩ := encode_append_inj.mp heq
    exact ⟨hcount, flatMap_columnBytes_inj h h' hcolumns⟩
  · rintro ⟨hcount, rfl⟩
    rw [preimage, preimage, encode_eq_encode_iff.mpr hcount]

end Fingerprint

/-- The two inputs do not have the same digest, unless they are the same input. -/
def Blake3.Separates (a b : Bytes) : Prop := hash a = hash b → a = b

namespace Schema

open Fingerprint (IsShort preimage_eq_iff)

variable {s t : Schema}

/-! ### Schemas with one fingerprint -/

/-- What is hashed for a schema. -/
def preimage (s : Schema) : Bytes := Fingerprint.preimage s.size s.layout

lemma Valid.isShort (h : s.Valid) : ∀ c ∈ s.layout, IsShort c :=
  fun c hc => (h.layout.short c hc).trans_lt (by decide)

lemma same_eq_true_iff (hs : s.Valid) (ht : t.Valid) :
    s.same t = true ↔ Blake3.hash s.preimage = Blake3.hash t.preimage := by
  rw [same, decide_eq_true_iff, hs.wellFormed.fingerprint_eq, ht.wellFormed.fingerprint_eq,
    Fingerprint.ofColumns, Fingerprint.ofColumns, Fingerprint.mk.injEq]
  rfl

/-- What is hashed of two schemas is the same exactly if their columns are. -/
lemma preimage_eq_preimage_iff (hs : s.Valid) (ht : t.Valid) :
    s.preimage = t.preimage ↔ s.layout = t.layout := by
  rw [preimage, preimage, preimage_eq_iff hs.isShort ht.isShort]
  refine and_iff_right_of_imp fun h => ?_
  rw [size_eq_length_layout, size_eq_length_layout, h]

/-- Two column lists, each hashed under a count, give the hash function the same bytes if and only
if the counts agree in their low four bytes and the lists are equal. So two schemas, whatever has
made, edited or read them, compare equal if and only if they have the same names and types in the
same order, as long as the hash function does not give one digest to the different bytes of both. -/
theorem fingerprint_of_columns :
    (∀ count count' columns columns', (∀ c ∈ columns, IsShort c) → (∀ c ∈ columns', IsShort c) →
      (Fingerprint.preimage count columns = Fingerprint.preimage count' columns' ↔
        count % 2 ^ 32 = count' % 2 ^ 32 ∧ columns = columns')) ∧
    ∀ s t : Schema, s.Reachable → t.Reachable → Blake3.Separates s.preimage t.preimage →
      (s.same t = true ↔ s.layout = t.layout) := by
  refine ⟨fun count count' columns columns' h h' => preimage_eq_iff h h', ?_⟩
  intro s t hs ht hseparates
  rw [same_eq_true_iff hs.valid ht.valid, ← preimage_eq_preimage_iff hs.valid ht.valid]
  exact ⟨hseparates, congrArg Blake3.hash⟩

/-- Names that run into each other, cut behind the second letter and behind the first. -/
def cutBehindTwo : Schema :=
  ofColumns [⟨"ab", .integer .bits8 true, 0⟩, ⟨"c", .integer .bits8 true, 0⟩]

def cutBehindOne : Schema :=
  ofColumns [⟨"a", .integer .bits8 true, 0⟩, ⟨"bc", .integer .bits8 true, 0⟩]

theorem fingerprint_of_columns_cut_elsewhere :
    ∃ s, ofLayout [("ab", .integer .bits8 true), ("c", .integer .bits8 true)] = .ok cutBehindTwo ∧
      ofLayout [("a", .integer .bits8 true), ("bc", .integer .bits8 true)] = .ok cutBehindOne ∧
      (do (← cutBehindOne.rename 0 "ab").rename 1 "c") = .ok s ∧
      cutBehindTwo.same cutBehindOne = false ∧ cutBehindTwo.same s = true ∧
      Fingerprint.preimage 2 cutBehindTwo.layout = Fingerprint.preimage (2 ^ 32 + 2) s.layout := by
  have htwo : cutBehindTwo.Reachable :=
    @Reachable.ofLayout [("ab", .integer .bits8 true), ("c", .integer .bits8 true)] _ rfl
  have hone : cutBehindOne.Reachable :=
    @Reachable.ofLayout [("a", .integer .bits8 true), ("bc", .integer .bits8 true)] _ rfl
  have hrenamed : Reachable
      (ofColumns [⟨"ab", .integer .bits8 true, 0⟩, ⟨"c", .integer .bits8 true, 1⟩]) :=
    @Reachable.rename _ _ 1 "c" (@Reachable.rename _ _ 0 "ab" hone rfl) rfl
  obtain ⟨hbytes, hsame⟩ := fingerprint_of_columns
  have hcut := hsame _ _ htwo hone fun h => absurd h (by decide +kernel)
  have hagain := hsame _ _ htwo hrenamed fun _ => rfl
  refine ⟨_, rfl, rfl, rfl, ?_, hagain.mpr rfl, ?_⟩
  · exact Bool.eq_false_iff.mpr (mt hcut.mp (by decide))
  · exact (hbytes _ _ _ _ htwo.valid.isShort hrenamed.valid.isShort).mpr ⟨by decide, rfl⟩

end Schema

end RecordStore
