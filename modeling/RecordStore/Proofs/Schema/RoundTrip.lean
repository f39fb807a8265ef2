import Mathlib
import RecordStore.Proofs.Schema.Codec

/-!
# Writing and reading schemas back

The layouts that an edit could have made are exactly those that can be read, if their types are
named. A schema of named types is read back from what is written of it, whatever follows, and what
was read is written as it was read. Edits take types that are not named as well; what is written of
them is not read.
-/

namespace RecordStore.Schema

variable {layout : List (String × ValueType)} {s : Schema}

lemma size_eq_length_layout (s : Schema) : s.size = s.layout.length := by
  rw [layout, List.length_map, size]

/-- The bytes of a schema are those of its layout. -/
lemma bytes_eq_of_layout (h : s.layout = layout) :
    s.bytes = LittleEndian.encode 4 0 ++
      (LittleEndian.encode 1 layout.length ++ layout.flatMap columnBytes) := by
  rw [bytes, size_eq_length_layout, h, formatVersion]

/-- Columns can be pushed in turn if and only if their layout is valid. -/
theorem exists_ofLayout_iff :
    (∃ s, ofLayout layout = .ok s ∧ s.layout = layout) ↔ ValidLayout layout := by
  constructor
  · rintro ⟨s, hs, -⟩
    obtain ⟨columns, hfold, rfl⟩ := exists_of_map_ok hs
    have hvalid := @validLayout_foldlM _ [] _ .nil hfold
    rwa [layoutOf_foldlM hfold] at hvalid
  · intro h
    obtain ⟨columns, hfold, hcolumns⟩ := @foldlM_push_of_valid [] layout h
    refine ⟨ofColumns columns, ?_, ?_⟩
    · rw [ofLayout, hfold]
      rfl
    · rw [layout_ofColumns, hcolumns]
      rfl

/-- There is a schema of every valid layout. -/
lemma exists_valid_of_layout (h : ValidLayout layout) :
    ∃ s : Schema, s.Valid ∧ s.layout = layout := by
  obtain ⟨s, hs, hlayout⟩ := exists_ofLayout_iff.mpr h
  exact ⟨s, (Reachable.ofLayout hs).valid, hlayout⟩

/-- An input is read if and only if it starts with the bytes of a valid layout of named types. -/
lemma exists_read_iff {input rest : Bytes} :
    (∃ s, read input = .ok (s, rest) ∧ s.layout = layout) ↔
      ValidLayout layout ∧ (∀ c ∈ layout, c.2.Named) ∧ input = LittleEndian.encode 4 0 ++
        (LittleEndian.encode 1 layout.length ++ layout.flatMap columnBytes) ++ rest := by
  constructor
  · rintro ⟨s, hread, rfl⟩
    obtain ⟨hvalid, hnamed, rfl⟩ := read_eq_ok.mp hread
    exact ⟨hvalid.layout, hnamed, by rw [bytes_eq_of_layout rfl]⟩
  · rintro ⟨hvalid, hnamed, rfl⟩
    obtain ⟨s, hs, rfl⟩ := exists_valid_of_layout hvalid
    exact ⟨s, read_eq_ok.mpr ⟨hs, hnamed, by rw [bytes_eq_of_layout rfl]⟩, rfl⟩

/-- A schema that was made, edited or read is written without failure. It is read back as it was, in
front of anything, if and only if its types are named. Bytes that were read are written again for
what they were read as. What can be read is a version of zero, a number of columns, and for each
column the length of its name, the name and the tag of its type, where the types are named and the
layout is one that can be built: these are the layouts of at most 255 columns with distinct names
of 1 to 255 bytes and types that are not null. -/
theorem read_write_inverse (hs : s.Reachable) (b : Bytes) :
    (∃ w, (∀ written, s.write ⟨none, written⟩ = (.ok (), ⟨none, written ++ w⟩)) ∧
      ∀ x, read (w ++ x) = .ok (s, x) ↔ s.Named) ∧
    (∀ s' rest, read b = .ok (s', rest) → ∃ p, b = p ++ rest ∧
      ∀ written, s'.write ⟨none, written⟩ = (.ok (), ⟨none, written ++ p⟩)) ∧
    (∀ rest layout, (∃ s', read b = .ok (s', rest) ∧ s'.layout = layout) ↔
      ValidLayout layout ∧ (∀ c ∈ layout, c.2.Named) ∧ b = LittleEndian.encode 4 0 ++
        (LittleEndian.encode 1 layout.length ++ layout.flatMap columnBytes) ++ rest) ∧
    ∀ layout, ValidLayout layout ↔ ∃ s', ofLayout layout = .ok s' ∧ s'.layout = layout := by
  refine ⟨?_, ?_, fun rest layout => exists_read_iff, fun layout => exists_ofLayout_iff.symm⟩
  · refine ⟨s.bytes, (emits_write hs.valid).eq_of_unbounded, ?_⟩
    intro x
    exact ⟨fun hread => (read_eq_ok.mp hread).2.1,
      fun hnamed => read_eq_ok.mpr ⟨hs.valid, hnamed, rfl⟩⟩
  · intro s' rest hread
    obtain ⟨hvalid, -, rfl⟩ := read_eq_ok.mp hread
    exact ⟨s'.bytes, rfl, (emits_write hvalid).eq_of_unbounded⟩

/-- A signed number and any value, under a name of three bytes and one of one byte. -/
theorem read_write_inverse_two_columns :
    ∃ s w, ofLayout [("€", .integer .bits16 true), ("v", .dynamic .bits8)] = .ok s ∧
      s.write (.empty none) = (.ok (), ⟨none, w⟩) ∧ read (w ++ [7]) = .ok (s, [7]) ∧
      ∃ p, w ++ [7] = p ++ [7] ∧ s.write (.empty none) = (.ok (), ⟨none, p⟩) := by
  have hs : ofLayout [("€", .integer .bits16 true), ("v", .dynamic .bits8)] =
      .ok (ofColumns [⟨"€", .integer .bits16 true, 0⟩, ⟨"v", .dynamic .bits8, 0⟩]) := rfl
  obtain ⟨⟨w, hw, hiff⟩, -⟩ := read_write_inverse (.ofLayout hs) []
  have hback := (hiff [7]).mpr (by decide)
  obtain ⟨-, hread, -⟩ := read_write_inverse (.ofLayout hs) (w ++ [7])
  obtain ⟨p, hp, hagain⟩ := hread _ _ hback
  exact ⟨_, w, hs, hw [], hback, p, hp, hagain []⟩

/-- A column of a type with a flag that has no name is taken and written, and what is written is
refused for its tag. -/
theorem column_of_unnamed_flag_not_read :
    ∃ s w, ofLayout [("x", .integer .bits8 ⟨false, 1⟩)] = .ok s ∧
      s.write (.empty none) = (.ok (), ⟨none, w⟩) ∧
      read w = .error (.corrupt (.badType 0 (.invalidTag 131074))) := by
  refine ⟨ofColumns [⟨"x", .integer .bits8 ⟨false, 1⟩, 0⟩],
    [0, 0, 0, 0, 1, 1, 120, 2, 0, 2, 0], rfl, rfl, rfl⟩

end RecordStore.Schema
