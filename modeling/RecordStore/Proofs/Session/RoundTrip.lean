import Mathlib
import RecordStore.Proofs.Session.Sound
import RecordStore.Proofs.Table.RoundTrip

/-!
# Reading back what a run has written

Whatever the run, its table is read back from what is written of it, under any configuration and
with anything behind, as long as it is readable. The tag of a type with a flag that has no name is
written as well, but it is not read.
-/

namespace RecordStore

open Table (Block)
open Table.Block (contents)

/-- The columns are of named types, and the table passes its own check. -/
structure Table.Readable (t : Table) : Prop where
  named : t.schema.Named
  check_eq : t.check = .ok ()

namespace Session

variable {types : List ValueType} {s : Session} {blocks : List (Block types)}

namespace Sound

/-- What a sound table is packed to: itself, or a table of as many records in snug chunks. -/
lemma exists_packed (h : s.Sound blocks) (legible : ∀ r ∈ contents blocks, r.Legible) :
    ∃ packed, s.table.optimize = .ok packed ∧ packed.schema = s.table.schema ∧ packed.Dense ∧
      packed.values = s.table.values ∧ (∃ blocks' : List (Block types), packed.Holds blocks') ∧
      (s.table.Fits → packed.chunks.length < 2 ^ 32 → packed.Fits) ∧
      (s.table.Fits → s.table.numRecords < 2 ^ 32 → packed.chunks.length < 2 ^ 32) := by
  cases hcompact : s.table.compact with
  | true =>
    refine ⟨s.table, Table.Holds.optimize_of_compact hcompact, rfl, ?_, rfl, ⟨blocks, h.holds⟩,
      fun hfits _ => hfits, fun hfits _ => hfits.chunks⟩
    exact h.holds.dense_iff.mpr (h.packed hcompact)
  | false =>
    have hchunk := (Table.validate_eq_ok.mp h.config_valid).2
    obtain ⟨packed, hrun, hschema, -, blocks', hholds, hdense, hvalues, hpacked, hfits⟩ :=
      h.holds.exists_packed legible hcompact hchunk
    refine ⟨packed, hrun, hschema, hdense, hvalues, ⟨blocks', hholds⟩, fun _ => hfits, ?_⟩
    intro _ hcount
    have hlength := Table.length_le_length_contents blocks'
    rw [hpacked.contents_eq, List.length_map, ← h.holds.count_eq] at hlength
    rw [hholds.length_chunks]
    exact hlength.trans_lt hcount

end Sound

/-- A table whose counts fit is written, and what is written as it is laid out, with the slack that
it has, is read back, whatever follows, if and only if the table is readable. Then it can be packed
as well, and what is written of the packed table is read back too. Packing leaves too many chunks to
be counted only if there are as many records. -/
theorem Reachable.read_after_write (h : s.Reachable) {config : Table.Config}
    (hconfig : config.validate = .ok ()) (hfits : s.table.Fits) :
    (∃ w, (∀ written, s.table.writeAsIs ⟨none, written⟩ = (.ok (), ⟨none, written ++ w⟩)) ∧
      (s.table.Readable ↔ ∀ x, ∃ back, Table.readWithConfig config (w ++ x) = .ok (back, x) ∧
        s.table.IsCopy back ∧ (back.compact = true ↔ s.table.Dense))) ∧
    (s.table.Readable → ∃ packed w,
      (∀ written, s.table.write ⟨none, written⟩ = .ok (packed, .ok (), ⟨none, written ++ w⟩)) ∧
      (s.table.numRecords < 2 ^ 32 → packed.chunks.length < 2 ^ 32) ∧
      (packed.chunks.length < 2 ^ 32 → ∀ x, ∃ back,
        Table.readWithConfig config (w ++ x) = .ok (back, x) ∧ packed.IsCopy back ∧
          back.compact = true ∧ back.schema = s.table.schema ∧ back.values = s.table.values)) := by
  obtain ⟨types, blocks, hsound⟩ := h.sound
  refine ⟨⟨s.table.bytes, Table.writeAsIs_eq hsound.schema_valid, ?_, ?_⟩, fun hreadable => ?_⟩
  · intro hreadable
    exact hsound.holds.read_bytes hsound.schema_valid hreadable.named
      (hsound.check_iff.mp hreadable.check_eq) hfits hconfig
  · intro hback
    obtain ⟨back, hread, hcopy, -⟩ := hback []
    obtain ⟨hnamed, hlegible⟩ := hsound.holds.named_and_legible_of_copy hread hcopy
    exact ⟨hnamed, hsound.check_iff.mpr hlegible⟩
  have legible := hsound.check_iff.mp hreadable.check_eq
  obtain ⟨packed, hrun, hschema, hdense, hvalues, ⟨blocks', hholds⟩, hpacked, hcount⟩ :=
    hsound.exists_packed legible
  have hvalid : packed.schema.Valid := hschema ▸ hsound.schema_valid
  refine ⟨packed, packed.bytes, ?_, hcount hfits, ?_⟩
  · intro written
    rw [Table.write_eq hrun, Table.writeAsIs_eq hvalid]
  · intro hlength x
    have hnamed : packed.schema.Named := hschema ▸ hreadable.named
    have legible' : ∀ r ∈ contents blocks', r.Legible :=
      fun r hr => (hholds.dense_iff.mp hdense r hr).1
    obtain ⟨back, hback, hcopy, hslack⟩ :=
      hholds.read_bytes hvalid hnamed legible' (hpacked hfits hlength) hconfig x
    obtain ⟨rows, hrows, hrows'⟩ := hcopy.values_eq
    refine ⟨back, hback, hcopy, hslack.mpr hdense, hcopy.schema_eq.trans hschema, ?_⟩
    rw [← hvalues, hrows, hrows']

theorem read_after_write_of_pushed_byte :
    ∃ s : Session, s.Reachable ∧ s.table.Readable ∧ ∃ w,
      s.table.writeAsIs (.empty none) = (.ok (), ⟨none, w⟩) ∧
      ∃ back, Table.readWithConfig .default (w ++ [1]) = .ok (back, [1]) ∧
        back.chunks = [⟨5, 0, [5, 0, 0, 0, 7], 1⟩] := by
  obtain ⟨s, hs, hnamed, hchunks⟩ := exists_pushed_byte
  have hfits : s.table.Fits := by
    refine ⟨?_, ?_, ?_⟩ <;> rw [hchunks] <;> decide
  have hconfig : Table.Config.default.validate = .ok () := rfl
  obtain ⟨⟨w, hwrite, hread⟩, -⟩ := hs.reachable.read_after_write hconfig hfits
  obtain ⟨back, hback, hcopy, -⟩ := hread.mp ⟨hnamed, hs.check_eq⟩ [1]
  refine ⟨s, hs.reachable, ⟨hnamed, hs.check_eq⟩, w, hwrite [], back, hback, ?_⟩
  rw [hcopy.chunks_eq, hchunks]
  rfl

/-- The integer five under a type with a flag that has no name is written, but it is not read. -/
theorem written_unnamed_type_not_read :
    unnamedFive.Reachable ∧ unnamedFive.table.Fits ∧ ∃ w,
      unnamedFive.table.writeAsIs (.empty none) = (.ok (), ⟨none, w⟩) ∧
      Table.readWithConfig .default w = .error (.corrupt 0 (.fieldsOverrun 0 16)) := by
  have hfits : unnamedFive.table.Fits := ⟨by decide, by decide, by decide⟩
  exact ⟨reachable_unnamedFive, hfits, unnamedFive.table.bytes, rfl, by cbv⟩

end Session

end RecordStore
