import Mathlib
import RecordStore.Proofs.Session.Changes
import RecordStore.Proofs.Session.Sheet

/-!
# Adopting a schema

A table adopts every schema. If the types of the columns stay what they were, so does everything
but their names. If they change, but not their number, there are as many rows as before; with
another number of columns no row is left. Every cell is what the old one is truncated to, if the new
columns tell the types of the old ones: an integer whose type is not named goes into a column for
any type under a tag that is not read, and comes out as null.
-/

namespace RecordStore

open Table (Block Cursor truncateRow)
open Table.Block (contents)
open Record (Stored)

variable {types types' : List ValueType}

/-- A cell of truncated rows. -/
lemma Sheet.cell_map_truncateRow {rows : List (List Value)} {index column : Nat}
    {type : ValueType} (hlengths : ∀ row ∈ rows, row.length = types'.length)
    (hindex : index < rows.length) (htype : types'[column]? = some type) :
    Sheet.cell ⟨types', rows.map (truncateRow types')⟩ index column =
      (Sheet.cell ⟨types, rows⟩ index column).truncateTo type := by
  have hcolumn : column < rows[index].length := by
    rw [hlengths _ (List.getElem_mem hindex)]
    exact (List.getElem?_eq_some_iff.mp htype).1
  have hcell : (truncateRow types' rows[index])[column]? =
      some (rows[index][column].truncateTo type) :=
    List.getElem?_zipWith_eq_some.mpr ⟨_, _, htype, List.getElem?_eq_getElem hcolumn, rfl⟩
  rw [Sheet.cell, Sheet.cell, List.getElem?_map, List.getElem?_eq_getElem hindex, Option.map_some,
    Option.getD_some, Option.getD_some, hcell, List.getElem?_eq_getElem hcolumn]
  rfl

namespace Table

/-- What becomes of a table that adopts a schema with other types. -/
structure Adopts (t : Table) (schema : Schema) (t' : Table) : Prop where
  schema_eq : t'.schema = schema
  eq_emptied : t.schema.size ≠ schema.size → t' = t.emptied schema
  count_eq : t.schema.size = schema.size → t'.numRecords = t.numRecords
  /-- The new table is what a walk over the old one makes of the empty one. -/
  transfer_eq : t.check = .ok () → t.schema.size = schema.size →
    t.transfer t.numRecords t.startCursor (t.emptied schema) (t.emptied schema).endCursor = .ok t'
  /-- The rows are truncated if the new columns tell the types of the old ones, and only then. -/
  values_iff : t.check = .ok () → t.schema.size = schema.size → ∃ rows, t.values = .ok rows ∧
    (t'.values = .ok (rows.map (truncateRow schema.types)) ↔ t.Tells (.configure schema))
  cell_eq : t.check = .ok () → t.Tells (.configure schema) → t.schema.size = schema.size →
    ∀ index column type, index < t.numRecords → schema.type? column = some type → ∃ v,
      (do t.cell (← t.cursorAt index) column) = .ok v ∧
        (do t'.cell (← t'.cursorAt index) column) = .ok (v.truncateTo type)

namespace Migrated

variable {t t' : Table} {schema : Schema} {blocks : List (Block types)}
  {blocks' : List (Block schema.types)}

/-- With as many columns as before the rows are truncated, if they make legible records. -/
lemma values_iff
    (h : Migrated t schema (migrate types schema.types ((contents blocks).map Stored.values)) t'
      blocks') (hschema : schema.Valid) (hsize : types.length = schema.types.length) :
    t'.values = .ok (((contents blocks).map Stored.values).map (truncateRow schema.types)) ↔
      ∀ r ∈ contents blocks', r.Legible := by
  have hiff := map_values_of_migrate_iff h.fresh hschema.isNull_eq_false
  rw [migrate, if_pos hsize] at hiff
  rw [← hiff]
  refine ⟨fun hvalues => (h.holds.eq_of_values hvalues).symm, fun hvalues => ?_⟩
  rw [← hvalues]
  exact h.holds.values_eq (hiff.mp hvalues)

lemma count_eq
    (h : Migrated t schema (migrate types schema.types ((contents blocks).map Stored.values)) t'
      blocks') (hsize : types.length = schema.types.length) (hholds : t.Holds blocks) :
    t'.numRecords = t.numRecords := by
  have hlength := h.fresh.length_eq
  rw [migrate, if_pos hsize, List.length_map, List.length_map] at hlength
  rw [h.holds.count_eq, hholds.count_eq, hlength]

lemma cell_eq
    (h : Migrated t schema (migrate types schema.types ((contents blocks).map Stored.values)) t'
      blocks') (hschema : schema.Valid) (hlegible : ∀ r ∈ contents blocks', r.Legible)
    (hsize : types.length = schema.types.length) {index column : Nat} {type : ValueType}
    (hindex : index < (contents blocks).length) (htype : schema.types[column]? = some type) :
    (do t'.cell (← t'.cursorAt index) column) =
      .ok (((Record.sheetOf (contents blocks)).cell index column).truncateTo type) := by
  have hlengths : ∀ row ∈ (contents blocks).map Stored.values,
      row.length = schema.types.length := by
    intro row hrow
    obtain ⟨r, -, rfl⟩ := List.mem_map.mp hrow
    exact r.length_values.trans hsize
  have hlt : index < ((contents blocks).map Stored.values).length := by
    rw [List.length_map]
    exact hindex
  have hvalues := h.holds.eq_of_values ((h.values_iff hschema hsize).mpr hlegible)
  rw [h.holds.cell_cursorAt hlegible, Record.sheetOf, ← hvalues,
    Sheet.cell_map_truncateRow hlengths hlt htype]
  rfl

end Migrated

end Table

namespace Session

variable {s : Session} {blocks : List (Block types)} {schema : Schema}

/-- A migrated table has adopted the schema. -/
lemma Sound.adopts_of_migrated (h : s.Sound blocks) (hschema : schema.Valid)
    (hdiffers : s.table.schema.types ≠ schema.types) {t : Table}
    {blocks' : List (Block schema.types)} (hrun : s.table.configure schema = .ok (true, t))
    (hmigrated : Table.Migrated s.table schema
      (Table.migrate types schema.types ((contents blocks).map Stored.values)) t blocks') :
    s.table.Adopts schema t := by
  have hsizes : s.table.schema.size = schema.size ↔ types.length = schema.types.length := by
    rw [h.holds.size_eq, Schema.length_types]
  have htells : (∀ r ∈ contents blocks', r.Legible) ↔ s.table.Tells (.configure schema) :=
    (Table.legible_iff_of_fresh hmigrated.fresh).trans h.tells_configure_iff.symm
  refine ⟨hmigrated.schema_eq.trans hschema.fresh, ?_, ?_, ?_, ?_, ?_⟩
  · intro hsize
    have hemptied := h.holds.configure_of_size_ne hdiffers (mt hsizes.mpr hsize)
    exact congrArg Prod.snd (Except.ok.inj (hrun.symm.trans hemptied))
  · intro hsize
    exact hmigrated.count_eq (hsizes.mp hsize) h.holds
  · intro hcheck hsize
    rw [h.holds.configure_eq_transfer hdiffers (hsizes.mp hsize) (h.check_iff.mp hcheck)] at hrun
    obtain ⟨t', htransfer, hpair⟩ := exists_of_map_ok hrun
    obtain rfl := congrArg Prod.snd hpair
    exact htransfer
  · intro hcheck hsize
    exact ⟨_, h.holds.values_eq (h.check_iff.mp hcheck),
      (hmigrated.values_iff hschema (hsizes.mp hsize)).trans htells⟩
  · intro hcheck htold hsize index column type hindex htype
    rw [h.holds.count_eq] at hindex
    rw [Schema.type?_eq] at htype
    exact ⟨_, h.holds.cell_cursorAt (h.check_iff.mp hcheck) index column,
      hmigrated.cell_eq hschema (htells.mpr htold) (hsizes.mp hsize) hindex htype⟩

/-- The adoption of a schema tells whether the types of the columns change. If they do not, every
record and every cursor is kept. If they do, the rows are truncated or dropped, and every cursor
from before is rejected. This fails only for a record that gets too large, or at a field whose type
is not told. -/
theorem Reachable.migration (hs : s.Reachable) (hschema : schema.Reachable) :
    (s.table.schema.types = schema.types →
      s.table.configure schema = .ok (false, { s.table with schema }) ∧
        s.table.Keeps { s.table with schema }) ∧
    (s.table.schema.types ≠ schema.types →
      (∃ t, s.table.configure schema = .ok (true, t) ∧ s.table.Adopts schema t ∧
        ∀ c ∈ s.cursors, t.Rejects c) ∨ s.TooLarge (.configure schema) ∨
        ¬ (s.table.check = .ok () ∧ s.table.Tells (.configure schema)) ∧
          ∃ type, s.table.configure schema = .error (.corruptField type)) := by
  obtain ⟨types, blocks, h⟩ := hs.sound
  refine ⟨?_, ?_⟩
  · intro hsame
    refine ⟨?_, Table.keeps_rename hsame⟩
    rw [Table.configure_of_same hsame, hschema.valid.fresh]
  · intro hdiffers
    refine (h.configure_yields hdiffers).ok_or_fails.imp ?_ (Or.imp ?_ ?_)
    · rintro ⟨⟨changed, t⟩, hrun, rfl, blocks', hmigrated⟩
      exact ⟨t, hrun, h.adopts_of_migrated hschema.valid hdiffers hrun hmigrated,
        fun c hc => Table.rejects_of_lt ((h.past c hc).trans_lt hmigrated.later)⟩
    · rintro ⟨size, hasks, hlarge, hrun⟩
      refine ⟨size, hasks, hlarge, ?_⟩
      rw [Session.step, hrun]
      rfl
    · exact And.imp_left (mt (And.imp_left h.check_iff.mp))

/-- Under another name a byte is kept with its cursor. Under a wider type there is a new record of
the same number, and the cursor is rejected. -/
theorem migration_of_pushed_byte :
    ∃ (s : Session) (c : Cursor) (renamed t : Table),
      s.table.configure (.ofColumns [⟨"y", .integer .bits8 false, 0⟩]) = .ok (false, renamed) ∧
      s.table.Keeps renamed ∧
      s.table.configure (.ofColumns [⟨"x", .integer .bits32 true, 0⟩]) = .ok (true, t) ∧
      (do t.cell (← t.cursorAt 0) 0) = .ok (.integer .bits32 true 7) ∧
      s.table.isValid c = true ∧ t.Rejects c := by
  have hnamed : Schema.Reachable (.ofColumns [⟨"y", .integer .bits8 false, 0⟩]) :=
    @Schema.Reachable.ofLayout [("y", .integer .bits8 false)] _ rfl
  have hwide : Schema.Reachable (.ofColumns [⟨"x", .integer .bits32 true, 0⟩]) :=
    @Schema.Reachable.ofLayout [("x", .integer .bits32 true)] _ rfl
  have hs := told_pushed_byte
  have htold : ValueType.TellsAll [.integer .bits32 true] [.integer .bits8 false] := by decide
  have htells := fun (_ : (1 : Nat) ≠ 0) (_ : (1 : Nat) = 1) => htold
  obtain ⟨hrenamed, hkeeps⟩ := (hs.reachable.migration hnamed).1 rfl
  rcases (hs.reachable.migration hwide).2 (by decide) with
    ⟨t, hrun, hadopts, hrejects⟩ | hlarge | ⟨hillegible, -⟩
  · obtain ⟨v, hv, hcell⟩ := hadopts.cell_eq hs.check_eq htells rfl 0 0 _ Nat.one_pos rfl
    rw [Table.cursorAt, if_neg (by decide), Table.advanceBy, if_pos (.inl rfl)] at hv
    obtain rfl : Value.integer .bits8 false 7 = v := Except.ok.inj hv
    exact ⟨_, _, _, t, hrenamed, hkeeps, hrun, hcell, rfl,
      hrejects _ (List.mem_singleton_self _)⟩
  · obtain ⟨size, ⟨rows, hvalues, row, hrow, rfl⟩, hsize, -⟩ := hlarge
    obtain rfl : [[Value.integer .bits8 false 7]] = rows := Except.ok.inj hvalues
    obtain rfl := List.mem_singleton.mp hrow
    exact absurd hsize (by decide)
  · exact absurd ⟨hs.check_eq, htells⟩ hillegible

/-- The integer five in a column of a type with a flag that has no name. -/
lemma reachable_fiveInUnnamedColumn :
    Reachable ⟨⟨.ofColumns [⟨"x", .integer .bits8 ⟨false, 1⟩, 0⟩],
      [⟨8192, 0, [5, 0, 0, 0, 5], 1⟩], 1, .default, 1, false⟩, [⟨0, 0, 0, 0, 1⟩]⟩ := by
  have hschema : Schema.Reachable (.ofColumns [⟨"x", .integer .bits8 ⟨false, 1⟩, 0⟩]) :=
    @Schema.Reachable.ofLayout [("x", .integer .bits8 ⟨false, 1⟩)] _ rfl
  have hproper : ∀ v ∈ [Value.integer .bits8 false 5], v.Proper := by decide
  exact .step (.new hschema) (show Admits _ (.push [.integer .bits8 false 5]) from hproper) rfl

/-- From there it gets into a column for any type, where it reads as null. -/
theorem migration_of_unnamed_type :
    ∃ (s : Session) (t : Table), s.Reachable ∧ anyColumn.Reachable ∧
      s.table.cell s.table.startCursor 0 = .ok (.integer .bits8 ⟨false, 1⟩ 5) ∧
      (Value.integer .bits8 ⟨false, 1⟩ 5).truncateTo (.dynamic .bits8) =
        .integer .bits8 ⟨false, 1⟩ 5 ∧
      s.table.configure anyColumn = .ok (true, t) ∧ t.cell t.startCursor 0 = .ok .plainNull :=
  ⟨_, { unnamedFive.table with generation := 3 }, reachable_fiveInUnnamedColumn,
    @Schema.Reachable.ofLayout [("any", .dynamic .bits8)] _ rfl, rfl, rfl, rfl, rfl⟩

end Session

end RecordStore
