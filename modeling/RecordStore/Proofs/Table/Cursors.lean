import Mathlib
import RecordStore.Proofs.Table.Edit

/-!
# What becomes of cursors

A cursor that is current is in its place: it is the one that its index finds. A change carries its
own cursor on, with the index that it had, to the row that has this index now. All other cursors
are rejected from then on: they read nothing and change nothing. Where nothing is changed, every
cursor is kept.
-/

namespace RecordStore.Table

open Record
open Block (contents)

variable {types : List ValueType} {t : Table} {blocks : List (Block types)} {c : Cursor}

/-! ### In place -/

/-- The cursor is the one that its index finds, at a record or at the end. -/
structure InPlace (t : Table) (c : Cursor) : Prop where
  index_le : c.index ≤ t.numRecords
  cursorAt_eq : t.cursorAt c.index = .ok c
  eq_endCursor : c.index = t.numRecords → c = t.endCursor

/-- What is read in each column at the cursor. -/
def reads (t : Table) (c : Cursor) : List (Except Fault Value) :=
  (List.range t.schema.size).map (t.cell c)

/-- What is read of each row in each column. -/
def readRows (t : Table) : Except Fault (List (List (Except Fault Value))) :=
  List.map t.reads <$> t.rows.cursors

/-- What is read of the row at the cursor, if it is at one. -/
def row? (t : Table) (c : Cursor) : Option (List (Except Fault Value)) :=
  if t.isValid c then some (t.reads c) else none

/-- Where every cell is read, these are the values of the rows. -/
lemma values_of_readRows {t : Table} {rows : List (List Value)}
    (h : t.readRows = .ok (rows.map (List.map .ok))) : t.values = .ok rows := by
  obtain ⟨cursors, hcursors, hreads⟩ := exists_of_map_ok h
  rw [values, hcursors, ok_bind]
  clear h hcursors
  induction rows generalizing cursors with
  | nil =>
    obtain rfl := List.map_eq_nil_iff.mp hreads
    rfl
  | cons row rows ih =>
    cases cursors with
    | nil => cases hreads
    | cons c cursors =>
      obtain ⟨hrow, hrows⟩ := List.cons.inj hreads
      rw [List.mapM_cons, cells, mapM_of_map_eq hrow, ok_bind, ih cursors hrows]
      rfl

namespace Holds

/-- The seat of a cursor that is current is where its index finds it. -/
lemma inPlace (h : t.Holds blocks) (hcurrent : t.isCurrent c = true) (hc : Seated blocks c) :
    t.InPlace c := by
  have hgeneration := isCurrent_iff.mp hcurrent
  have hseat : c = seat blocks t.generation c.index := hgeneration ▸ hc.1
  refine ⟨?_, ?_, ?_⟩
  · rw [h.count_eq]
    exact hc.2
  · rw [h.cursorAt_eq, Nat.min_eq_left hc.2, ← hseat]
  · intro hend
    rw [h.endCursor_eq, ← h.count_eq, ← hend, ← hseat]

lemma reads_eq (h : t.Holds blocks) (hcurrent : t.isCurrent c = true) (hc : Seated blocks c)
    {r : Stored types} (hr : (contents blocks)[c.index]? = some r) : t.reads c = r.reads := by
  rw [reads, h.size_eq]
  exact List.map_congr_left fun column _ => h.cell_eq_read hcurrent hc hr column

/-- What is read of the rows is what is read of the records. -/
theorem readRows_eq (h : t.Holds blocks) :
    t.readRows = .ok ((contents blocks).map Stored.reads) := by
  rw [readRows, h.cursors_eq]
  refine congrArg Except.ok (List.ext_getElem (by simp) ?_)
  intro i hi hi'
  have hlt : i < (contents blocks).length := by simpa using hi'
  simp only [List.getElem_map, List.getElem_range]
  exact h.reads_eq (isCurrent_seat ..) (seated_seat _ hlt.le) (List.getElem?_eq_getElem hlt)

/-- A seated cursor is at the row of its record. -/
lemma row?_eq (h : t.Holds blocks) (hcurrent : t.isCurrent c = true) (hc : Seated blocks c) :
    t.row? c = (contents blocks)[c.index]?.map Stored.reads := by
  rw [row?]
  cases hr : (contents blocks)[c.index]? with
  | none =>
    rw [h.isValid_of_length_le (List.getElem?_eq_none_iff.mp hr)]
    rfl
  | some r =>
    have hlt := (List.getElem?_eq_some_iff.mp hr).1
    rw [(h.isValid_iff fun _ => hc).mpr ⟨hcurrent, hc, hlt⟩, h.reads_eq hcurrent hc hr]
    rfl

end Holds

/-! ### Carried on -/

/-- What a change leaves: these rows, and its cursor in place at the index that it had, where this
row is now. -/
structure Carries (c : Cursor) (rows : List (List (Except Fault Value)))
    (row : Option (List (Except Fault Value))) (result : Table × Cursor) : Prop where
  readRows_eq : result.1.readRows = .ok rows
  values_eq : ∀ values, rows = values.map (List.map .ok) → result.1.values = .ok values
  index_eq : result.2.index = c.index
  current : result.1.isCurrent result.2 = true
  inPlace : result.1.InPlace result.2
  row?_eq : result.1.row? result.2 = row

/-- A change carries its cursor on. -/
lemma Edited.carries {records : List (Stored types)} {result : Table × Cursor}
    (h : Edited t c records result) :
    Carries c (records.map Stored.reads) (records[c.index]?.map Stored.reads) result := by
  obtain ⟨blocks, hholds, rfl, hseated⟩ := h.layout
  refine ⟨hholds.readRows_eq, ?_, h.index_eq, h.current, hholds.inPlace h.current hseated, ?_⟩
  · intro values hvalues
    exact values_of_readRows (hvalues ▸ hholds.readRows_eq)
  · rw [hholds.row?_eq h.current hseated, h.index_eq]

/-! ### Rejected -/

/-- Through the cursor nothing is read and nothing is changed, the cursor included. -/
structure Rejects (t : Table) (c : Cursor) : Prop where
  isValid_eq : t.isValid c = false
  isPosition_eq : t.isPosition c = false
  advance?_eq : t.advance? c = .ok none
  advanceBy_eq : ∀ n, t.advanceBy n c = .ok (0, c)
  cell_eq : ∀ column, t.cell c column = .ok .plainNull
  insert_eq : ∀ values, t.insert c values = .ok (t, c)
  remove_eq : t.remove c = .ok (t, c)
  setField_eq : ∀ column value, t.setField c column value = .ok (t, c)

/-- A cursor of another generation is rejected. -/
theorem rejects_of_stale (h : t.isCurrent c = false) : t.Rejects c where
  isValid_eq := isValid_of_stale h
  isPosition_eq := isPosition_of_stale h
  advance?_eq := Holds.advance?_eq_none (isValid_of_stale h)
  advanceBy_eq := Holds.advanceBy_eq_self (isValid_of_stale h)
  cell_eq := Holds.cell_eq_null (isValid_of_stale h)
  insert_eq := insert_eq_self (isPosition_of_stale h)
  remove_eq := remove_eq_self (isValid_of_stale h)
  setField_eq _ := setField_eq_self (.inl (isValid_of_stale h))

/-- Every cursor of an earlier generation is rejected. -/
lemma rejects_of_lt (h : c.generation < t.generation) : t.Rejects c :=
  rejects_of_stale (decide_eq_false h.ne)

/-! ### Kept -/

/-- Nothing but the names of columns may have changed, and every cursor is at what it was at. -/
structure Keeps (t t' : Table) : Prop where
  eq : t' = { t with schema := t'.schema }
  isValid_eq : ∀ c, t'.isValid c = t.isValid c
  isPosition_eq : ∀ c, t'.isPosition c = t.isPosition c
  cell_eq : ∀ c column, t'.cell c column = t.cell c column

lemma keeps_self (t : Table) : t.Keeps t := ⟨rfl, fun _ => rfl, fun _ => rfl, fun _ _ => rfl⟩

/-- Cells are read by the types of the columns. -/
lemma keeps_rename {schema : Schema} (h : t.schema.types = schema.types) :
    t.Keeps { t with schema } := by
  refine ⟨rfl, fun _ => rfl, fun _ => rfl, ?_⟩
  intro c column
  have htype : schema.type? column = t.schema.type? column := by
    rw [Schema.type?_eq, Schema.type?_eq, h]
  simp only [cell, htype, ← h]
  rfl

end RecordStore.Table
