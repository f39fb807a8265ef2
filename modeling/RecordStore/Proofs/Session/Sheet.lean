import Mathlib
import RecordStore.Proofs.Session.Sound

/-!
# Tables as lists of rows

A sheet is the plain model of a table: the types of the columns and a list of rows. A request does
to a sheet what its name says, at the index of its cursor. A table and a sheet that start alike and
take the same requests stay alike, as long as the columns tell the types of all values: the cells
that can be read are those of the sheet.
-/

namespace RecordStore

open Table (Block Cursor)
open Table.Block (contents)
open Record (Stored freshRow)

variable {types : List ValueType}

structure Sheet where
  types : List ValueType
  rows : List (List Value)

namespace Sheet

/-- The value in a cell, the plain null where there is none. -/
def cell (sheet : Sheet) (index column : Nat) : Value :=
  (((sheet.rows[index]?).getD [])[column]?).getD .plainNull

/-- Put a row in front of the one at `index`. Values are converted to the types of their columns,
missing ones are zero, and those past the last column are dropped. -/
def insert (sheet : Sheet) (index : Nat) (values : List Value) : Sheet :=
  { sheet with rows := sheet.rows.insertIdx index (freshRow sheet.types values) }

def remove (sheet : Sheet) (index : Nat) : Sheet :=
  { sheet with rows := sheet.rows.eraseIdx index }

/-- Put a value, converted to the type of its column, into one cell. -/
def setCell (sheet : Sheet) (index column : Nat) (value : Value) : Sheet :=
  match sheet.types[column]? with
  | none => sheet
  | some type =>
    { sheet with
      rows := sheet.rows.modify index fun row => row.set column (value.convertTo type).stored }

/-- Take over other types. With as many columns as before every value is truncated to its type. -/
def migrate (sheet : Sheet) (types : List ValueType) : Sheet :=
  if sheet.types = types then sheet else ⟨types, Table.migrate sheet.types types sheet.rows⟩

/-- What a request means. Through a cursor that is not current nothing is changed. -/
def apply (sheet : Sheet) (current : Cursor → Bool) : Request → Sheet
  | .insert c values => if current c then sheet.insert c.index values else sheet
  | .push values => sheet.insert sheet.rows.length values
  | .remove c => if current c then sheet.remove c.index else sheet
  | .setField c column value => if current c then sheet.setCell c.index column value else sheet
  | .clear => { sheet with rows := [] }
  | .configure schema => sheet.migrate schema.types
  | .start | .finish | .seek _ | .advance _ | .advanceBy _ _ | .rows | .optimize | .write _ => sheet

end Sheet

/-- What can be read of a table as a sheet. -/
def Table.sheet (t : Table) : Sheet := ⟨t.schema.types, t.values.toOption.getD []⟩

/-- The sheet of stored records. -/
def Record.sheetOf (records : List (Stored types)) : Sheet := ⟨types, records.map Stored.values⟩

/-! ### Effects on the sheet -/

/-- New records read as their rows if they are legible, and only then. -/
lemma map_values_of_fresh_iff {floor : Nat} {rows : List (List Value)}
    {records : List (Stored types)}
    (h : List.Forall₂ (fun row (r : Stored types) => r.IsFresh row floor) rows records)
    (hrows : ∀ row ∈ rows, ∀ v ∈ row, v.Proper) :
    records.map Stored.values = rows.map (freshRow types) ↔ ∀ r ∈ records, r.Legible := by
  induction h with
  | nil => exact iff_of_true rfl nofun
  | cons hfresh _ ih =>
    obtain ⟨hrow, hrows⟩ := List.forall_mem_cons.mp hrows
    rw [List.map_cons, List.map_cons, List.cons_eq_cons, hfresh.values_eq_iff hrow, ih hrows,
      List.forall_mem_cons]

/-- Migrated rows are stored as they are. -/
lemma freshRow_of_mem_migrate {types' : List ValueType} {records : List (Stored types)}
    (hnull : ∀ type ∈ types', type.isNull = false) {row : List Value}
    (h : row ∈ Table.migrate types types' (records.map Stored.values)) :
    freshRow types' row = row ∧ ∀ v ∈ row, v.Proper := by
  rw [Table.migrate] at h
  split_ifs at h with hlength
  · obtain ⟨row', hrow', rfl⟩ := List.mem_map.mp h
    obtain ⟨r, -, rfl⟩ := List.mem_map.mp hrow'
    refine ⟨?_, Table.proper_truncateRow types' r.proper_values⟩
    exact Table.freshRow_truncateRow hnull (r.length_values.trans hlength) r.stored_values
  · cases h

/-- New records of migrated rows read as these rows if they are legible, and only then. -/
lemma map_values_of_migrate_iff {types' : List ValueType} {floor : Nat}
    {records : List (Stored types)} {records' : List (Stored types')}
    (h : List.Forall₂ (fun row (r : Stored types') => r.IsFresh row floor)
      (Table.migrate types types' (records.map Stored.values)) records')
    (hnull : ∀ type ∈ types', type.isNull = false) :
    records'.map Stored.values = Table.migrate types types' (records.map Stored.values) ↔
      ∀ r ∈ records', r.Legible := by
  have hself : ∀ row ∈ Table.migrate types types' (records.map Stored.values),
      freshRow types' row = row := fun row hrow => (freshRow_of_mem_migrate hnull hrow).1
  rw [← map_values_of_fresh_iff h fun row hrow => (freshRow_of_mem_migrate hnull hrow).2,
    List.map_congr_left hself, List.map_id']

/-- Where all records are legible, an effect is the meaning of the request on their sheet if it
leaves legible records, and only then. -/
theorem Effect.sheetOf_eq_iff {t : Table} {records : List (Stored types)} {request : Request}
    {types' : List ValueType} {records' : List (Stored types')}
    (h : Effect t records request types' records') (legible : ∀ r ∈ records, r.Legible)
    (hnull : ∀ type ∈ types', type.isNull = false) :
    Record.sheetOf records' = (Record.sheetOf records).apply t.isCurrent request ↔
      ∀ r ∈ records', r.Legible := by
  cases h with
  | look h => exact iff_of_true (by cases request <;> first | rfl | cases h) legible
  | stale h hstale =>
    refine iff_of_true ?_ legible
    cases request <;> cases h <;> simp only [Sheet.apply, hstale, Bool.false_eq_true, if_false]
  | @insert c values r hcurrent hle hvalues hfresh =>
    have hlength : c.index ≤ (records.map Stored.values).length := by rwa [List.length_map]
    rw [legible_insertIdx_iff legible hle, ← hfresh.values_eq_iff hvalues, Sheet.apply,
      if_pos hcurrent, Sheet.insert, Record.sheetOf, Record.sheetOf, Sheet.mk.injEq,
      List.map_insertIdx, and_iff_right rfl]
    refine ⟨fun heq => ?_, congrArg _⟩
    have hrow := congrArg (·[c.index]?) heq
    rw [List.getElem?_insertIdx_self, List.getElem?_insertIdx_self, if_pos hlength,
      if_pos hlength] at hrow
    exact Option.some.inj hrow
  | push hvalues hfresh =>
    rw [Sheet.apply, Sheet.insert, List.insertIdx_length_self, Record.sheetOf, Record.sheetOf,
      Sheet.mk.injEq, List.map_append, List.map_singleton, List.append_cancel_left_eq,
      List.forall_mem_append, List.forall_mem_singleton, ← hfresh.values_eq_iff hvalues]
    simp only [true_and, and_iff_right legible, List.cons.injEq, and_true]
  | remove hcurrent =>
    refine iff_of_true ?_ fun r hr => legible r (List.mem_of_mem_eraseIdx hr)
    rw [Sheet.apply, if_pos hcurrent, Sheet.remove, Record.sheetOf, ← List.eraseIdx_map]
    rfl
  | @setField c column value type r r' hcurrent hr htype hvalue hchanged =>
    have hlt := (List.getElem?_eq_some_iff.mp hr).1
    have hlength : c.index < (records.map Stored.values).length := by rwa [List.length_map]
    have hrow : (records.map Stored.values)[c.index]? = some r.values := by
      rw [List.getElem?_map, hr]
      rfl
    rw [legible_set_iff legible hlt,
      hchanged.legible_iff htype (legible r (List.mem_of_getElem? hr)),
      ← hchanged.values_eq_iff htype hvalue, Sheet.apply, if_pos hcurrent, Sheet.setCell,
      Record.sheetOf, Record.sheetOf, htype, List.map_set]
    simp only [List.modify_eq_set, hrow, Option.getD_some, Sheet.mk.injEq, true_and]
    refine ⟨fun heq => ?_, congrArg _⟩
    have hcells := congrArg (·[c.index]?) heq
    rw [List.getElem?_set_self hlength, List.getElem?_set_self hlength] at hcells
    exact Option.some.inj hcells
  | @setFieldNone c column value hcurrent h =>
    refine iff_of_true ?_ legible
    rw [Sheet.apply, if_pos hcurrent, Sheet.setCell, Record.sheetOf]
    cases htype : types[column]? with
    | none => rfl
    | some type =>
      have hcolumn := (List.getElem?_eq_some_iff.mp htype).1
      have hrows : (records.map Stored.values).length ≤ c.index := by
        rw [List.length_map]
        exact h.resolve_right (Nat.not_le.mpr hcolumn)
      simp only [List.modify_eq_self hrows]
  | clear => exact iff_of_true rfl nofun
  | packed h _ => exact iff_of_true (by cases request <;> first | rfl | cases h) legible
  | pack h _ =>
    have hvalues : (records.map Stored.trim).map Stored.values = records.map Stored.values := by
      rw [List.map_map]
      rfl
    refine iff_of_true ?_ (List.forall_mem_map.mpr legible)
    rw [Record.sheetOf, hvalues]
    cases request <;> first | rfl | cases h
  | rename h =>
    refine iff_of_true ?_ legible
    rw [Sheet.apply, Sheet.migrate]
    exact (if_pos h).symm
  | @migrate schema records' h hfresh =>
    have hmigrate : (Record.sheetOf records).migrate schema.types =
        ⟨schema.types, Table.migrate types schema.types (records.map Stored.values)⟩ := if_neg h
    rw [Sheet.apply, hmigrate, Record.sheetOf, Sheet.mk.injEq,
      ← map_values_of_migrate_iff hfresh hnull]
    exact and_iff_right rfl

/-! ### Reading the sheet -/

/-- The cells at a seated cursor are those of the sheet. -/
lemma Table.Holds.cell_eq_sheet {t : Table} {blocks : List (Block types)} (h : t.Holds blocks)
    (legible : ∀ r ∈ contents blocks, r.Legible) {c : Cursor} (hcurrent : t.isCurrent c = true)
    (hc : Table.Seated blocks c) (column : Nat) :
    t.cell c column = .ok ((Record.sheetOf (contents blocks)).cell c.index column) := by
  rw [Sheet.cell, Record.sheetOf, List.getElem?_map]
  cases hr : (contents blocks)[c.index]? with
  | none =>
    have hinvalid := h.isValid_of_length_le (List.getElem?_eq_none_iff.mp hr)
    exact cell_eq_null hinvalid column
  | some r => exact h.cell_eq hcurrent hc hr (legible r (List.mem_of_getElem? hr)) column

lemma Sheet.cell_of_length_le {sheet : Sheet} {index : Nat} (h : sheet.rows.length ≤ index)
    (column : Nat) : sheet.cell index column = .plainNull := by
  rw [cell, List.getElem?_eq_none h]
  rfl

/-- Finding a row by its number and reading a cell of it. -/
lemma Table.Holds.cell_cursorAt {t : Table} {blocks : List (Block types)} (h : t.Holds blocks)
    (legible : ∀ r ∈ contents blocks, r.Legible) (index column : Nat) :
    (do t.cell (← t.cursorAt index) column) =
      .ok ((Record.sheetOf (contents blocks)).cell index column) := by
  have hseated := seated_seat t.generation (Nat.min_le_right index (contents blocks).length)
  have hcell := h.cell_eq_sheet legible (Table.isCurrent_seat ..) hseated column
  rw [h.cursorAt_eq, ok_bind, hcell]
  rcases Nat.le_total index (contents blocks).length with hle | hle
  · change Except.ok (Sheet.cell _ (min index (contents blocks).length) column) = _
    rw [Nat.min_eq_left hle]
  · change Except.ok (Sheet.cell _ (min index (contents blocks).length) column) = _
    rw [Nat.min_eq_right hle, Sheet.cell_of_length_le (by rw [Record.sheetOf, List.length_map]),
      Sheet.cell_of_length_le (by rwa [Record.sheetOf, List.length_map])]

namespace Session

/-! ### Runs side by side -/

/-- A table and a sheet that start alike and take the same requests, in which the columns tell the
types of all values. -/
inductive Lockstep : Session → Sheet → Prop
  | new {schema : Schema} (hschema : schema.Reachable) :
      Lockstep ⟨.new schema, []⟩ ⟨schema.types, []⟩
  | withConfig {schema : Schema} {config : Table.Config} {t : Table} (hschema : schema.Reachable)
      (h : Table.withConfig schema config = .ok t) : Lockstep ⟨t, []⟩ ⟨schema.types, []⟩
  | read {config : Table.Config} {input rest : Bytes} {t : Table}
      (h : Table.readWithConfig config input = .ok (t, rest)) : Lockstep ⟨t, []⟩ t.sheet
  | step {s s' : Session} {sheet : Sheet} {request : Request} (hs : Lockstep s sheet)
      (hadmits : s.Admits request) (htells : s.table.Tells request) (h : s.step request = .ok s') :
      Lockstep s' (sheet.apply s.table.isCurrent request)

/-- The sheet is the one of the records of a sound table. -/
lemma Lockstep.sound {s : Session} {sheet : Sheet} (h : Lockstep s sheet) :
    ∃ (types : List ValueType) (blocks : List (Block types)), s.Sound blocks ∧
      (∀ r ∈ contents blocks, r.Legible) ∧ sheet = Record.sheetOf (contents blocks) := by
  induction h with
  | new hschema => exact ⟨_, [], sound_build hschema.valid rfl, nofun, rfl⟩
  | withConfig hschema h =>
    obtain ⟨hconfig, rfl⟩ := withConfig_eq_ok.mp h
    exact ⟨_, [], sound_build hschema.valid hconfig, nofun, rfl⟩
  | read h =>
    obtain ⟨⟨blocks, hread⟩, -⟩ := Table.readWithConfig_eq_ok.mp h
    have legible := Table.legible_of_tight hread.tight
    refine ⟨_, blocks, sound_read hread, legible, ?_⟩
    rw [Table.sheet, hread.holds.values_eq legible]
    rfl
  | step _ hadmits htells h ih =>
    obtain ⟨types, blocks, hsound, legible, rfl⟩ := ih
    obtain ⟨types', blocks', hsound', heffect⟩ := (hsound.step_yields hadmits).post_of_ok h
    have legible' := (hsound.legible_iff_tells hadmits heffect legible).mpr htells
    exact ⟨types', blocks', hsound', legible',
      ((heffect.sheetOf_eq_iff legible hsound'.isNull_eq_false).mpr legible').symm⟩

/-- Everything that can be read of the table is what the sheet says. -/
structure Agrees (s : Session) (sheet : Sheet) : Prop where
  types_eq : s.table.schema.types = sheet.types
  count_eq : s.table.numRecords = sheet.rows.length
  values_eq : s.table.values = .ok sheet.rows
  /-- By a row number. -/
  cell_cursorAt : ∀ index column,
    (do s.table.cell (← s.table.cursorAt index) column) = .ok (sheet.cell index column)
  /-- At a cursor that was handed out and is current. -/
  cell_eq : ∀ c ∈ s.cursors, s.table.isCurrent c = true → c.index ≤ sheet.rows.length ∧
    ∀ column, s.table.cell c column = .ok (sheet.cell c.index column)

lemma Sound.agrees_sheetOf {s : Session} {blocks : List (Block types)} (h : s.Sound blocks)
    (legible : ∀ r ∈ contents blocks, r.Legible) :
    s.Agrees (Record.sheetOf (contents blocks)) := by
  have hrows : (Record.sheetOf (contents blocks)).rows.length = (contents blocks).length :=
    List.length_map _
  refine ⟨h.holds.types_eq, ?_, h.holds.values_eq legible, h.holds.cell_cursorAt legible, ?_⟩
  · rw [hrows, h.holds.count_eq]
  · intro c hc hcurrent
    have hseated := h.seated c hc hcurrent
    exact ⟨hrows.symm ▸ hseated.2, h.holds.cell_eq_sheet legible hcurrent hseated⟩

/-- The table agrees with no sheet but the one of its records. -/
lemma Sound.eq_of_agrees {s : Session} {blocks : List (Block types)} (h : s.Sound blocks)
    {sheet : Sheet} (hagrees : s.Agrees sheet) : Record.sheetOf (contents blocks) = sheet :=
  congrArg₂ Sheet.mk (h.holds.types_eq.symm.trans hagrees.types_eq)
    (h.holds.eq_of_values hagrees.values_eq).symm

/-- After every step of such a run the table agrees with its sheet. The next step fails only if it
asks for a record that would not fit its header. Once a step puts in a value of a type that its
column does not tell, the table and the sheet agree no more. -/
theorem Lockstep.agrees {s : Session} {sheet : Sheet} (h : Lockstep s sheet) :
    s.Agrees sheet ∧ ∀ request, s.Admits request →
      (s.table.Tells request → (∃ s', s.step request = .ok s') ∨
        ∃ size, s.Asks size request ∧ 2 ^ 32 ≤ size ∧
          s.step request = .error (.recordTooLarge size)) ∧
      ∀ s', s.step request = .ok s' →
        (s'.Agrees (sheet.apply s.table.isCurrent request) ↔ s.table.Tells request) := by
  obtain ⟨types, blocks, hsound, legible, rfl⟩ := h.sound
  refine ⟨hsound.agrees_sheetOf legible, fun request hadmits => ⟨?_, fun s' hrun => ?_⟩⟩
  · exact hsound.step_ok_or_tooLarge hadmits (hsound.check_iff.mpr legible)
  · obtain ⟨types', blocks', hsound', heffect⟩ := (hsound.step_yields hadmits).post_of_ok hrun
    rw [← hsound.legible_iff_tells hadmits heffect legible,
      ← heffect.sheetOf_eq_iff legible hsound'.isNull_eq_false]
    refine ⟨hsound'.eq_of_agrees, fun heq => ?_⟩
    rw [← heq]
    refine hsound'.agrees_sheetOf ?_
    exact (heffect.sheetOf_eq_iff legible hsound'.isNull_eq_false).mp heq

/-- A row in front of another: its number is saturated, and its missing cell is null. -/
theorem agrees_after_insertion :
    ∃ s sheet, Lockstep s sheet ∧ s.Agrees sheet ∧
      sheet.rows = [[.integer .bits8 false 255, .plainNull],
        [.integer .bits8 false 7, .string .bits8 [97]]] := by
  have hschema : Schema.Reachable (.ofColumns
      [⟨"id", .integer .bits8 false, 0⟩, ⟨"any", .dynamic .bits8, 0⟩]) :=
    @Schema.Reachable.ofLayout [("id", .integer .bits8 false), ("any", .dynamic .bits8)] _ rfl
  have hpush : Admits ⟨.new (.ofColumns
      [⟨"id", .integer .bits8 false, 0⟩, ⟨"any", .dynamic .bits8, 0⟩]), []⟩
      (.push [.integer .bits8 false 7, .string .bits8 [97]]) := by
    change ∀ v ∈ [Value.integer .bits8 false 7, .string .bits8 [97]], v.Proper
    decide
  have htold : ValueType.TellsAll [.integer .bits8 false, .dynamic .bits8]
      [.integer .bits8 false, .string .bits8] := by
    decide
  have htold' : ValueType.TellsAll [.integer .bits8 false, .dynamic .bits8]
      [.integer .bits32 true] := by
    decide
  have hs := Lockstep.step (.new hschema) hpush htold rfl
  have hs' := @Lockstep.step _ _ _ (.insert ⟨0, 0, 0, 0, 1⟩ [.integer .bits32 true 300]) hs
    ⟨List.mem_singleton_self _, by decide⟩ (fun _ => htold') rfl
  exact ⟨_, _, hs', hs'.agrees.1, by decide⟩

/-- A table and its sheet part over the integer five under a type with a flag that has no name: it
is in the sheet, and the table reads null. -/
theorem sheet_parted_by_unnamed_type :
    ∃ (s s' : Session) (request : Request), s.Reachable ∧ s.Admits request ∧
      s.step request = .ok s' ∧ s.table.sheet = ⟨[.dynamic .bits8], []⟩ ∧
      (s.table.sheet.apply s.table.isCurrent request).rows = [[.integer .bits8 ⟨false, 1⟩ 5]] ∧
      s'.table.values = .ok [[.plainNull]] :=
  ⟨_, _, _, reachable_anyColumn, admits_unnamedFive, step_unnamedFive, rfl, rfl, rfl⟩

end Session

end RecordStore
