import Mathlib
import RecordStore.Proofs.Schema.Valid
import RecordStore.Proofs.Table.Edit
import RecordStore.Table.Edit

/-!
# Migrating a sound table

A schema with the same types changes no record. Other types for as many columns turn every row into
the row of its truncated values; other numbers of columns leave no rows. The new rows are also those
that a walk makes which goes through the old table with one cursor and through the new one with
another.
-/

namespace RecordStore.Table

open Record
open Block (contents)

variable {types : List ValueType}

/-! ### Truncated rows -/

/-- The values of a row, truncated to other types. -/
def truncateRow (types : List ValueType) (row : List Value) : List Value :=
  types.zipWith (fun type v => v.truncateTo type) row

/-- A truncated value is stored as it is. -/
lemma stored_truncateTo {t : ValueType} (hnull : t.isNull = false) {v : Value}
    (hv : v.stored = v) : ((v.truncateTo t).convertTo t).stored = v.truncateTo t := by
  by_cases hdynamic : t.isDynamic = true
  · cases t with
    | dynamic w => rw [Value.truncateTo_dynamic, Value.convertTo_dynamic, hv]
    | null w | integer w flags | decimal w | objectId w | string w => cases hdynamic
  · have hplain : t.isDynamic = false := by simpa using hdynamic
    have htype := Value.type_truncateTo v hplain
    have hconvert : (v.truncateTo t).convertTo t = v.truncateTo t := by
      have hself := Value.convertTo_self (v.truncateTo t)
      rwa [htype] at hself
    rw [hconvert, Value.stored_of_type (by rw [htype]; exact hnull) (by rw [htype]; exact hplain)]

/-- A new record of a truncated row reads as that row. -/
lemma freshRow_truncateRow {types : List ValueType} (hnull : ∀ t ∈ types, t.isNull = false)
    {row : List Value} (hlength : row.length = types.length) (hrow : ∀ v ∈ row, v.stored = v) :
    freshRow types (truncateRow types row) = truncateRow types row := by
  induction types generalizing row with
  | nil => rfl
  | cons t ts ih =>
    cases row with
    | nil => cases hlength
    | cons v vs =>
      obtain ⟨ht, hts⟩ := List.forall_mem_cons.mp hnull
      obtain ⟨hv, hvs⟩ := List.forall_mem_cons.mp hrow
      have := ih hts (Nat.succ.inj hlength) hvs
      rw [truncateRow] at this ⊢
      rw [List.zipWith_cons_cons, freshRow, stored_truncateTo ht hv, this]

lemma proper_truncateRow (types : List ValueType) {row : List Value} (h : ∀ v ∈ row, v.Proper) :
    ∀ v ∈ truncateRow types row, v.Proper := by
  intro v hv
  obtain ⟨i, hi⟩ := List.mem_iff_getElem?.mp hv
  obtain ⟨t, v', -, hv', rfl⟩ := List.getElem?_zipWith_eq_some.mp hi
  exact Value.proper_truncateTo (h v' (List.mem_of_getElem? hv')) t

/-- Truncated values are told where the values themselves are: a column for any type keeps them, and
no other column tells a type. -/
lemma legibleRow_truncateRow_iff {types : List ValueType} {row : List Value} :
    LegibleRow types (truncateRow types row) ↔ ValueType.TellsAll types (row.map Value.type) := by
  rw [legibleRow_iff]
  induction types generalizing row with
  | nil => exact iff_of_true nofun nofun
  | cons t ts ih =>
    cases row with
    | nil => exact Iff.rfl
    | cons v vs =>
      have htells : t.Tells (v.truncateTo t).type ↔ t.Tells v.type := by
        cases t with
        | dynamic w => rw [Value.truncateTo_dynamic]
        | null w | integer w flags | decimal w | objectId w | string w =>
          exact iff_of_true nofun nofun
      rw [truncateRow, List.zipWith_cons_cons, List.map_cons, List.map_cons,
        ValueType.tellsAll_cons, ValueType.tellsAll_cons]
      exact and_congr htells ih

namespace Holds

variable {t : Table} {blocks : List (Block types)}

/-- The truncated values of all rows. -/
lemma truncatedRows_eq (h : t.Holds blocks) (types' : List ValueType) :
    (do t.truncatedRows types' (← t.rows.cursors)) =
      List.map (truncateRow types') <$> t.values := by
  rw [values, h.cursors_eq, ok_bind, ok_bind]
  exact mapM_pure t.cells (truncateRow types') _

/-- Rows that are appended one after the other are behind all others. -/
theorem pushAll_yields (h : t.Holds blocks) {rows : List (List Value)}
    (hrows : ∀ row ∈ rows, ∀ v ∈ row, v.Proper) :
    Yields (fun size => ∃ row ∈ rows, size = reserveSize types row t.config.minStringReserve)
      (¬ ∀ row ∈ rows, LegibleRow types row)
      (fun t' => ∃ (records : List (Stored types)) (blocks' : List (Block types)),
        List.Forall₂ (fun row r => r.IsFresh row t.config.minStringReserve) rows records ∧
          t'.Holds blocks' ∧ contents blocks' = contents blocks ++ records ∧
          t'.schema = t.schema ∧ t'.config = t.config ∧
          t'.generation = t.generation + rows.length ∧
          t'.compact = (t.compact && rows.isEmpty))
      (t.pushAll rows) := by
  induction rows generalizing t blocks with
  | nil =>
    refine .ok ⟨[], blocks, .nil, h, (List.append_nil _).symm, rfl, rfl, rfl, ?_⟩
    rw [List.isEmpty_nil, Bool.and_true]
  | cons row rows ih =>
    obtain ⟨hrow, hrows⟩ := List.forall_mem_cons.mp hrows
    rw [pushAll, List.foldlM_cons]
    have hpush : Yields (· = reserveSize types row t.config.minStringReserve)
        (t.config.checkInvariants = true ∧ ¬ LegibleRow types row)
        (fun t' => ∃ r : Stored types, ∃ c : Cursor, r.IsFresh row t.config.minStringReserve ∧
          Edited t t.endCursor (contents blocks ++ [r]) (t', c)) (Prod.fst <$> t.push row) :=
      (h.push_yields hrow).map fun result ⟨r, hfresh, hedited⟩ => ⟨r, result.2, hfresh, hedited⟩
    have hdamage : t.config.checkInvariants = true ∧ ¬ LegibleRow types row →
        ¬ ∀ row' ∈ row :: rows, LegibleRow types row' :=
      fun hbad hall => hbad.2 (hall row List.mem_cons_self)
    refine (hpush.widen (fun _ hsize => ⟨row, List.mem_cons_self, hsize⟩) hdamage).bind ?_
    · rintro t' ⟨r, c, hfresh, hedited⟩
      obtain ⟨blocks', hholds, hcontents, -⟩ := hedited.layout
      refine ((ih hholds hrows).widen ?_ ?_).mono ?_
      · rintro size ⟨row', hrow', hsize⟩
        exact ⟨row', List.mem_cons_of_mem _ hrow', hedited.config_eq ▸ hsize⟩
      · exact mt fun hall => (List.forall_mem_cons.mp hall).2
      rintro t'' ⟨records, blocks'', hall, hholds', hcontents', hschema, hconfig, hgeneration,
        hcompact⟩
      refine ⟨r :: records, blocks'', ?_, hholds', ?_, ?_, ?_, ?_, ?_⟩
      · refine .cons hfresh ?_
        rw [hedited.config_eq] at hall
        exact hall
      · rw [hcontents', hcontents, List.append_assoc]
        rfl
      · rw [hschema, hedited.schema_eq]
      · rw [hconfig, hedited.config_eq]
      · rw [hgeneration, hedited.generation_eq, List.length_cons]
        omega
      · rw [hcompact, hedited.compact_eq, List.isEmpty_cons, Bool.and_false, Bool.false_and]

end Holds

/-! ### Another schema -/

variable {t : Table} {blocks : List (Block types)}

/-- The schema that a table adopts. -/
lemma types_adopted (schema : Schema) : (Schema.ofColumns schema.columns).types = schema.types := by
  rw [Schema.types_eq_layout, Schema.layout_ofColumns, Schema.types_eq_layout]
  rfl

/-- With the same types nothing but the schema changes. -/
lemma configure_of_same {schema : Schema} (h : t.schema.types = schema.types) :
    t.configure schema = .ok (false, { t with schema := .ofColumns schema.columns }) := by
  have hassign : t.schema.assign schema = (false, .ofColumns schema.columns) := by
    rw [Schema.assign, Schema.layoutDiffers, h]
    simp
  rw [configure, hassign]
  rfl

/-- What is left of a table when it adopts a schema and no row is kept. -/
def emptied (t : Table) (schema : Schema) : Table :=
  { t with
    schema := .ofColumns schema.columns
    chunks := []
    numRecords := 0
    generation := t.generation + 1
    compact := true }

lemma holds_emptied (t : Table) (schema : Schema) :
    (t.emptied schema).Holds ([] : List (Block schema.types)) :=
  ⟨⟨types_adopted schema, rfl, rfl⟩, fun _ _ hnone => absurd hnone List.not_mem_nil⟩

lemma configure_of_differs {schema : Schema} (h : t.schema.types ≠ schema.types) :
    t.configure schema =
      if t.schema.size = (Schema.ofColumns schema.columns).size ∧
          !(Schema.ofColumns schema.columns).isEmpty then do
        let rows ← t.truncatedRows schema.types (← t.rows.cursors)
        return (true, ← (t.emptied schema).pushAll rows)
      else .ok (true, t.emptied schema) := by
  have hassign : t.schema.assign schema = (true, .ofColumns schema.columns) := by
    rw [Schema.assign, Schema.layoutDiffers]
    simp [h]
  rw [configure, hassign, ← types_adopted schema]
  change (do let cleared ← clear { t with schema := .ofColumns schema.columns }; _) = _
  rw [clear_eq]
  rfl

/-- The rows under other types: truncated if there are as many columns, else none. -/
def migrate (types types' : List ValueType) (rows : List (List Value)) : List (List Value) :=
  if types.length = types'.length then rows.map (truncateRow types') else []

/-- The migrated rows make legible records if the new columns tell the old ones, or if there is no
row to migrate. -/
lemma legibleRow_migrate_iff {types' : List ValueType} {records : List (Stored types)} :
    (∀ row ∈ migrate types types' (records.map Stored.values), LegibleRow types' row) ↔
      (records ≠ [] → types.length = types'.length → ValueType.TellsAll types' types) := by
  rw [migrate]
  split_ifs with hlength
  · simp only [List.forall_mem_map, legibleRow_truncateRow_iff, Stored.tellsAll_values_iff]
    constructor
    · intro h hne _
      obtain ⟨r, hr⟩ := List.exists_mem_of_ne_nil records hne
      exact h r hr
    · exact fun h r hr => h (List.ne_nil_of_mem hr) hlength
  · exact iff_of_true nofun fun _ h => absurd h hlength

lemma legible_iff_of_fresh {floor : Nat} {rows : List (List Value)} {records : List (Stored types)}
    (h : List.Forall₂ (fun row (r : Stored types) => r.IsFresh row floor) rows records) :
    (∀ r ∈ records, r.Legible) ↔ ∀ row ∈ rows, LegibleRow types row := by
  induction h with
  | nil => exact iff_of_true nofun nofun
  | cons hfresh _ ih =>
    rw [List.forall_mem_cons, List.forall_mem_cons, hfresh.legible_iff, ih]

/-- What a table is that has adopted a schema with other types. -/
structure Migrated (t : Table) (schema : Schema) (rows : List (List Value)) (t' : Table)
    (blocks' : List (Block schema.types)) : Prop where
  holds : t'.Holds blocks'
  fresh : List.Forall₂ (fun row (r : Stored schema.types) =>
    r.IsFresh row t.config.minStringReserve) rows (contents blocks')
  schema_eq : t'.schema = .ofColumns schema.columns
  config_eq : t'.config = t.config
  later : t.generation < t'.generation
  compact_eq : t'.compact = rows.isEmpty

/-- With other types the rows are kept if there are as many columns as before. -/
lemma Holds.keeps_rows_iff (h : t.Holds blocks) {schema : Schema}
    (hdiffers : t.schema.types ≠ schema.types) :
    (t.schema.size = (Schema.ofColumns schema.columns).size ∧
      (!(Schema.ofColumns schema.columns).isEmpty) = true) ↔
        types.length = schema.types.length := by
  have hadopted : (Schema.ofColumns schema.columns).size = schema.types.length := by
    rw [← types_adopted schema, Schema.length_types]
  rw [hadopted, h.size_eq]
  constructor
  · rintro ⟨hsize, -⟩
    exact hsize
  · intro hsize
    refine ⟨hsize, ?_⟩
    rw [Schema.isEmpty, Bool.not_eq_true', List.isEmpty_eq_false_iff, ← List.length_pos_iff]
    refine Nat.pos_of_ne_zero ?_
    intro hzero
    apply hdiffers
    have hnil : schema.types.length = 0 := hadopted.symm.trans hzero
    rw [h.types_eq, List.length_eq_zero_iff.mp hnil, ← List.length_eq_zero_iff, hsize, hnil]

namespace Holds

lemma configure_of_size_eq (h : t.Holds blocks) {schema : Schema}
    (hdiffers : t.schema.types ≠ schema.types) (hsize : types.length = schema.types.length) :
    t.configure schema = (do
      let rows ← t.values
      Prod.mk true <$> (t.emptied schema).pushAll (rows.map (truncateRow schema.types))) := by
  have htruncated := h.truncatedRows_eq schema.types
  rw [configure_of_differs hdiffers, if_pos ((h.keeps_rows_iff hdiffers).mpr hsize)]
  rw [h.cursors_eq, ok_bind] at htruncated ⊢
  rw [htruncated]
  cases t.values <;> rfl

lemma configure_of_size_ne (h : t.Holds blocks) {schema : Schema}
    (hdiffers : t.schema.types ≠ schema.types) (hsize : types.length ≠ schema.types.length) :
    t.configure schema = .ok (true, t.emptied schema) := by
  rw [configure_of_differs hdiffers, if_neg (mt (h.keeps_rows_iff hdiffers).mp hsize)]

/-- With other types every record is made anew, or all go. -/
theorem configure_yields (h : t.Holds blocks) {schema : Schema}
    (hdiffers : t.schema.types ≠ schema.types) :
    Yields (fun size => ∃ rows, t.values = .ok rows ∧
        ∃ row ∈ migrate types schema.types rows,
          size = reserveSize schema.types row t.config.minStringReserve)
      (¬ ((∀ r ∈ contents blocks, r.Legible) ∧
        ∀ row ∈ migrate types schema.types ((contents blocks).map Stored.values),
          LegibleRow schema.types row))
      (fun p => p.1 = true ∧ ∃ blocks', Migrated t schema
        (migrate types schema.types ((contents blocks).map Stored.values)) p.2 blocks')
      (t.configure schema) := by
  by_cases hsize : types.length = schema.types.length
  · rw [h.configure_of_size_eq hdiffers hsize]
    rcases h.values_cases with hvalues | ⟨hillegible, hgarbled⟩
    · have hrows : ∀ row ∈ ((contents blocks).map Stored.values).map (truncateRow schema.types),
          ∀ v ∈ row, v.Proper := by
        simp only [List.forall_mem_map]
        exact fun r _ => proper_truncateRow schema.types r.proper_values
      rw [hvalues, ok_bind, migrate, if_pos hsize]
      refine (((holds_emptied t schema).pushAll_yields hrows).widen ?_ (mt And.right)).map ?_
      · rintro size ⟨row, hrow, hask⟩
        refine ⟨_, rfl, row, ?_, hask⟩
        rwa [migrate, if_pos hsize]
      · rintro t' ⟨records, blocks', hall, hholds, hcontents, hschema, hconfig, hgeneration,
          hcompact⟩
        refine ⟨rfl, blocks', hholds, ?_, hschema, hconfig, ?_, ?_⟩
        · rw [hcontents]
          exact hall
        · rw [hgeneration]
          exact Nat.lt_of_lt_of_le (Nat.lt_succ_self _) (Nat.le_add_right _ _)
        · rw [hcompact]
          exact Bool.true_and _
    · exact .of_garbled (hgarbled.bind _) fun hboth => hillegible hboth.1
  · rw [h.configure_of_size_ne hdiffers hsize, migrate, if_neg hsize]
    exact .ok ⟨rfl, [], holds_emptied t schema, .nil, rfl, rfl, Nat.lt_succ_self _, rfl⟩

end Holds

/-! ### Row by row -/

/-- The cursor a step on, or where it is if there is no step. -/
def advanced (t : Table) (c : Cursor) : Except Fault Cursor := (·.getD c) <$> t.advance? c

/-- Walk over a table, at most `n` rows from one cursor on, and put each row, truncated to the types
of another table, in front of a cursor there. With every row both cursors go one step on. -/
def transfer (old : Table) : Nat → Cursor → Table → Cursor → Except Fault Table
  | 0, _, t, _ => .ok t
  | n + 1, src, t, dst => do
    if !old.isValid src then return t
    let row ← old.cells src
    let (t, dst) ← t.insert dst (truncateRow t.schema.types row)
    let dst ← t.advanced dst
    let src ← old.advanced src
    old.transfer n src t dst

variable {old : Table} {types' : List ValueType} {blocks' : List (Block types')}

namespace Holds

/-- Behind a row that has been appended is the end. -/
lemma advanced_of_push (h : t.Holds blocks) {values : List Value} (hvalues : ∀ v ∈ values, v.Proper)
    {result : Table × Cursor} (hrun : t.push values = .ok result) :
    (∃ blocks' : List (Block types), result.1.Holds blocks') ∧
      result.1.advanced result.2 = .ok result.1.endCursor := by
  obtain ⟨r, -, hedited⟩ := (h.push_yields hvalues).post_of_ok hrun
  obtain ⟨blocks', hholds, hcontents, hseated⟩ := hedited.layout
  have hgeneration := isCurrent_iff.mp hedited.current
  have hindex : result.2.index = (contents blocks).length := hedited.index_eq.trans h.count_eq
  have hlength : (contents blocks').length = result.2.index + 1 := by
    rw [hcontents, hindex, List.length_append, List.length_singleton]
  refine ⟨⟨blocks', hholds⟩, ?_⟩
  rw [advanced, hholds.advance?_eq hedited.current hseated (by omega), hholds.endCursor_eq,
    hgeneration, hlength]
  rfl

/-- The cursor behind the new rows is at the end all along, so that they come in order. -/
theorem transfer_eq (hold : old.Holds blocks') (legible : ∀ r ∈ contents blocks', r.Legible)
    (h : t.Holds blocks) {n index : Nat} (hn : (contents blocks').length ≤ index + n) :
    old.transfer n (seat blocks' old.generation index) t t.endCursor =
      t.pushAll (((contents blocks').drop index).map fun r => truncateRow types r.values) := by
  -- Over the rows to come, for every table that has the ones before.
  induction n generalizing index t blocks with
  | zero =>
    rw [List.drop_eq_nil_of_le (by omega)]
    rfl
  | succ n ih =>
    by_cases hlt : index < (contents blocks').length
    · have hseated : Seated blocks' (seat blocks' old.generation index) := seated_seat _ hlt.le
      have hcurrent := isCurrent_seat old blocks' index
      have hvalid := (hold.isValid_iff fun _ => hseated).mpr ⟨hcurrent, hseated, hlt⟩
      have hcells := hold.cells_eq hcurrent hseated (List.getElem?_eq_getElem hlt)
        (legible _ (List.getElem_mem hlt))
      have hnext : old.advanced (seat blocks' old.generation index) =
          .ok (seat blocks' old.generation (index + 1)) := by
        rw [advanced, hold.advance?_eq hcurrent hseated hlt]
        rfl
      have hrow := proper_truncateRow types ((contents blocks')[index]).proper_values
      rw [List.drop_eq_getElem_cons hlt, List.map_cons, pushAll, List.foldlM_cons, transfer, hvalid,
        h.types_eq, hcells, hnext]
      change (do let (t, dst) ← t.push (truncateRow types (contents blocks')[index].values); _) = _
      cases hrun : t.push (truncateRow types (contents blocks')[index].values) with
      | error fault => rfl
      | ok result =>
        obtain ⟨⟨blocks'', hholds⟩, hend⟩ := h.advanced_of_push hrow hrun
        change (do let dst ← result.1.advanced result.2; _) = _
        rw [hend]
        exact ih hholds (by omega)
    · have hle := Nat.not_lt.mp hlt
      rw [List.drop_eq_nil_of_le hle, transfer, hold.isValid_of_length_le hle]
      rfl

/-- Rows that are kept are those that a walk over the old table puts into the new one. -/
theorem configure_eq_transfer (h : t.Holds blocks) {schema : Schema}
    (hdiffers : t.schema.types ≠ schema.types) (hsize : types.length = schema.types.length)
    (legible : ∀ r ∈ contents blocks, r.Legible) :
    t.configure schema = Prod.mk true <$>
      t.transfer t.numRecords t.startCursor (t.emptied schema) (t.emptied schema).endCursor := by
  have hle : (contents blocks).length ≤ 0 + t.numRecords := by
    rw [Nat.zero_add, h.count_eq]
  rw [h.configure_of_size_eq hdiffers hsize, h.values_eq legible, h.startCursor_eq,
    transfer_eq h legible (holds_emptied t schema) hle, ok_bind, List.map_map]
  rfl

end Holds

end RecordStore.Table
