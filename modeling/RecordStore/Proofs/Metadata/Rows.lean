import Mathlib
import RecordStore.Metadata
import RecordStore.Proofs.Session.RoundTrip

/-!
# Rows of metadata

A table with the layout of metadata has rows: the bytes of a name, and a value. The table asks
nothing of the bytes. They need not be text, they can be empty, and several rows can have the same
name. What is looked up under a name is the first row with the name, a value that is set goes there,
and a removal takes out this row and no other. A value of a type with a flag that has no name is
null once it is set.
-/

namespace RecordStore.Metadata

open Table (Block Cursor Edited seat)
open Table.Block (contents)
open Record (Stored)

/-! ### Lists of rows -/

/-- Put a value under a name: in the first row with the name, or in a row behind all others. -/
def putFirst (key : Bytes) (value : Value) (rows : List (Bytes × Value)) : List (Bytes × Value) :=
  if key ∈ rows.map Prod.fst then rows.set (rows.findIdx fun r => r.1 = key) (key, value)
  else rows ++ [(key, value)]

/-- Take out the first row with the name. -/
def takeFirst (key : Bytes) (rows : List (Bytes × Value)) : List (Bytes × Value) :=
  rows.eraseP fun r => r.1 = key

/-- The number of rows with the name. -/
def occurrences (name : String) (rows : List (Bytes × Value)) : Nat :=
  (rows.map Prod.fst).count (Utf8.encode name)

section Lists

variable {key : Bytes} {name : String} {value old : Value}
  {rows before after : List (Bytes × Value)}

/-- The first row with a name, and the rows around it. -/
lemma exists_first {κ : Type} {key : κ} {rows : List (κ × Value)} (h : key ∈ rows.map Prod.fst) :
    ∃ before value after, rows = before ++ (key, value) :: after ∧ key ∉ before.map Prod.fst := by
  obtain ⟨front, back, hkeys, hfront⟩ := List.eq_append_cons_of_mem h
  obtain ⟨before, more, rfl, rfl, hmore⟩ := List.map_eq_append_iff.mp hkeys
  obtain ⟨⟨_, value⟩, after, rfl, rfl, -⟩ := List.map_eq_cons_iff.mp hmore
  exact ⟨before, value, after, rfl, hfront⟩

lemma not_key_of_notMem {κ : Type} [DecidableEq κ] {key : κ} {rows : List (κ × Value)}
    (h : key ∉ rows.map Prod.fst) : ∀ r ∈ rows, ¬ decide (r.1 = key) = true := fun _ hr hkey =>
  h (of_decide_eq_true hkey ▸ List.mem_map_of_mem hr)

lemma findIdx_split (hbefore : key ∉ before.map Prod.fst) :
    (before ++ (key, old) :: after).findIdx (fun r => r.1 = key) = before.length := by
  have hnone : before.findIdx (fun r => r.1 = key) = before.length :=
    List.findIdx_eq_length.mpr fun r hr =>
      Bool.eq_false_iff.mpr (not_key_of_notMem hbefore r hr)
  rw [List.findIdx_append, hnone, if_neg (lt_irrefl _), List.findIdx_cons, decide_eq_true rfl]
  exact Nat.zero_add _

lemma putFirst_split (hbefore : key ∉ before.map Prod.fst) (value : Value) :
    putFirst key value (before ++ (key, old) :: after) = before ++ (key, value) :: after := by
  have hmem : key ∈ (before ++ (key, old) :: after).map Prod.fst :=
    List.mem_map_of_mem (List.mem_append_right before List.mem_cons_self)
  rw [putFirst, if_pos hmem, findIdx_split hbefore, List.set_append_right _ _ le_rfl, Nat.sub_self]
  rfl

lemma putFirst_of_notMem (h : key ∉ rows.map Prod.fst) (value : Value) :
    putFirst key value rows = rows ++ [(key, value)] := if_neg h

lemma takeFirst_split (hbefore : key ∉ before.map Prod.fst) :
    takeFirst key (before ++ (key, old) :: after) = before ++ after := by
  rw [takeFirst, List.eraseP_append_right _ (not_key_of_notMem hbefore)]
  exact congrArg (before ++ ·) (List.eraseP_cons_of_pos (decide_eq_true rfl))

lemma takeFirst_of_notMem (h : key ∉ rows.map Prod.fst) : takeFirst key rows = rows :=
  List.eraseP_of_forall_not (not_key_of_notMem h)

/-! Rows whose names are bytes and entries whose names are text are looked up in the same way. -/

section Lookup

variable {κ : Type} [BEq κ] [LawfulBEq κ] {key : κ} {rows before after : List (κ × Value)}

lemma lookup_split (hbefore : key ∉ before.map Prod.fst) :
    (before ++ (key, old) :: after).lookup key = some old := by
  refine List.lookup_eq_some_iff.mpr ⟨before, after, rfl, fun r hr => ?_⟩
  exact bne_iff_ne.mpr fun h => hbefore (h ▸ List.mem_map_of_mem hr)

lemma lookup_of_notMem (h : key ∉ rows.map Prod.fst) : rows.lookup key = none := by
  refine List.lookup_eq_none_iff.mpr fun r hr => ?_
  exact bne_iff_ne.mpr fun heq => h (heq ▸ List.mem_map_of_mem hr)

lemma lookup_eq_none_iff : rows.lookup key = none ↔ key ∉ rows.map Prod.fst := by
  refine ⟨fun h hmem => ?_, lookup_of_notMem⟩
  obtain ⟨before, value, after, rfl, hbefore⟩ := exists_first hmem
  rw [lookup_split hbefore] at h
  cases h

end Lookup

/-- What is set under a name is found under it. -/
lemma lookup_putFirst (key : Bytes) (value : Value) (rows : List (Bytes × Value)) :
    (putFirst key value rows).lookup key = some value := by
  by_cases h : key ∈ rows.map Prod.fst
  · obtain ⟨before, old, after, rfl, hbefore⟩ := exists_first h
    rw [putFirst_split hbefore, lookup_split hbefore]
  · rw [putFirst_of_notMem h, lookup_split h]

lemma keys_takeFirst (key : Bytes) (rows : List (Bytes × Value)) :
    (takeFirst key rows).map Prod.fst = (rows.map Prod.fst).erase key := by
  have hsame : (fun r : Bytes × Value => decide (r.1 = key)) = (· == key) ∘ Prod.fst :=
    funext fun r => (beq_eq_decide r.1 key).symm
  rw [List.erase_eq_eraseP', List.eraseP_map, takeFirst, hsame]

/-- Setting a value keeps the names, or adds one that is new. -/
lemma keys_putFirst (key : Bytes) (value : Value) (rows : List (Bytes × Value)) :
    (putFirst key value rows).map Prod.fst =
      if key ∈ rows.map Prod.fst then rows.map Prod.fst else rows.map Prod.fst ++ [key] := by
  split_ifs with h
  · obtain ⟨before, old, after, rfl, hbefore⟩ := exists_first h
    rw [putFirst_split hbefore, List.map_append, List.map_append]
    rfl
  · rw [putFirst_of_notMem h, List.map_append]
    rfl

lemma occurrences_pos_iff : 0 < occurrences name rows ↔ Utf8.encode name ∈ rows.map Prod.fst :=
  List.count_pos_iff

/-- A removal leaves one row less with the name, and as many as there were with any other. -/
lemma occurrences_takeFirst (name other : String) (rows : List (Bytes × Value)) :
    occurrences other (takeFirst (Utf8.encode name) rows) =
      occurrences other rows - if name = other then 1 else 0 := by
  rw [occurrences, keys_takeFirst, List.count_erase, occurrences]
  simp only [beq_iff_eq, Utf8.encode_inj]

/-- Setting a value leaves as many rows with the name as there were, but one if there was none. -/
lemma occurrences_putFirst (name other : String) (value : Value) (rows : List (Bytes × Value)) :
    occurrences other (putFirst (Utf8.encode name) value rows) =
      if name = other then max 1 (occurrences name rows) else occurrences other rows := by
  by_cases hmem : Utf8.encode name ∈ rows.map Prod.fst
  · have hpos := occurrences_pos_iff.mpr hmem
    rw [occurrences, keys_putFirst, if_pos hmem]
    split_ifs with hname
    · subst hname
      exact (max_eq_right hpos).symm
    · rfl
  · have hzero : occurrences name rows = 0 := List.count_eq_zero.mpr hmem
    rw [occurrences, keys_putFirst, if_neg hmem, List.count_append, List.count_singleton]
    simp only [beq_iff_eq, Utf8.encode_inj]
    split_ifs with hname
    · subst hname
      change occurrences name rows + 1 = _
      rw [hzero]
      rfl
    · rfl

end Lists

/-! ### Rows in a table -/

/-- The types of the columns. -/
def types : List ValueType := [.string .bits8, .dynamic .bits8]

/-- The cells of a row. -/
def cells (r : Bytes × Value) : List Value := [.string .bits8 r.1, r.2]

/-- What the column of values gives back of a value. -/
def kept (value : Value) : Value := if value.type.Named then value.stored else .plainNull

/-- Nothing but a value of a named type is given back. -/
lemma kept_eq_stored_iff {value : Value} : kept value = value.stored ↔ value.type.Named := by
  refine ⟨fun h => ?_, fun hnamed => if_pos hnamed⟩
  by_contra hnamed
  rw [kept, if_neg hnamed] at h
  have hstored : value.stored.type.Named := h ▸ rfl
  exact hnamed (Field.named_stored.mp hstored)

lemma value_encode_kept {value : Value} (h : value.Proper) :
    Field.value (.dynamic .bits8) (Field.encode (.dynamic .bits8) value) = kept value := by
  have hlegible : Field.Legible (.dynamic .bits8) (Field.encode (.dynamic .bits8) value) ↔
      value.type.Named := Field.legible_encode_iff.trans (forall_prop_of_true rfl)
  rw [kept]
  split_ifs with hnamed
  · exact Field.value_encode h nofun (hlegible.mpr hnamed)
  · exact Field.value_encode_of_not_legible (mt hlegible.mp hnamed)

/-- The table has the layout of metadata, is not checked after a change, and has these rows. -/
structure HasRows (m : Metadata) (blocks : List (Block types)) (rows : List (Bytes × Value)) :
    Prop where
  schema_eq : m.table.schema = schema
  unchecked : m.table.config.checkInvariants = false
  sound : Session.Sound ⟨m.table, []⟩ blocks
  values_eq : (contents blocks).map Stored.values = rows.map cells

/-- The rows in order, with the names as they are. -/
def listing (m : Metadata) : Except Fault (List (Bytes × Value)) := do
  (← m.table.rows.cursors).mapM fun c => do
    return ((← m.table.cell c nameColumn).toBytes, ← m.table.cell c valueColumn)

variable {m m' : Metadata} {blocks : List (Block types)} {name : String} {value old : Value}
  {rows before after : List (Bytes × Value)}

/-- The cells of every record are the bytes of a name, and a value. -/
lemma exists_cells (r : Stored types) : ∃ row, r.values = cells row := by
  have htype : types[nameColumn]? = some (.string .bits8) := rfl
  obtain ⟨field, hfield, hisField⟩ := r.exists_field htype
  obtain ⟨key, hkey⟩ := Field.exists_value_string hisField
  obtain ⟨first, value, hvalues⟩ := List.length_eq_two.mp r.length_values
  have hfirst := r.getElem?_values htype hfield
  rw [hvalues, hkey] at hfirst
  refine ⟨(key, value), ?_⟩
  rw [hvalues, cells, ← Option.some.inj hfirst]

/-- The columns of a record are read, as the one in front is of strings. -/
lemma read_eq (r : Stored types) (column : Nat) (hcolumn : column ≤ valueColumn) :
    r.read column = .ok ((r.values[column]?).getD .plainNull) := by
  rcases r.read_cases column with hread | ⟨hillegible, -⟩
  · exact hread
  · refine absurd ?_ hillegible
    obtain ⟨name, value, hfields⟩ := List.length_eq_two.mp r.length_fields
    rw [hfields]
    match column, hcolumn with
    | 0, _ => exact .nil
    | 1, _ => exact .cons (Field.legible_of_plain rfl name) .nil

namespace HasRows

lemma length_contents (h : m.HasRows blocks rows) : (contents blocks).length = rows.length := by
  rw [← List.length_map Stored.values, h.values_eq, List.length_map]

lemma size_eq (h : m.HasRows blocks rows) : m.size = rows.length := by
  rw [size, h.sound.holds.count_eq, h.length_contents]

/-- The record of a row. -/
lemma exists_record (h : m.HasRows blocks rows) {index : Nat} {r : Bytes × Value}
    (hr : rows[index]? = some r) :
    ∃ record, (contents blocks)[index]? = some record ∧ record.values = cells r := by
  have hcells := congrArg (·[index]?) h.values_eq
  simp only [List.getElem?_map, hr] at hcells
  exact Option.map_eq_some_iff.mp hcells

/-- The cells in a row. -/
lemma cell_seat (h : m.HasRows blocks rows) {index : Nat} {r : Bytes × Value}
    (hr : rows[index]? = some r) (column : Nat) (hcolumn : column ≤ valueColumn) :
    m.table.cell (seat blocks m.table.generation index) column =
      .ok (((cells r)[column]?).getD .plainNull) := by
  obtain ⟨record, hrecord, hvalues⟩ := h.exists_record hr
  have hlt := (List.getElem?_eq_some_iff.mp hrecord).1
  rw [h.sound.holds.cell_eq_read (Table.isCurrent_seat ..) (Table.seated_seat _ hlt.le) hrecord,
    read_eq record column hcolumn, hvalues]

/-! ### Finding a name -/

/-- Rows with other names are passed over. -/
lemma findAmong_append {front later : List Cursor}
    (hfront : ∀ c ∈ front, ∃ other, other ≠ Utf8.encode name ∧
      m.table.cell c nameColumn = .ok (.string .bits8 other)) :
    m.findAmong name (front ++ later) = m.findAmong name later := by
  induction front with
  | nil => rfl
  | cons c front ih =>
    obtain ⟨⟨other, hother, hcell⟩, hfront⟩ := List.forall_mem_cons.mp hfront
    rw [List.cons_append, findAmong, hcell, ok_bind, ← ih hfront]
    exact if_neg hother

/-- The rows in front of the first one with a name. -/
lemma cell_of_split (h : m.HasRows blocks (before ++ after))
    (hbefore : Utf8.encode name ∉ before.map Prod.fst) :
    ∀ c ∈ (List.range before.length).map (seat blocks m.table.generation),
      ∃ other, other ≠ Utf8.encode name ∧
        m.table.cell c nameColumn = .ok (.string .bits8 other) := by
  intro c hc
  obtain ⟨index, hindex, rfl⟩ := List.mem_map.mp hc
  have hlt := List.mem_range.mp hindex
  have hrow : (before ++ after)[index]? = some before[index] := by
    rw [List.getElem?_append_left hlt, List.getElem?_eq_getElem hlt]
  refine ⟨before[index].1, fun hname => hbefore ?_, h.cell_seat hrow nameColumn (Nat.zero_le _)⟩
  exact hname ▸ List.mem_map_of_mem (List.getElem_mem hlt)

theorem find?_split (h : m.HasRows blocks (before ++ (Utf8.encode name, value) :: after))
    (hbefore : Utf8.encode name ∉ before.map Prod.fst) :
    m.find? name = .ok (some (seat blocks m.table.generation before.length)) := by
  have hrow := Table.getElem?_length_append before (Utf8.encode name, value) after
  rw [find?, h.sound.holds.cursors_eq, ok_bind, h.length_contents, List.length_append,
    List.length_cons, List.range_add, List.range_succ_eq_map, List.map_append,
    findAmong_append (h.cell_of_split hbefore), List.map_cons, List.map_cons, Nat.add_zero,
    findAmong, h.cell_seat hrow nameColumn (Nat.zero_le _), ok_bind]
  exact if_pos rfl

theorem find?_of_notMem (h : m.HasRows blocks rows) (hname : Utf8.encode name ∉ rows.map Prod.fst) :
    m.find? name = .ok none := by
  have h' : m.HasRows blocks (rows ++ []) := (List.append_nil rows).symm ▸ h
  rw [find?, h.sound.holds.cursors_eq, ok_bind, h.length_contents,
    ← List.append_nil (List.map _ _), findAmong_append (h'.cell_of_split hname), findAmong]

/-! ### Looking up -/

lemma contains_eq (h : m.HasRows blocks rows) (name : String) :
    m.contains name = .ok (decide (Utf8.encode name ∈ rows.map Prod.fst)) := by
  by_cases hname : Utf8.encode name ∈ rows.map Prod.fst
  · obtain ⟨before, value, after, rfl, hbefore⟩ := exists_first hname
    rw [contains, h.find?_split hbefore, decide_eq_true hname]
    rfl
  · rw [contains, h.find?_of_notMem hname, decide_eq_false hname]
    rfl

lemma get?_eq (h : m.HasRows blocks rows) (name : String) :
    m.get? name = .ok (rows.lookup (Utf8.encode name)) := by
  by_cases hname : Utf8.encode name ∈ rows.map Prod.fst
  · obtain ⟨before, value, after, rfl, hbefore⟩ := exists_first hname
    have hrow := Table.getElem?_length_append before (Utf8.encode name, value) after
    rw [get?, h.find?_split hbefore, lookup_split hbefore, ok_bind]
    simp only [h.cell_seat hrow valueColumn le_rfl]
    rfl
  · rw [get?, h.find?_of_notMem hname, lookup_of_notMem hname]
    rfl

/-- What is made of the cells of every row. -/
lemma mapM_cells (h : m.HasRows blocks rows) {α : Type} (f : Value → Value → α) :
    (do (← m.table.rows.cursors).mapM fun c => do
      return f (← m.table.cell c nameColumn) (← m.table.cell c valueColumn)) =
      .ok (rows.map fun r => f (.string .bits8 r.1) r.2) := by
  have hcells : rows.map (fun r => f (.string .bits8 r.1) r.2) =
      ((contents blocks).map Stored.values).map fun cells =>
        f ((cells[nameColumn]?).getD .plainNull) ((cells[valueColumn]?).getD .plainNull) := by
    rw [h.values_eq, List.map_map]
    rfl
  rw [hcells, List.map_map]
  refine h.sound.holds.mapM_rows fun c r hcurrent hc hr => ?_
  rw [h.sound.holds.cell_eq_read hcurrent hc hr, h.sound.holds.cell_eq_read hcurrent hc hr,
    read_eq r nameColumn (Nat.zero_le _), read_eq r valueColumn le_rfl]
  rfl

lemma listing_eq (h : m.HasRows blocks rows) : m.listing = .ok rows := by
  have hcells := h.mapM_cells fun name value => (name.toBytes, value)
  rw [listing, hcells]
  exact congrArg Except.ok (List.map_id' rows)

end HasRows

/-! ### Names -/

lemma isName_eq_true : isName name = true ↔ name ≠ "" ∧ name.utf8ByteSize ≤ 255 := by
  rw [isName, Bool.and_eq_true, decide_eq_true_iff, Bool.not_eq_true', ← Bool.not_eq_true,
    String.isEmpty_iff]
  rfl

lemma isName_eq_false : isName name = false ↔ name = "" ∨ 255 < name.utf8ByteSize := by
  rw [← Bool.not_eq_true, isName_eq_true, not_and_or, not_not, Nat.not_le]

lemma set_of_isName_eq_false (h : isName name = false) (m : Metadata) (value : Value) :
    m.set name value = .ok (.error (.invalidKey name)) := by
  rw [set, h]
  rfl

/-- The cell of a name that can be set. -/
lemma ofBytes_encode (h : isName name = true) :
    Value.ofBytes (Utf8.encode name) = .string .bits8 (Utf8.encode name) := by
  obtain ⟨-, hle⟩ := isName_eq_true.mp h
  rw [← Utf8.length_encode] at hle
  have hwidth : Width.fitting (Utf8.encode name).length = .bits8 := if_pos hle
  rw [Value.ofBytes, Value.ofBytesIn, hwidth]
  exact congrArg (Value.string .bits8) (List.take_of_length_le hle)

/-! ### Changing the rows -/

/-- The record that a value asks for under a name has this size. -/
def Asks (m : Metadata) (name : String) (value : Value) (size : Nat) : Prop :=
  ∃ found, m.find? name = .ok found ∧
    Session.Asks ⟨m.table, []⟩ size
      (match found with
      | some c => .setField c valueColumn value
      | none => .push [.ofBytes (Utf8.encode name), value])

/-- A change of the table has left these rows, and only legible records if it put in none that is
not. -/
def TurnsInto (m : Metadata) (rows : List (Bytes × Value)) (named : Prop) (m' : Metadata) : Prop :=
  ∃ (c last : Cursor) (records : List (Stored types)),
    Edited m.table c records (m'.table, last) ∧ records.map Stored.values = rows.map cells ∧
      (named → ∀ r ∈ records, r.Legible)

namespace HasRows

lemma exists_of_turnsInto {rows' : List (Bytes × Value)} {named : Prop} (h : m.HasRows blocks rows)
    (hturns : m.TurnsInto rows' named m') :
    ∃ blocks', m'.HasRows blocks' rows' ∧ (named → ∀ r ∈ contents blocks', r.Legible) := by
  obtain ⟨c, last, records, hedited, hvalues, hlegible⟩ := hturns
  obtain ⟨blocks', hsound, rfl⟩ := h.sound.follow hedited
  refine ⟨blocks', ⟨hedited.schema_eq.trans h.schema_eq, ?_, ?_, hvalues⟩, hlegible⟩
  · exact (congrArg Table.Config.checkInvariants hedited.config_eq).trans h.unchecked
  · exact ⟨hsound.schema_valid, hsound.config_valid, hsound.holds, hsound.packed, nofun, nofun⟩

/-- The first row with the name keeps its place. -/
lemma set_split (h : m.HasRows blocks (before ++ (Utf8.encode name, old) :: after))
    (legible : ∀ r ∈ contents blocks, r.Legible)
    (hbefore : Utf8.encode name ∉ before.map Prod.fst) (hname : isName name = true)
    (hvalue : value.Proper) :
    Yields (m.Asks name value) False
      (fun result => ∃ m', result = .ok m' ∧
        m.TurnsInto (before ++ (Utf8.encode name, kept value) :: after) value.type.Named m')
      (m.set name value) := by
  have hfind := h.find?_split hbefore
  obtain ⟨r, hr, hcells⟩ :=
    h.exists_record (Table.getElem?_length_append before (Utf8.encode name, old) after)
  have hlt := (List.getElem?_eq_some_iff.mp hr).1
  have hseated := Table.seated_seat m.table.generation hlt.le
  have htype : types[valueColumn]? = some (.dynamic .bits8) := rfl
  have hset := h.sound.holds.setField_yields (Table.isCurrent_seat ..) hseated hr htype rfl hvalue
  rw [set, hname, hfind]
  refine (hset.widen ?_ ?_).bind ?_
  · rintro size ⟨-, rfl⟩
    have hlegible := legible r (List.mem_of_getElem? hr)
    exact ⟨_, hfind, h.sound.asks_setField hseated hr hlegible htype⟩
  · rintro (hillegible | ⟨hchecks, -⟩)
    · exact hillegible (legible r (List.mem_of_getElem? hr))
    · rw [h.unchecked] at hchecks
      cases hchecks
  rintro result ⟨-, r', hchanged, hedited⟩
  refine .ok ⟨_, rfl, _, result.2, _, hedited, ?_, fun hnamed => ?_⟩
  · have hvalues : r'.values = cells (Utf8.encode name, kept value) := by
      rw [hchanged.values_set htype, hcells, Value.convertTo_dynamic, value_encode_kept hvalue]
      rfl
    have hplace : (before ++ (Utf8.encode name, old) :: after).set before.length
        (Utf8.encode name, kept value) = before ++ (Utf8.encode name, kept value) :: after := by
      rw [List.set_append_right _ _ le_rfl, Nat.sub_self]
      rfl
    change ((contents blocks).set before.length r').map Stored.values = _
    rw [List.map_set, h.values_eq, hvalues, ← List.map_set, hplace]
  · refine (legible_set_iff legible hlt).mpr ?_
    refine (hchanged.legible_iff htype (legible r (List.mem_of_getElem? hr))).mpr ?_
    exact Field.legible_convertTo_iff.mpr fun _ => hnamed

/-- A name that is in no row comes last. -/
lemma set_of_notMem (h : m.HasRows blocks rows) (legible : ∀ r ∈ contents blocks, r.Legible)
    (habsent : Utf8.encode name ∉ rows.map Prod.fst) (hname : isName name = true)
    (hvalue : value.Proper) :
    Yields (m.Asks name value) False
      (fun result => ∃ m', result = .ok m' ∧
        m.TurnsInto (rows ++ [(Utf8.encode name, kept value)]) value.type.Named m')
      (m.set name value) := by
  have hfind := h.find?_of_notMem habsent
  have hproper : ∀ v ∈ [Value.ofBytes (Utf8.encode name), value], v.Proper :=
    List.forall_mem_cons.mpr ⟨Value.proper_ofBytes _, List.forall_mem_singleton.mpr hvalue⟩
  have hpush := h.sound.holds.push_yields hproper
  rw [set, hname, hfind]
  refine (hpush.widen ?_ ?_).bind ?_
  · rintro size rfl
    exact ⟨_, hfind, congrArg (Record.reserveSize · _ _) h.sound.holds.types_eq.symm⟩
  · rintro ⟨hchecks, -⟩
    rw [h.unchecked] at hchecks
    cases hchecks
  rintro result ⟨r, hfresh, hedited⟩
  refine .ok ⟨_, rfl, _, result.2, _, hedited, ?_, fun hnamed => ?_⟩
  · have hvalues : r.values = cells (Utf8.encode name, kept value) := by
      have hstored := Field.value_encode
        (Value.proper_convertTo (hproper _ List.mem_cons_self) (.string .bits8))
        (Field.fits_convertTo _ _) (Field.legible_of_plain rfl _)
      rw [Stored.values, hfresh.fields_eq, types, Record.freshFields, Record.freshFields,
        Record.freshFields, Value.convertTo_dynamic, List.zipWith_cons_cons,
        List.zipWith_cons_cons, hstored, value_encode_kept hvalue, ofBytes_encode hname]
      rfl
    rw [List.map_append, h.values_eq, List.map_append, List.map_singleton, hvalues]
    rfl
  · refine List.forall_mem_append.mpr ⟨legible, List.forall_mem_singleton.mpr ?_⟩
    refine hfresh.legible_iff.mpr (Record.legibleRow_iff.mpr ?_)
    have hrest : ValueType.TellsAll [.dynamic .bits8] [value.type] :=
      ValueType.tellsAll_cons.mpr ⟨fun _ => hnamed, ValueType.tellsAll_nil _⟩
    exact ValueType.tellsAll_cons.mpr ⟨fun hdynamic => absurd hdynamic (by decide), hrest⟩

/-- Setting a value puts it under the name, unless it asks for a record that is too large. -/
theorem set_yields (h : m.HasRows blocks rows) (legible : ∀ r ∈ contents blocks, r.Legible)
    (hname : isName name = true) (hvalue : value.Proper) :
    Yields (m.Asks name value) False
      (fun result => ∃ m', result = .ok m' ∧
        m.TurnsInto (putFirst (Utf8.encode name) (kept value) rows) value.type.Named m')
      (m.set name value) := by
  by_cases hmem : Utf8.encode name ∈ rows.map Prod.fst
  · obtain ⟨before, old, after, rfl, hbefore⟩ := exists_first hmem
    rw [putFirst_split hbefore]
    exact h.set_split legible hbefore hname hvalue
  · rw [putFirst_of_notMem hmem]
    exact h.set_of_notMem legible hmem hname hvalue

/-- The first row with the name is taken out, and nothing is changed if there is none. -/
theorem remove_eq (h : m.HasRows blocks rows) (legible : ∀ r ∈ contents blocks, r.Legible)
    (name : String) :
    ∃ m', m.remove name = .ok (decide (Utf8.encode name ∈ rows.map Prod.fst), m') ∧
      (m.TurnsInto (takeFirst (Utf8.encode name) rows) True m' ∨
        m' = m ∧ Utf8.encode name ∉ rows.map Prod.fst) := by
  by_cases hmem : Utf8.encode name ∈ rows.map Prod.fst
  · obtain ⟨before, old, after, rfl, hbefore⟩ := exists_first hmem
    have hlt : before.length < (contents blocks).length := by
      rw [h.length_contents, List.length_append, List.length_cons]
      omega
    obtain ⟨result, hrun, hedited⟩ := h.sound.holds.remove_eq (Table.isCurrent_seat ..)
      (Table.seated_seat m.table.generation hlt.le) hlt
    have hvalues : ((contents blocks).eraseIdx before.length).map Stored.values =
        (before ++ after).map cells := by
      rw [← List.eraseIdx_map, h.values_eq, List.eraseIdx_map,
        List.eraseIdx_append_of_length_le le_rfl, Nat.sub_self]
      rfl
    refine ⟨⟨result.1⟩, ?_, .inl ⟨_, result.2, _, hedited, ?_, fun _ r hr => ?_⟩⟩
    · rw [remove, h.find?_split hbefore, ok_bind, decide_eq_true hmem]
      simp only [hrun]
      rfl
    · rw [takeFirst_split hbefore]
      exact hvalues
    · exact legible r (List.mem_of_mem_eraseIdx hr)
  · refine ⟨m, ?_, .inr ⟨rfl, hmem⟩⟩
    rw [remove, h.find?_of_notMem hmem, decide_eq_false hmem]
    rfl

end HasRows

end RecordStore.Metadata
