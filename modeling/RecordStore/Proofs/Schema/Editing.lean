import Mathlib
import RecordStore.Proofs.Schema.Codec

/-!
# Editing schemas

Whatever the edits, a schema has few columns with proper names and types, each at its number, and
the fingerprint of its columns. An edit is taken exactly where the schema that it asks for would be
like that.

Edits are also given as programs that change a schema in place, one field after the other. Such a
program ends as the edit does: what it refuses is as it was before.
-/

namespace RecordStore.Schema

/-! ### Edits -/

/-- What can be asked of a schema. -/
inductive Edit
  | insert (index : Nat) (name : String) (type : ValueType)
  | push (name : String) (type : ValueType)
  | remove (index : Nat)
  | rename (index : Nat) (name : String)
  | assign (other : Schema)
  | update

/-- The schema after an edit. -/
def edit (s : Schema) : Edit → Except EditError Schema
  | .insert index name type => s.insert index name type
  | .push name type => s.push name type
  | .remove index => Prod.snd <$> s.remove index
  | .rename index name => s.rename index name
  | .assign other => .ok (s.assign other).2
  | .update => .ok s.update

namespace Edit

/-- A schema that is given along has been made before. -/
def Admissible : Edit → Prop
  | .assign other => other.Reachable
  | _ => True

/-- What an edit makes of the names and types. -/
def layout : Edit → List (String × ValueType) → List (String × ValueType)
  | .insert index name type, l => l.insertIdx index (name, type)
  | .push name type, l => l ++ [(name, type)]
  | .remove index, l => l.eraseIdx index
  | .rename index name, l => l.modify index fun c => (name, c.2)
  | .assign other, _ => other.layout
  | .update, l => l

/-- A name that a column can have. -/
def IsName (name : String) : Prop := name ≠ "" ∧ name.utf8ByteSize ≤ 255

/-- Where an edit is taken. -/
def Takes (s : Schema) : Edit → Prop
  | .insert index name type => index ≤ s.size ∧ s.size < 255 ∧ type.isNull = false ∧ IsName name ∧
      ∀ c ∈ s.columns, c.name ≠ name
  | .push name type => s.size < 255 ∧ type.isNull = false ∧ IsName name ∧
      ∀ c ∈ s.columns, c.name ≠ name
  | .remove index => index < s.size
  | .rename index name => index < s.size ∧ IsName name ∧
      ∀ i c, s.columns[i]? = some c → i ≠ index → c.name ≠ name
  | .assign _ | .update => True

end Edit

/-! ### Edits in place -/

/-- A program that changes a schema. What it has changed when it fails stays changed. -/
abbrev Editor := ExceptT EditError (StateM Schema)

namespace Editor

/-- Renumber the columns, take the fingerprint anew, and tell whether it is another one. -/
def update : Editor Bool := do
  let s ← get
  set s.update
  return s.isStale

/-- Go on if nothing is wrong. -/
def require (checked : Except EditError Unit) : Editor Unit :=
  match checked with
  | .ok () => pure ()
  | .error e => throw e

def insert (index : Nat) (name : String) (type : ValueType) : Editor Unit := do
  let s ← get
  if s.size < index then throw (.outOfRange index s.size)
  else if maxColumns ≤ s.size then throw .full
  else if type.isNull then throw (.nullType index)
  else do
    require (checkName s.columns name none)
    modify fun s => { s with columns := s.columns.insertIdx index ⟨name, type, 0⟩ }
    let _ ← update

def push (name : String) (type : ValueType) : Editor Unit := do
  insert (← get).size name type

/-- The column that is taken out, as it was. -/
def remove (index : Nat) : Editor Column := do
  let s ← get
  match s.columns[index]? with
  | none => throw (.outOfRange index s.size)
  | some c => do
    modify fun s => { s with columns := s.columns.eraseIdx index }
    let _ ← update
    return c

def rename (index : Nat) (name : String) : Editor Unit := do
  let s ← get
  match s.columns[index]? with
  | none => throw (.outOfRange index s.size)
  | some c => do
    require (checkName s.columns name (some index))
    modify fun s => { s with columns := s.columns.set index { c with name } }
    let _ ← update

/-- Whether the types of the columns are others than before. -/
def assign (other : Schema) : Editor Bool := do
  let s ← get
  modify fun s => { s with columns := other.columns }
  let _ ← update
  return s.layoutDiffers other

end Editor

/-- An edit in place. -/
def Edit.inPlace : Edit → Editor Unit
  | .insert index name type => Editor.insert index name type
  | .push name type => Editor.push name type
  | .remove index => do let _ ← Editor.remove index
  | .rename index name => Editor.rename index name
  | .assign other => do let _ ← Editor.assign other
  | .update => do let _ ← Editor.update

/-! ### In place and at once -/

variable {s s' : Schema} {e : Edit}

/-- How an edit ends: with the other schema, or with the one that there was. -/
def settle (s : Schema) : Except EditError Schema → Except EditError Unit × Schema
  | .ok s' => (.ok (), s')
  | .error reason => (.error reason, s)

lemma get_bind {α : Type} (f : Schema → Editor α) (s : Schema) :
    (get >>= f : Editor α) s = f s s := rfl

lemma bind_apply {α β : Type} (first : Editor α) (next : α → Editor β) (s : Schema) :
    (first >>= next) s = match first s with
      | (.ok a, s') => next a s'
      | (.error reason, s') => (.error reason, s') := by
  change ExceptT.bindCont next (first s).1 (first s).2 = _
  rcases first s with ⟨_ | _, _⟩ <;> rfl

lemma insert_inPlace (s : Schema) (index : Nat) (name : String) (type : ValueType) :
    Editor.insert index name type s = s.settle (s.insert index name type) := by
  rw [Editor.insert, get_bind, Schema.insert, insertColumn, size]
  split_ifs
  · rfl
  · rfl
  · rfl
  · cases checkName s.columns name none with
    | error reason => rfl
    | ok u => rfl

lemma remove_inPlace (s : Schema) (index : Nat) :
    Editor.remove index s = match s.remove index with
      | .ok (c, s') => (.ok c, s')
      | .error reason => (.error reason, s) := by
  rw [Editor.remove, get_bind, Schema.remove]
  cases s.columns[index]? with
  | none => rfl
  | some c => rfl

lemma rename_inPlace (s : Schema) (index : Nat) (name : String) :
    Editor.rename index name s = s.settle (s.rename index name) := by
  rw [Editor.rename, get_bind, Schema.rename]
  cases s.columns[index]? with
  | none => rfl
  | some c =>
    dsimp only
    cases checkName s.columns name (some index) with
    | error reason => rfl
    | ok u => rfl

/-- Done in place, an edit ends as it does at once, and if it fails nothing is changed. -/
theorem inPlace_eq (s : Schema) (e : Edit) : e.inPlace s = s.settle (s.edit e) := by
  cases e with
  | insert index name type => exact insert_inPlace s index name type
  | push name type => exact insert_inPlace s s.size name type
  | remove index =>
    rw [Edit.inPlace, bind_apply, remove_inPlace, edit]
    cases s.remove index with
    | error reason => rfl
    | ok result => rfl
  | rename index name => exact rename_inPlace s index name
  | assign other => rfl
  | update => rfl

/-! ### What is taken -/

lemma not_mem_names_iff {columns : List Column} {name : String} :
    name ∉ columns.map Column.name ↔ ∀ c ∈ columns, c.name ≠ name := by
  rw [List.mem_map, not_exists]
  exact forall_congr' fun c => not_and

lemma exists_insert_iff {index : Nat} {name : String} {type : ValueType} :
    (∃ s', s.insert index name type = .ok s') ↔ (Edit.insert index name type).Takes s := by
  constructor
  · rintro ⟨s', h⟩
    obtain ⟨columns, hcolumns, -⟩ := exists_of_map_ok h
    obtain ⟨hle, hlt, htype, hne, hshort, hnew, -⟩ := insertColumn_eq_ok.mp hcolumns
    exact ⟨hle, hlt, htype, ⟨hne, hshort⟩, not_mem_names_iff.mp hnew⟩
  · rintro ⟨hle, hlt, htype, ⟨hne, hshort⟩, hnew⟩
    have hcolumns := insertColumn_eq_ok.mpr
      ⟨hle, hlt, htype, hne, hshort, not_mem_names_iff.mpr hnew, rfl⟩
    exact ⟨_, congrArg (ofColumns <$> ·) hcolumns⟩

lemma exists_remove_iff {index : Nat} :
    (∃ s', Prod.snd <$> s.remove index = .ok s') ↔ (Edit.remove index).Takes s := by
  rw [remove, Edit.Takes, size]
  cases h : s.columns[index]? with
  | none =>
    have hle := List.getElem?_eq_none_iff.mp h
    refine ⟨?_, fun hlt => absurd hlt (Nat.not_lt.mpr hle)⟩
    rintro ⟨s', hs'⟩
    cases hs'
  | some c =>
    have hlt := (List.getElem?_eq_some_iff.mp h).1
    exact ⟨fun _ => hlt, fun _ => ⟨_, rfl⟩⟩

lemma exists_rename_iff {index : Nat} {name : String} :
    (∃ s', s.rename index name = .ok s') ↔ (Edit.rename index name).Takes s := by
  rw [rename, Edit.Takes, size]
  cases h : s.columns[index]? with
  | none =>
    have hle := List.getElem?_eq_none_iff.mp h
    refine ⟨?_, fun htakes => absurd htakes.1 (Nat.not_lt.mpr hle)⟩
    rintro ⟨s', hs'⟩
    cases hs'
  | some c =>
    have hlt := (List.getElem?_eq_some_iff.mp h).1
    have hother : ∀ i, some i ≠ some index ↔ i ≠ index := by simp
    constructor
    · rintro ⟨s', hs'⟩
      cases hcheck : checkName s.columns name (some index) with
      | error reason =>
        rw [hcheck] at hs'
        cases hs'
      | ok u =>
        obtain ⟨hne, hshort, hfree⟩ := checkName_eq_ok.mp hcheck
        exact ⟨hlt, ⟨hne, hshort⟩, fun i c hc hi => hfree i c hc ((hother i).mpr hi)⟩
    · rintro ⟨-, ⟨hne, hshort⟩, hfree⟩
      have hcheck : checkName s.columns name (some index) = .ok () :=
        checkName_eq_ok.mpr ⟨hne, hshort, fun i c hc hi => hfree i c hc ((hother i).mp hi)⟩
      rw [hcheck]
      exact ⟨_, rfl⟩

/-- An edit is taken exactly where it should be. -/
theorem exists_edit_iff : (∃ s', s.edit e = .ok s') ↔ e.Takes s := by
  cases e with
  | insert index name type => exact exists_insert_iff
  | push name type =>
    refine (@exists_insert_iff s s.size name type).trans ?_
    exact and_iff_right le_rfl
  | remove index => exact exists_remove_iff
  | rename index name => exact exists_rename_iff
  | assign other => exact ⟨fun _ => trivial, fun _ => ⟨_, rfl⟩⟩
  | update => exact ⟨fun _ => trivial, fun _ => ⟨_, rfl⟩⟩

/-- What an edit makes of the names and types. -/
theorem layout_of_edit (h : s.edit e = .ok s') : s'.layout = e.layout s.layout := by
  cases e with
  | insert index name type =>
    obtain ⟨columns, hcolumns, rfl⟩ := exists_of_map_ok h
    obtain ⟨-, -, -, -, -, -, rfl⟩ := insertColumn_eq_ok.mp hcolumns
    rw [layout_ofColumns, layoutOf, List.map_insertIdx]
    rfl
  | push name type =>
    obtain ⟨columns, hcolumns, rfl⟩ := exists_of_map_ok h
    obtain ⟨-, -, -, -, -, -, rfl⟩ := insertColumn_eq_ok.mp hcolumns
    rw [layout_ofColumns, layoutOf, List.insertIdx_length_self, List.map_append]
    rfl
  | remove index =>
    obtain ⟨⟨c, s''⟩, hremove, rfl⟩ := exists_of_map_ok h
    rw [remove] at hremove
    split at hremove
    · cases hremove
    · cases hremove
      rw [layout_ofColumns, layoutOf, ← List.eraseIdx_map]
      rfl
  | rename index name =>
    rw [edit, rename] at h
    split at h
    · cases h
    · rename_i c hc
      cases hcheck : checkName s.columns name (some index) with
      | error reason =>
        rw [hcheck] at h
        cases h
      | ok u =>
        rw [hcheck] at h
        cases h
        rw [layout_ofColumns, layoutOf, List.map_set, Edit.layout, List.modify_eq_set, layout,
          List.getElem?_map, hc]
        rfl
  | assign other =>
    cases h
    exact layout_ofColumns other.columns
  | update =>
    cases h
    exact layout_ofColumns s.columns

/-- Edits lead from schemas that are made to schemas that are made. -/
lemma Reachable.edit (hs : s.Reachable) (he : e.Admissible) (h : s.edit e = .ok s') :
    s'.Reachable := by
  cases e with
  | insert index name type => exact .insert hs h
  | push name type => exact .push hs h
  | remove index =>
    obtain ⟨⟨c, s''⟩, hremove, rfl⟩ := exists_of_map_ok h
    exact .remove hs hremove
  | rename index name => exact .rename hs h
  | assign other =>
    cases h
    exact .assign hs he
  | update =>
    cases h
    exact .update hs

/-! ### Well-formed schemas -/

/-- What holds of every schema: few columns, proper and distinct names, no null type, each column at
its number, found by its name and by no other, and the fingerprint of the columns. -/
structure WellFormed (s : Schema) : Prop where
  size_le : s.size ≤ 255
  isName : ∀ c ∈ s.columns, Edit.IsName c.name
  nodup : (s.columns.map Column.name).Nodup
  isNull_eq : ∀ c ∈ s.columns, c.type.isNull = false
  index_eq : ∀ i c, s.column? i = some c → c.index = i
  position?_iff : ∀ name i, s.position? name = some i ↔ ∃ c, s.column? i = some c ∧ c.name = name
  find?_eq : ∀ name, s.find? name = s.position? name >>= s.column?
  fingerprint_eq : s.fingerprint = .ofColumns s.size s.layout
  isStale_eq : s.isStale = false

/-- With distinct names a column is found by its name. -/
lemma position?_eq_some_iff (h : (s.columns.map Column.name).Nodup) {name : String} {i : Nat} :
    s.position? name = some i ↔ ∃ c, s.column? i = some c ∧ c.name = name := by
  rw [position?, column?, List.findIdx?_eq_some_iff_getElem]
  constructor
  · rintro ⟨hlt, hname, -⟩
    exact ⟨_, List.getElem?_eq_getElem hlt, by simpa using hname⟩
  · rintro ⟨c, hc, rfl⟩
    obtain ⟨hlt, rfl⟩ := List.getElem?_eq_some_iff.mp hc
    refine ⟨hlt, by simp, ?_⟩
    intro j hj hname
    have hi' : i < (s.columns.map Column.name).length := by rwa [List.length_map]
    have hj' : j < (s.columns.map Column.name).length := hj.trans hi'
    have hsame : (s.columns.map Column.name)[j] = (s.columns.map Column.name)[i] := by
      simpa using hname
    exact hj.ne ((h.getElem_inj_iff).mp hsame)

lemma Valid.index_eq (h : s.Valid) {i : Nat} {c : Column} (hc : s.column? i = some c) :
    c.index = i := by
  rw [column?, ← h.fresh, ofColumns, List.getElem?_mapIdx] at hc
  obtain ⟨c', -, rfl⟩ := Option.map_eq_some_iff.mp hc
  rfl

theorem Valid.wellFormed (h : s.Valid) : s.WellFormed := by
  have hmem : ∀ c ∈ s.columns, (c.name, c.type) ∈ s.layout := fun c hc =>
    List.mem_map.mpr ⟨c, hc, rfl⟩
  have hnodup : (s.columns.map Column.name).Nodup := by
    rw [← map_fst_layoutOf]
    exact h.layout.distinct
  have hfresh : s.update = s := h.fresh
  refine ⟨?_, ?_, hnodup, ?_, fun i c => h.index_eq, fun name i => position?_eq_some_iff hnodup,
    fun name => List.find?_eq_bind_findIdx?_getElem?, ?_, ?_⟩
  · have := h.layout.fits
    rwa [Schema.layout, List.length_map] at this
  · intro c hc
    exact ⟨h.layout.named _ (hmem c hc), h.layout.short _ (hmem c hc)⟩
  · intro c hc
    exact h.layout.typed _ (hmem c hc)
  · exact (congrArg fingerprint hfresh).symm
  · rw [isStale, hfresh]
    simp

/-! ### Every schema -/

/-- A schema that was made, edited or read is well-formed, and taking its fingerprint anew changes
nothing. An edit is taken exactly where it should be; then the columns are what it asks for, and the
schema is again one of these. An edit that is refused leaves the schema as it was, although it is
carried out in place. -/
theorem Reachable.edits_in_place (hs : s.Reachable) :
    s.WellFormed ∧ Editor.update s = (.ok false, s) ∧
      ∀ e : Edit, e.Admissible →
        (e.Takes s → ∃ s', s.edit e = .ok s' ∧ e.inPlace s = (.ok (), s') ∧
          s'.layout = e.layout s.layout ∧ s'.Reachable) ∧
        (¬ e.Takes s → ∃ reason, s.edit e = .error reason ∧ e.inPlace s = (.error reason, s)) := by
  have hwellFormed := hs.valid.wellFormed
  have hupdate : Editor.update s = (.ok s.isStale, s.update) := rfl
  refine ⟨hwellFormed, ?_, ?_⟩
  · rw [hupdate, hwellFormed.isStale_eq]
    exact congrArg (Prod.mk _) hs.valid.fresh
  · intro e he
    rw [inPlace_eq]
    constructor
    · intro htakes
      obtain ⟨s', h⟩ := exists_edit_iff.mpr htakes
      exact ⟨s', h, by rw [h]; rfl, layout_of_edit h, hs.edit he h⟩
    · intro hrefused
      cases h : s.edit e with
      | ok s' => exact absurd (exists_edit_iff.mp ⟨s', h⟩) hrefused
      | error reason => exact ⟨reason, rfl, rfl⟩

/-- A column keeps its name when it is renamed to it, but takes none of another column, and there is
no room for a column of the null type. -/
theorem edits_in_place_two_columns :
    ∃ s, ofLayout [("x", .integer .bits16 true), ("y", .dynamic .bits8)] = .ok s ∧
      s.WellFormed ∧ (∃ s', (Edit.rename 0 "x").inPlace s = (.ok (), s') ∧ s'.Reachable) ∧
      (∃ reason, (Edit.rename 0 "y").inPlace s = (.error reason, s)) ∧
      ∃ reason, (Edit.insert 1 "z" .plainNull).inPlace s = (.error reason, s) := by
  have hs : ofLayout [("x", .integer .bits16 true), ("y", .dynamic .bits8)] =
      .ok (ofColumns [⟨"x", .integer .bits16 true, 0⟩, ⟨"y", .dynamic .bits8, 0⟩]) := rfl
  obtain ⟨hwellFormed, -, hedits⟩ := (Reachable.ofLayout hs).edits_in_place
  obtain ⟨s', -, hown, -, hreachable⟩ := (hedits (.rename 0 "x") trivial).1
    ⟨Nat.two_pos, ⟨by decide, by decide⟩, fun
      | 0, _, _, hne => absurd rfl hne
      | 1, _, rfl, _ => by decide⟩
  obtain ⟨reason, -, htaken⟩ := (hedits (.rename 0 "y") trivial).2 fun h =>
    h.2.2 1 ⟨"y", .dynamic .bits8, 1⟩ rfl (by decide) rfl
  obtain ⟨reason', -, hnull⟩ := (hedits (.insert 1 "z" .plainNull) trivial).2 fun h =>
    absurd h.2.2.1 (by decide)
  exact ⟨_, hs, hwellFormed, ⟨s', hown, hreachable⟩, ⟨reason, htaken⟩, reason', hnull⟩

end RecordStore.Schema
