import Mathlib
import RecordStore.Schema.Codec

/-!
# Schemas that can be reached

A layout is valid if an edit could have made it: no more columns than can be counted, none of the
null type, and names that are distinct, not empty and no longer than can be counted. Every schema
that is made, edited or read has a valid layout, its columns are numbered in order, and its
fingerprint is the one of its columns.
-/

namespace RecordStore.Schema

/-! ### Valid layouts -/

/-- The names and types that a schema can have. -/
structure ValidLayout (layout : List (String × ValueType)) : Prop where
  fits : layout.length ≤ maxColumns
  named : ∀ c ∈ layout, c.1 ≠ ""
  short : ∀ c ∈ layout, c.1.utf8ByteSize ≤ maxNameLength
  typed : ∀ c ∈ layout, c.2.isNull = false
  distinct : (layout.map Prod.fst).Nodup

namespace ValidLayout

variable {layout layout' : List (String × ValueType)}

lemma nil : ValidLayout [] where
  fits := Nat.zero_le _
  named := nofun
  short := nofun
  typed := nofun
  distinct := List.nodup_nil

lemma perm (h : ValidLayout layout) (hperm : layout.Perm layout') : ValidLayout layout' where
  fits := hperm.length_eq ▸ h.fits
  named c hc := h.named c (hperm.mem_iff.mpr hc)
  short c hc := h.short c (hperm.mem_iff.mpr hc)
  typed c hc := h.typed c (hperm.mem_iff.mpr hc)
  distinct := (hperm.map Prod.fst).nodup_iff.mp h.distinct

lemma cons (h : ValidLayout layout) {name : String} {type : ValueType}
    (hfits : layout.length < maxColumns) (hname : name ≠ "")
    (hshort : name.utf8ByteSize ≤ maxNameLength) (htype : type.isNull = false)
    (hnew : name ∉ layout.map Prod.fst) : ValidLayout ((name, type) :: layout) where
  fits := hfits
  named := List.forall_mem_cons.mpr ⟨hname, h.named⟩
  short := List.forall_mem_cons.mpr ⟨hshort, h.short⟩
  typed := List.forall_mem_cons.mpr ⟨htype, h.typed⟩
  distinct := List.nodup_cons.mpr ⟨hnew, h.distinct⟩

lemma sublist (h : ValidLayout layout) (hsub : layout'.Sublist layout) : ValidLayout layout' where
  fits := hsub.length_le.trans h.fits
  named c hc := h.named c (hsub.mem hc)
  short c hc := h.short c (hsub.mem hc)
  typed c hc := h.typed c (hsub.mem hc)
  distinct := (hsub.map Prod.fst).nodup h.distinct

end ValidLayout

/-- The names and types of a column list. -/
def layoutOf (columns : List Column) : List (String × ValueType) :=
  columns.map fun c => (c.name, c.type)

/-- What every schema keeps that is made, edited or read. -/
structure Valid (s : Schema) : Prop where
  layout : ValidLayout s.layout
  fresh : ofColumns s.columns = s

/-! ### Fresh schemas -/

lemma layoutOf_mapIdx (columns : List Column) :
    layoutOf (columns.mapIdx fun index c => { c with index }) = layoutOf columns := by
  apply List.ext_getElem
  · simp [layoutOf]
  · intro i hi hi'
    simp [layoutOf]

@[simp] lemma layout_ofColumns (columns : List Column) :
    (ofColumns columns).layout = layoutOf columns := layoutOf_mapIdx columns

lemma types_eq_layout (s : Schema) : s.types = s.layout.map Prod.snd := by
  rw [types, layout, List.map_map]
  rfl

lemma Valid.isNull_eq_false {s : Schema} (h : s.Valid) : ∀ type ∈ s.types, type.isNull = false := by
  intro type htype
  rw [types_eq_layout] at htype
  obtain ⟨column, hcolumn, rfl⟩ := List.mem_map.mp htype
  exact h.layout.typed column hcolumn

/-- Renumbered columns are as many, with the same names and types, so nothing changes when they are
renumbered again. -/
lemma ofColumns_columns (columns : List Column) :
    ofColumns (ofColumns columns).columns = ofColumns columns := by
  have hcolumns : (ofColumns columns).columns.mapIdx (fun index c => { c with index }) =
      (ofColumns columns).columns := by
    apply List.ext_getElem
    · simp [ofColumns]
    · intro i hi hi'
      simp [ofColumns]
  have hlength : (ofColumns columns).columns.length = columns.length := by simp [ofColumns]
  have hlayout := layoutOf_mapIdx columns
  conv_lhs => rw [ofColumns, hcolumns, hlength]
  rw [ofColumns]
  congr 2

lemma valid_ofColumns {columns : List Column} (h : ValidLayout (layoutOf columns)) :
    (ofColumns columns).Valid :=
  ⟨by rwa [layout_ofColumns], ofColumns_columns columns⟩

/-! ### Edits -/

/-- A name that passes can be the name of a column in place of `own`. -/
lemma checkName_eq_ok {columns : List Column} {name : String} {own : Option Nat} {u : Unit} :
    checkName columns name own = .ok u ↔
      name ≠ "" ∧ name.utf8ByteSize ≤ maxNameLength ∧
        ∀ i c, columns[i]? = some c → some i ≠ own → c.name ≠ name := by
  have hany : (columns.zipIdx.any fun p => some p.2 ≠ own ∧ p.1.name = name) = true ↔
      ∃ i c, columns[i]? = some c ∧ some i ≠ own ∧ c.name = name := by
    rw [List.any_eq_true]
    constructor
    · rintro ⟨⟨c, i⟩, hmem, hc⟩
      exact ⟨i, c, List.mk_mem_zipIdx_iff_getElem?.mp hmem, by simpa using hc⟩
    · rintro ⟨i, c, hc, hne, hname⟩
      exact ⟨⟨c, i⟩, List.mk_mem_zipIdx_iff_getElem?.mpr hc, by simpa using ⟨hne, hname⟩⟩
  unfold checkName
  split_ifs with hempty hlong htaken
  · constructor
    · intro h
      cases h
    · rintro ⟨hne, -⟩
      exact absurd (by simpa using hempty) hne
  · constructor
    · intro h
      cases h
    · rintro ⟨-, hle, -⟩
      exact absurd hlong (Nat.not_lt.mpr hle)
  · constructor
    · intro h
      cases h
    · rintro ⟨-, -, hfree⟩
      obtain ⟨i, c, hc, hne, hname⟩ := hany.mp htaken
      exact absurd hname (hfree i c hc hne)
  · constructor
    · intro _
      refine ⟨by simpa using hempty, Nat.not_lt.mp hlong, fun i c hc hne hname => ?_⟩
      exact htaken (hany.mpr ⟨i, c, hc, hne, hname⟩)
    · intro _
      rfl

/-- A column is inserted if and only if the layout with it is one that a schema can have. -/
lemma insertColumn_eq_ok {columns columns' : List Column} {index : Nat} {name : String}
    {type : ValueType} :
    insertColumn columns index name type = .ok columns' ↔
      index ≤ columns.length ∧ columns.length < maxColumns ∧ type.isNull = false ∧ name ≠ "" ∧
        name.utf8ByteSize ≤ maxNameLength ∧ name ∉ columns.map Column.name ∧
        columns' = columns.insertIdx index ⟨name, type, 0⟩ := by
  have hfree : (∀ i c, columns[i]? = some c → some i ≠ (none : Option Nat) → c.name ≠ name) ↔
      name ∉ columns.map Column.name := by
    constructor
    · intro h hmem
      obtain ⟨c, hc, hname⟩ := List.mem_map.mp hmem
      obtain ⟨i, hi⟩ := List.mem_iff_getElem?.mp hc
      exact h i c hi nofun hname
    · intro h i c hc _ hname
      exact h (List.mem_map.mpr ⟨c, List.mem_of_getElem? hc, hname⟩)
  unfold insertColumn
  split_ifs with hrange hfull hnull
  · constructor
    · intro h
      cases h
    · rintro ⟨hle, -⟩
      exact absurd hrange (Nat.not_lt.mpr hle)
  · constructor
    · intro h
      cases h
    · rintro ⟨-, hlt, -⟩
      exact absurd hfull (Nat.not_le.mpr hlt)
  · constructor
    · intro h
      cases h
    · rintro ⟨-, -, htype, -⟩
      rw [hnull] at htype
      cases htype
  · constructor
    · intro h
      cases hcheck : checkName columns name none with
      | error e =>
        rw [hcheck] at h
        cases h
      | ok u =>
        rw [hcheck] at h
        cases h
        obtain ⟨hne, hshort, hown⟩ := checkName_eq_ok.mp hcheck
        exact ⟨Nat.not_lt.mp hrange, Nat.not_le.mp hfull, by simpa using hnull, hne, hshort,
          hfree.mp hown, rfl⟩
    · rintro ⟨-, -, -, hne, hshort, hnew, rfl⟩
      have hcheck : checkName columns name none = .ok () :=
        checkName_eq_ok.mpr ⟨hne, hshort, hfree.mpr hnew⟩
      rw [hcheck]
      rfl

lemma map_fst_layoutOf (columns : List Column) :
    (layoutOf columns).map Prod.fst = columns.map Column.name := by
  rw [layoutOf, List.map_map]
  rfl

lemma validLayout_insertColumn {columns columns' : List Column} {index : Nat} {name : String}
    {type : ValueType} (h : ValidLayout (layoutOf columns))
    (hinsert : insertColumn columns index name type = .ok columns') :
    ValidLayout (layoutOf columns') := by
  obtain ⟨hle, hlt, htype, hne, hshort, hnew, rfl⟩ := insertColumn_eq_ok.mp hinsert
  have hperm : (columns.insertIdx index ⟨name, type, 0⟩).Perm (⟨name, type, 0⟩ :: columns) :=
    List.perm_insertIdx _ _ hle
  refine ValidLayout.perm ?_ (hperm.map _).symm
  refine h.cons ?_ hne hshort htype ?_
  · rw [layoutOf, List.length_map]
    exact hlt
  · rw [map_fst_layoutOf]
    exact hnew

/-- A column that may be renamed makes a layout that a schema can have. -/
lemma validLayout_rename {columns : List Column} {index : Nat} {c : Column} {name : String}
    (h : ValidLayout (layoutOf columns)) (hc : columns[index]? = some c)
    (hcheck : checkName columns name (some index) = .ok ()) :
    ValidLayout (layoutOf (columns.set index { c with name })) := by
  obtain ⟨hne, hshort, hfree⟩ := checkName_eq_ok.mp hcheck
  obtain ⟨hlt, rfl⟩ := List.getElem?_eq_some_iff.mp hc
  have hperm := List.set_perm_cons_eraseIdx hlt { columns[index] with name }
  have hsub : (layoutOf (columns.eraseIdx index)).Sublist (layoutOf columns) :=
    (List.eraseIdx_sublist columns index).map _
  refine ValidLayout.perm ?_ (hperm.map _).symm
  refine (h.sublist hsub).cons ?_ hne hshort ?_ ?_
  · have := h.fits
    rw [layoutOf, List.length_map] at this ⊢
    rw [List.length_eraseIdx_of_lt hlt]
    omega
  · exact h.typed _ (List.mem_map.mpr ⟨columns[index], List.getElem_mem hlt, rfl⟩)
  · rw [map_fst_layoutOf]
    intro hmem
    obtain ⟨d, hd, hname⟩ := List.mem_map.mp hmem
    obtain ⟨i, hi⟩ := List.mem_iff_getElem?.mp hd
    rw [List.getElem?_eraseIdx] at hi
    split_ifs at hi with hlow
    · exact hfree i d hi (by simpa using Nat.ne_of_lt hlow) hname
    · exact hfree (i + 1) d hi (by simp; omega) hname

lemma validLayout_foldlM {layout : List (String × ValueType)} {columns columns' : List Column}
    (h : ValidLayout (layoutOf columns))
    (hfold : layout.foldlM (fun columns c => pushColumn columns c.1 c.2) columns = .ok columns') :
    ValidLayout (layoutOf columns') := by
  induction layout generalizing columns with
  | nil =>
    cases hfold
    exact h
  | cons c layout ih =>
    rw [List.foldlM_cons] at hfold
    cases hpush : pushColumn columns c.1 c.2 with
    | error e =>
      rw [hpush] at hfold
      cases hfold
    | ok next =>
      rw [hpush] at hfold
      exact ih (validLayout_insertColumn h hpush) hfold

/-! ### Column lists with one layout -/

/-- A schema is determined by the names and types of its columns. -/
lemma ofColumns_congr {columns columns' : List Column} (h : layoutOf columns = layoutOf columns') :
    ofColumns columns = ofColumns columns' := by
  have hlength : columns.length = columns'.length := by
    have := congrArg List.length h
    rwa [layoutOf, layoutOf, List.length_map, List.length_map] at this
  have hmap : (columns.mapIdx fun index c => { c with index }) =
      columns'.mapIdx fun index c => { c with index } := by
    apply List.ext_getElem
    · simp [hlength]
    · intro i hi hi'
      rw [List.length_mapIdx] at hi hi'
      have hget : (layoutOf columns)[i]? = (layoutOf columns')[i]? := by rw [h]
      simp only [layoutOf, List.getElem?_map, List.getElem?_eq_getElem hi,
        List.getElem?_eq_getElem hi', Option.map_some, Option.some.injEq, Prod.mk.injEq] at hget
      simp [hget.1, hget.2]
  rw [ofColumns, ofColumns, hmap, hlength]
  exact congrArg (fun l => Schema.mk _ (Fingerprint.ofColumns _ l)) h

/-- Columns pushed in turn are taken if and only if the whole layout is one that a schema can
have. -/
lemma foldlM_push_of_valid {columns : List Column} {layout : List (String × ValueType)}
    (h : ValidLayout (layoutOf columns ++ layout)) :
    ∃ columns', layout.foldlM (fun columns c => pushColumn columns c.1 c.2) columns = .ok columns' ∧
      layoutOf columns' = layoutOf columns ++ layout := by
  induction layout generalizing columns with
  | nil => exact ⟨columns, rfl, (List.append_nil _).symm⟩
  | cons c layout ih =>
    have hmem : c ∈ layoutOf columns ++ c :: layout :=
      List.mem_append_right _ List.mem_cons_self
    have hlt : columns.length < maxColumns := by
      have := h.fits
      rw [List.length_append, layoutOf, List.length_map, List.length_cons] at this
      omega
    have hnew : c.1 ∉ columns.map Column.name := by
      have := h.distinct
      rw [List.map_append, List.map_cons, map_fst_layoutOf] at this
      intro hin
      exact (List.nodup_append.mp this).2.2 _ hin _ List.mem_cons_self rfl
    have hpush : pushColumn columns c.1 c.2 = .ok (columns ++ [⟨c.1, c.2, 0⟩]) := by
      refine insertColumn_eq_ok.mpr ⟨le_rfl, hlt, h.typed c hmem, h.named c hmem, h.short c hmem,
        hnew, ?_⟩
      rw [List.insertIdx_length_self]
    have hlayout : layoutOf (columns ++ [⟨c.1, c.2, 0⟩]) = layoutOf columns ++ [c] := by
      rw [layoutOf, List.map_append]
      rfl
    obtain ⟨columns', hfold, hcolumns'⟩ := @ih (columns ++ [⟨c.1, c.2, 0⟩]) (by
      rw [hlayout, List.append_assoc]
      exact h)
    refine ⟨columns', ?_, ?_⟩
    · rw [List.foldlM_cons, hpush]
      exact hfold
    · rw [hcolumns', hlayout, List.append_assoc]
      rfl

/-- Columns that have been pushed in turn are behind those of before. -/
lemma layoutOf_foldlM {layout : List (String × ValueType)} {columns columns' : List Column}
    (hfold : layout.foldlM (fun columns c => pushColumn columns c.1 c.2) columns = .ok columns') :
    layoutOf columns' = layoutOf columns ++ layout := by
  induction layout generalizing columns with
  | nil =>
    cases hfold
    exact (List.append_nil _).symm
  | cons c layout ih =>
    rw [List.foldlM_cons] at hfold
    cases hpush : pushColumn columns c.1 c.2 with
    | error e =>
      rw [hpush] at hfold
      cases hfold
    | ok next =>
      rw [hpush] at hfold
      obtain ⟨-, -, -, -, -, -, rfl⟩ := insertColumn_eq_ok.mp hpush
      rw [ih hfold, List.insertIdx_length_self, layoutOf, List.map_append, List.append_assoc]
      rfl

end RecordStore.Schema
