import Mathlib
import RecordStore.Proofs.Session.Changes

/-!
# Cursors in place

Whatever the run, a cursor that was handed out and is current is the one that its index finds. A
change hands its cursor back at the same index: an insertion at the new row, a removal at the row
that followed, a new value at the same row.
-/

namespace RecordStore

open Table (Block Cursor Edited InPlace Carries)
open Table.Block (contents)
open Record (Stored freshRow)

variable {types : List ValueType}

namespace Session

variable {s : Session} {blocks : List (Block types)} {c : Cursor}

/-- This is read of a new row of the values, where the columns tell their types: each value as its
column holds it, and zeros for those that are missing. -/
def IsRowOf (types : List ValueType) (values : List Value) (row : List (Except Fault Value)) :
    Prop :=
  ValueType.TellsAll types (values.map Value.type) → row = (freshRow types values).map .ok

lemma isRowOf_of_fresh {values : List Value} {floor : Nat} {r : Stored types}
    (h : r.IsFresh values floor) (hvalues : ∀ v ∈ values, v.Proper) :
    IsRowOf types values r.reads := by
  intro htells
  have hlegible := h.legible_iff.mpr (Record.legibleRow_iff.mpr htells)
  rw [Stored.reads_eq hlegible, (h.values_eq_iff hvalues).mpr hlegible]

namespace Sound

lemma inPlace (h : s.Sound blocks) (hc : c ∈ s.cursors) (hcurrent : s.table.isCurrent c = true) :
    s.table.InPlace c :=
  h.holds.inPlace hcurrent (h.seated c hc hcurrent)

/-- The rows of a table that passes its check can be read whole. -/
lemma exists_values (h : s.Sound blocks) (hcheck : s.table.check = .ok ()) :
    ∃ values, s.table.values = .ok values ∧
      (contents blocks).map Stored.reads = values.map (List.map .ok) := by
  have hlegible := h.check_iff.mp hcheck
  refine ⟨_, h.holds.values_eq hlegible, ?_⟩
  rw [List.map_map]
  exact List.map_congr_left fun r hr => Stored.reads_eq (hlegible r hr)

/-- The cursor of an insertion is carried on to the new row. -/
lemma insert_carries (h : s.Sound blocks) {values : List Value}
    (hadmits : s.Admits (.insert c values)) (hcurrent : s.table.isCurrent c = true) :
    (∃ row result, s.table.insert c values = .ok result ∧ IsRowOf types values row ∧
      Carries c (((contents blocks).map Stored.reads).insertIdx c.index row) (some row) result) ∨
      s.Fails (.insert c values) := by
  refine (h.exists_or_fails (h.insert_yields hadmits hcurrent) rfl).imp_left ?_
  rintro ⟨result, hrun, r, hfresh, hedited⟩
  have hcarries := hedited.carries
  have hle := (h.seated c hadmits.1 hcurrent).2
  rw [List.getElem?_insertIdx_self, if_pos hle, List.map_insertIdx, Option.map_some] at hcarries
  exact ⟨_, result, hrun, isRowOf_of_fresh hfresh hadmits.2, hcarries⟩

/-- A new row at the end is where the end has been. -/
lemma push_carries (h : s.Sound blocks) {values : List Value} (hvalues : ∀ v ∈ values, v.Proper) :
    (∃ row result, s.table.push values = .ok result ∧ IsRowOf types values row ∧
      Carries s.table.endCursor ((contents blocks).map Stored.reads ++ [row]) (some row) result) ∨
      s.Fails (.push values) := by
  refine (h.exists_or_fails (h.push_yields hvalues) rfl).imp_left ?_
  rintro ⟨result, hrun, r, hfresh, hedited⟩
  have hcarries := hedited.carries
  have hindex : s.table.endCursor.index = (contents blocks).length := h.holds.count_eq
  rw [hindex, List.getElem?_concat_length, List.map_append, List.map_singleton,
    Option.map_some] at hcarries
  exact ⟨_, result, hrun, isRowOf_of_fresh hfresh hvalues, hcarries⟩

/-- The cursor of a removal is carried on to the row that followed, or to the end. -/
lemma remove_carries (h : s.Sound blocks) (hc : c ∈ s.cursors)
    (hcurrent : s.table.isCurrent c = true) (hlt : c.index < (contents blocks).length) :
    ∃ result, s.table.remove c = .ok result ∧
      Carries c (((contents blocks).map Stored.reads).eraseIdx c.index)
        ((contents blocks).map Stored.reads)[c.index + 1]? result := by
  obtain ⟨result, hrun, hedited⟩ := h.holds.remove_eq hcurrent (h.seated c hc hcurrent) hlt
  have hcarries := hedited.carries
  rw [List.getElem?_eraseIdx_of_ge le_rfl, ← List.getElem?_map, ← List.eraseIdx_map] at hcarries
  exact ⟨result, hrun, hcarries⟩

/-- The cursor of a new value stays at its row, which has the value now. -/
lemma setField_carries (h : s.Sound blocks) {column : Nat} {value : Value}
    (hadmits : s.Admits (.setField c column value)) (hcurrent : s.table.isCurrent c = true)
    {row : List (Except Fault Value)}
    (hrow : ((contents blocks).map Stored.reads)[c.index]? = some row) {type : ValueType}
    (htype : types[column]? = some type) :
    (∃ row' result, s.table.setField c column value = .ok result ∧
      (type.Tells value.type → row' = row.set column (.ok (value.convertTo type).stored)) ∧
      Carries c (((contents blocks).map Stored.reads).set c.index row') (some row') result) ∨
      s.Fails (.setField c column value) := by
  rw [List.getElem?_map, Option.map_eq_some_iff] at hrow
  obtain ⟨r, hr, rfl⟩ := hrow
  refine (h.exists_or_fails (h.setField_yields hadmits hcurrent hr htype) rfl).imp_left ?_
  rintro ⟨result, hrun, hlegible, r', hchanged, hedited⟩
  have hcarries := hedited.carries
  have hlt := (List.getElem?_eq_some_iff.mp hr).1
  rw [List.getElem?_set_self hlt, List.map_set, Option.map_some] at hcarries
  refine ⟨_, result, hrun, fun htells => ?_, hcarries⟩
  have hfield := Field.legible_convertTo_iff.mpr htells
  rw [Stored.reads_eq ((hchanged.legible_iff htype hlegible).mpr hfield), Stored.reads_eq hlegible,
    (hchanged.values_eq_iff htype hadmits.2).mpr hfield, List.map_set]

/-- What goes through a cursor hands a cursor back at the same index, be there a change or not. -/
lemma exists_index_eq (h : s.Sound blocks) {request : Request} (hadmits : s.Admits request)
    (hcursor : request.cursor? = some c) {s' : Session} (hrun : s.step request = .ok s') :
    ∃ c', s'.cursors = c' :: s.cursors ∧ c'.index = c.index := by
  by_cases hchanges : s.Changes request
  · obtain ⟨records, result, hedited, rfl⟩ := h.exists_edited hadmits hcursor hchanges hrun
    exact ⟨result.2, rfl, hedited.index_eq⟩
  · obtain ⟨kept, hkept, -, hself⟩ := h.step_idle hadmits hchanges
    obtain rfl := Except.ok.inj (hrun.symm.trans hkept)
    obtain rfl := hself c hcursor
    exact ⟨c, rfl, rfl⟩

end Sound

/-- Every cursor that was handed out and is current is in its place. What goes through a cursor
leaves its index as it was; so an insertion carries it to the new row, a removal to the row that
followed, or to the end, and a new value to the same row. -/
theorem Reachable.cursors_in_place (hs : s.Reachable) :
    (∀ c ∈ s.cursors, s.table.isCurrent c = true → s.table.InPlace c) ∧
    (∀ request c s', s.Admits request → request.cursor? = some c → s.step request = .ok s' →
      ∃ c', s'.cursors = c' :: s.cursors ∧ c'.index = c.index) ∧
    ∃ rows, s.table.readRows = .ok rows ∧
      (s.table.check = .ok () →
        ∃ values, s.table.values = .ok values ∧ rows = values.map (List.map .ok)) ∧
      (∀ values, s.Admits (.push values) →
        (∃ row result, s.table.push values = .ok result ∧
          IsRowOf s.table.schema.types values row ∧
          Carries s.table.endCursor (rows ++ [row]) (some row) result) ∨ s.Fails (.push values)) ∧
      ∀ c ∈ s.cursors, s.table.isCurrent c = true →
        (∀ values, s.Admits (.insert c values) →
          (∃ row result, s.table.insert c values = .ok result ∧
            IsRowOf s.table.schema.types values row ∧
            Carries c (rows.insertIdx c.index row) (some row) result) ∨
            s.Fails (.insert c values)) ∧
        (c.index < rows.length → ∃ result, s.table.remove c = .ok result ∧
          Carries c (rows.eraseIdx c.index) rows[c.index + 1]? result) ∧
        ∀ row column type value, rows[c.index]? = some row →
          s.table.schema.type? column = some type → s.Admits (.setField c column value) →
          (∃ row' result, s.table.setField c column value = .ok result ∧
            (type.Tells value.type → row' = row.set column (.ok (value.convertTo type).stored)) ∧
            Carries c (rows.set c.index row') (some row') result) ∨
            s.Fails (.setField c column value) := by
  obtain ⟨types, blocks, h⟩ := hs.sound
  obtain rfl := h.holds.types_eq
  refine ⟨fun c hc => h.inPlace hc,
    fun request c s' hadmits hcursor hrun => h.exists_index_eq hadmits hcursor hrun, _,
    h.holds.readRows_eq, fun hcheck => h.exists_values hcheck,
    fun values => h.push_carries, ?_⟩
  intro c hc hcurrent
  refine ⟨fun values hadmits => h.insert_carries hadmits hcurrent, ?_, ?_⟩
  · intro hlt
    rw [List.length_map] at hlt
    exact h.remove_carries hc hcurrent hlt
  · intro row column type value hrow htype hadmits
    rw [Schema.type?_eq] at htype
    exact h.setField_carries hadmits hcurrent hrow htype

/-- A byte that goes in front of another is at the cursor of that other one; if this is removed
instead, its cursor is left at the end. -/
theorem cursors_in_place_of_pushed_byte :
    ∃ (s : Session) (c : Cursor), s.table.InPlace c ∧
      (∃ result, s.table.insert c [.integer .bits8 false 8] = .ok result ∧
        Carries c [[.ok (.integer .bits8 false 8)], [.ok (.integer .bits8 false 7)]]
          (some [.ok (.integer .bits8 false 8)]) result) ∧
      ∃ result, s.table.remove c = .ok result ∧ Carries c [] none result := by
  have hs := told_pushed_byte
  have hc := List.mem_singleton_self (⟨0, 0, 0, 0, 1⟩ : Cursor)
  have htells : ValueType.TellsAll [.integer .bits8 false] [.integer .bits8 false] := by decide
  obtain ⟨hinPlace, -, rows, hrows, -, -, hcarries⟩ := hs.reachable.cursors_in_place
  obtain rfl : [[.ok (Value.integer .bits8 false 7)]] = rows := Except.ok.inj hrows
  obtain ⟨hinsert, hremove, -⟩ := hcarries _ hc rfl
  refine ⟨_, _, hinPlace _ hc rfl, ?_, hremove Nat.one_pos⟩
  rcases hinsert [.integer .bits8 false 8] ⟨hc, by decide⟩ with
    ⟨row, result, hrun, hrow, hcarried⟩ | ⟨size, hasks, hlarge, -⟩ | ⟨hdamage, -⟩
  · obtain rfl := hrow htells
    exact ⟨result, hrun, hcarried⟩
  · obtain rfl : size = 5 := hasks
    exact absurd hlarge (by decide)
  · exact absurd ⟨hs.check_eq, fun _ => htells⟩ hdamage

end Session

end RecordStore
