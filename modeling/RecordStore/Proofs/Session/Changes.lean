import Mathlib
import RecordStore.Proofs.Session.Sound
import RecordStore.Proofs.Table.Cursors

/-!
# Changes

A request changes the table or it does not, and its arguments and the table tell which. What does
not change the table is carried out and keeps every cursor; a change starts a new generation, and
generations never go back. So a cursor from before a change is rejected in all that follows.
-/

namespace RecordStore

open Table (Block Cursor Edited Keeps Rejects)
open Table.Block (contents)
open Record (Stored)

variable {types : List ValueType}

lemma Request.cursor?_of_looks {request : Request} (h : request.looks = true) :
    request.cursor? = none := by
  cases request <;> first | rfl | cases h

namespace Session

/-- The request changes the table: it is a change through a cursor at a place where there is
something to change, or a change of the whole table that is not done already. -/
def Changes (s : Session) : Request → Prop
  | .insert c _ => s.table.isPosition c = true
  | .remove c => s.table.isValid c = true
  | .setField c column _ => s.table.isValid c = true ∧ column < s.table.schema.size
  | .push _ | .clear => True
  | .optimize | .write _ => s.table.compact = false
  | .configure schema => s.table.schema.types ≠ schema.types
  | .start | .finish | .seek _ | .advance _ | .advanceBy _ _ | .rows => False

variable {s s' s'' : Session} {blocks : List (Block types)} {request : Request} {c : Cursor}

namespace Sound

/-! ### Requests without effect -/

/-- A field is not there if its row or its column is not. -/
lemma setField_eq_self_of_idle (column : Nat) (value : Value)
    (h : ¬ s.Changes (.setField c column value)) :
    s.table.setField c column value = .ok (s.table, c) := by
  refine Table.setField_eq_self ?_ value
  cases hvalid : s.table.isValid c with
  | false => exact .inl rfl
  | true =>
    refine .inr ?_
    have hle : s.table.schema.types.length ≤ column := by
      rw [Schema.length_types]
      exact Nat.not_lt.mp fun hlt => h ⟨hvalid, hlt⟩
    rw [Schema.type?_eq, List.getElem?_eq_none hle]

/-- A request that changes nothing is carried out, keeps every cursor and hands its own back. -/
theorem step_idle (h : s.Sound blocks) (hadmits : s.Admits request) (hidle : ¬ s.Changes request) :
    ∃ s', s.step request = .ok s' ∧ s.table.Keeps s'.table ∧
      ∀ c, request.cursor? = some c → s' = s.hold c := by
  cases hlooks : request.looks with
  | true =>
    obtain ⟨cursors, hrun, -⟩ := h.step_look hadmits hlooks
    refine ⟨_, hrun, Table.keeps_self _, ?_⟩
    intro c hc
    rw [Request.cursor?_of_looks hlooks] at hc
    cases hc
  | false =>
    cases request with
    | start | finish | seek | advance | advanceBy | rows => cases hlooks
    | push | clear => exact absurd trivial hidle
    | insert c values =>
      refine ⟨s.hold c, ?_, Table.keeps_self _, fun _ hc => Option.some.inj hc ▸ rfl⟩
      rw [step, Table.insert_eq_self (Bool.eq_false_iff.mpr hidle)]
      rfl
    | remove c =>
      refine ⟨s.hold c, ?_, Table.keeps_self _, fun _ hc => Option.some.inj hc ▸ rfl⟩
      rw [step, Table.remove_eq_self (Bool.eq_false_iff.mpr hidle)]
      rfl
    | setField c column value =>
      refine ⟨s.hold c, ?_, Table.keeps_self _, fun _ hc => Option.some.inj hc ▸ rfl⟩
      rw [step, setField_eq_self_of_idle column value hidle]
      rfl
    | optimize =>
      have hrun := Table.Holds.optimize_of_compact (Bool.eq_true_of_not_eq_false hidle)
      refine ⟨s, ?_, Table.keeps_self _, fun _ hc => by cases hc⟩
      rw [step, hrun]
      rfl
    | write sink =>
      have hrun := Table.Holds.optimize_of_compact (Bool.eq_true_of_not_eq_false hidle)
      refine ⟨s, ?_, Table.keeps_self _, fun _ hc => by cases hc⟩
      rw [step, Table.write_eq hrun]
      rfl
    | configure schema =>
      have hsame := not_ne_iff.mp hidle
      refine ⟨s.become { s.table with schema }, ?_, Table.keeps_rename hsame,
        fun _ hc => by cases hc⟩
      rw [step, Table.configure_of_same hsame, hadmits.valid.fresh]
      rfl

/-! ### Changes -/

/-- A change through a cursor edits the records at this cursor. -/
lemma exists_edited (h : s.Sound blocks) (hadmits : s.Admits request)
    (hcursor : request.cursor? = some c) (hchanges : s.Changes request)
    (hrun : s.step request = .ok s') :
    ∃ (records : List (Stored types)) (result : Table × Cursor),
      Edited s.table c records result ∧ s' = s.follow result := by
  cases request with
  | insert c' values =>
    obtain rfl := Option.some.inj hcursor
    obtain ⟨result, hresult, rfl⟩ := exists_of_map_ok hrun
    obtain ⟨hcurrent, -⟩ := (h.holds.isPosition_iff (h.seated c' hadmits.1)).mp hchanges
    obtain ⟨r, -, hedited⟩ := (h.insert_yields hadmits hcurrent).post_of_ok hresult
    exact ⟨_, result, hedited, rfl⟩
  | remove c' =>
    obtain rfl := Option.some.inj hcursor
    obtain ⟨result, hresult, rfl⟩ := exists_of_map_ok hrun
    obtain ⟨hcurrent, hseated, hlt⟩ := (h.holds.isValid_iff (h.seated c' hadmits)).mp hchanges
    obtain ⟨result', hresult', hedited⟩ := h.holds.remove_eq hcurrent hseated hlt
    obtain rfl := Except.ok.inj (hresult.symm.trans hresult')
    exact ⟨_, result, hedited, rfl⟩
  | setField c' column value =>
    obtain rfl := Option.some.inj hcursor
    obtain ⟨result, hresult, rfl⟩ := exists_of_map_ok hrun
    obtain ⟨hvalid, hcolumn⟩ := hchanges
    obtain ⟨hcurrent, -, hlt⟩ := (h.holds.isValid_iff (h.seated c' hadmits.1)).mp hvalid
    have hcolumn' : column < types.length := by
      rw [← h.holds.size_eq]
      exact hcolumn
    obtain ⟨-, r', -, hedited⟩ := (h.setField_yields hadmits hcurrent (List.getElem?_eq_getElem hlt)
      (List.getElem?_eq_getElem hcolumn')).post_of_ok hresult
    exact ⟨_, result, hedited, rfl⟩
  | start | finish | seek | advance | advanceBy | rows | push | clear | optimize | write |
    configure => cases hcursor

/-- A change at one place edits the records there, whether the place is given or is the end. -/
lemma exists_edited_of_edits (h : s.Sound blocks) (hadmits : s.Admits request)
    (hedits : request.edits = true) (hchanges : s.Changes request)
    (hrun : s.step request = .ok s') :
    ∃ (c : Cursor) (records : List (Stored types)) (result : Table × Cursor),
      Edited s.table c records result ∧ s' = s.follow result := by
  cases request with
  | push values =>
    obtain ⟨result, hresult, rfl⟩ := exists_of_map_ok hrun
    obtain ⟨r, -, hedited⟩ := (h.push_yields hadmits).post_of_ok hresult
    exact ⟨_, _, result, hedited, rfl⟩
  | insert c values => exact ⟨c, h.exists_edited hadmits rfl hchanges hrun⟩
  | remove c => exact ⟨c, h.exists_edited hadmits rfl hchanges hrun⟩
  | setField c column value => exact ⟨c, h.exists_edited hadmits rfl hchanges hrun⟩
  | start | finish | seek | advance | advanceBy | rows | clear | optimize | write | configure =>
    cases hedits

/-- A change starts a new generation. -/
theorem generation_lt (h : s.Sound blocks) (hadmits : s.Admits request)
    (hchanges : s.Changes request) (hrun : s.step request = .ok s') :
    s.table.generation < s'.table.generation := by
  cases hedits : request.edits with
  | true =>
    obtain ⟨c, records, result, hedited, rfl⟩ :=
      h.exists_edited_of_edits hadmits hedits hchanges hrun
    exact (Nat.lt_succ_self _).trans_eq hedited.generation_eq.symm
  | false =>
    cases request with
    | insert | push | remove | setField => cases hedits
    | start | finish | seek | advance | advanceBy | rows => cases hchanges
    | clear =>
      rw [step, Table.clear_eq] at hrun
      cases hrun
      exact Nat.lt_succ_self _
    | optimize =>
      obtain ⟨t, hresult, rfl⟩ := exists_of_map_ok hrun
      exact h.holds.generation_lt_of_optimize hchanges hresult
    | write sink =>
      obtain ⟨⟨t, outcome⟩, hresult, rfl⟩ := exists_of_map_ok hrun
      obtain ⟨t', hresult', hpair⟩ := exists_of_bind_ok hresult
      cases hpair
      exact h.holds.generation_lt_of_optimize hchanges hresult'
    | configure schema =>
      obtain ⟨⟨changed, t⟩, hresult, rfl⟩ := exists_of_map_ok hrun
      obtain ⟨-, blocks', hmigrated⟩ := (h.holds.configure_yields hchanges).post_of_ok hresult
      exact hmigrated.later

end Sound

/-! ### Later sessions -/

/-- The sessions that a run can come to from one on. -/
inductive Later (s : Session) : Session → Prop
  | refl : Later s s
  | step {s' s'' : Session} {request : Request} (h : Later s s') (hadmits : s'.Admits request)
      (hrun : s'.step request = .ok s'') : Later s s''

lemma Later.reachable (h : Later s s') (hs : s.Reachable) : s'.Reachable := by
  induction h with
  | refl => exact hs
  | step _ hadmits hrun ih => exact .step ih hadmits hrun

/-- A step does not go back to an earlier generation. -/
lemma Reachable.generation_le (hs : s.Reachable) (hadmits : s.Admits request)
    (hrun : s.step request = .ok s') : s.table.generation ≤ s'.table.generation := by
  obtain ⟨types, blocks, hsound⟩ := hs.sound
  by_cases hchanges : s.Changes request
  · exact (hsound.generation_lt hadmits hchanges hrun).le
  · obtain ⟨kept, hrun', hkeeps, -⟩ := hsound.step_idle hadmits hchanges
    obtain rfl := Except.ok.inj (hrun.symm.trans hrun')
    rw [hkeeps.eq]

/-- Nor does a run. -/
theorem Later.generation_le (h : Later s s') (hs : s.Reachable) :
    s.table.generation ≤ s'.table.generation := by
  induction h with
  | refl => exact le_rfl
  | step h hadmits hrun ih => exact ih.trans ((h.reachable hs).generation_le hadmits hrun)

/-- A cursor from before a change is rejected in every session that comes after it. What is not a
change is carried out, and every cursor reads what it has read before. A schema changes the table
if and only if its adoption says so. -/
theorem Reachable.cursor_lifetime (hs : s.Reachable) :
    (∀ request s', s.Admits request → s.Changes request → s.step request = .ok s' →
      ∀ s'', Later s' s'' → ∀ c ∈ s.cursors, s''.table.Rejects c) ∧
    (∀ request, s.Admits request → ¬ s.Changes request →
      ∃ s', s.step request = .ok s' ∧ s.table.Keeps s'.table) ∧
    ∀ schema changed t, s.table.configure schema = .ok (changed, t) →
      (changed = true ↔ s.Changes (.configure schema)) := by
  obtain ⟨types, blocks, hsound⟩ := hs.sound
  refine ⟨?_, ?_, ?_⟩
  · intro request s' hadmits hchanges hrun s'' hlater c hc
    have hpast := hsound.past c hc
    have hnext := hsound.generation_lt hadmits hchanges hrun
    have hlast := hlater.generation_le (.step hs hadmits hrun)
    exact Table.rejects_of_lt (hpast.trans_lt (hnext.trans_le hlast))
  · intro request hadmits hidle
    obtain ⟨s', hrun, hkeeps, -⟩ := hsound.step_idle hadmits hidle
    exact ⟨s', hrun, hkeeps⟩
  · intro schema changed t hrun
    by_cases hsame : s.table.schema.types = schema.types
    · rw [Table.configure_of_same hsame] at hrun
      cases hrun
      exact ⟨nofun, fun hdiffers => absurd hsame hdiffers⟩
    · obtain ⟨hchanged, -⟩ := (hsound.holds.configure_yields hsame).post_of_ok hrun
      exact ⟨fun _ => hsame, fun _ => hchanged⟩

/-- Two more bytes behind it: the cursor of the first one is rejected. A column that is not there
leaves it valid. -/
theorem cursor_lifetime_of_pushed_byte :
    ∃ (s s' : Session) (c : Cursor), c ∈ s.cursors ∧ s.table.isValid c = true ∧
      s'.table.numRecords = 3 ∧ s'.table.Rejects c ∧
      (∃ s', s.step (.setField c 1 (.integer .bits8 false 10)) = .ok s' ∧
        s.table.Keeps s'.table) ∧
      s.table.configure s.table.schema = .ok (false, s.table) := by
  have hs := told_pushed_byte.reachable
  have hc := List.mem_singleton_self (⟨0, 0, 0, 0, 1⟩ : Cursor)
  have hproper : ∀ n ∈ [8, 9], ∀ v ∈ [Value.integer .bits8 false n], v.Proper := by decide
  obtain ⟨hchanges, hidle, -⟩ := hs.cursor_lifetime
  have hrejects := hchanges (.push [.integer .bits8 false 8]) _ (hproper 8 (by decide)) trivial rfl
    _ (@Later.step _ _ _ (.push [.integer .bits8 false 9]) .refl (hproper 9 (by decide)) rfl) _ hc
  have hkeeps := hidle (.setField ⟨0, 0, 0, 0, 1⟩ 1 (.integer .bits8 false 10)) ⟨hc, by decide⟩
    fun h => absurd h.2 (Nat.lt_irrefl 1)
  exact ⟨_, _, _, hc, rfl, rfl, hrejects, hkeeps, rfl⟩

end Session

end RecordStore
