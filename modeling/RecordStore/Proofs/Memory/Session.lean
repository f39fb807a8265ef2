import Mathlib
import RecordStore.Proofs.Memory.Table
import RecordStore.Proofs.Session.Canonical

/-!
# Sessions in memory

A resident is a session whose table lies in memory. What is seen of it is a session, and each of its
steps is seen as the step of this session. So the runs in memory are those of sessions, whatever
records have left behind in the buffers.
-/

namespace RecordStore

open Table (Cursor)

/-- A table in memory, and the cursors that it has handed out. -/
structure Resident where
  memory : Memory
  cursors : List Cursor

namespace Resident

/-- The session that is seen. -/
def session (r : Resident) : Session := ⟨r.memory.table, r.cursors⟩

/-- A changed table, with the cursor that the change has carried on. -/
def follow (r : Resident) (result : Memory × Cursor) : Resident :=
  ⟨result.1, result.2 :: r.cursors⟩

/-- A changed table. -/
def become (r : Resident) (m : Memory) : Resident := ⟨m, r.cursors⟩

/-- Carry out a request. One that only looks hands out the cursors that are seen. -/
def step (r : Resident) : Request → Except Fault Resident
  | .insert c values => r.follow <$> r.memory.insert c values
  | .push values => r.follow <$> r.memory.push values
  | .remove c => r.follow <$> r.memory.remove c
  | .setField c column value => r.follow <$> r.memory.setField c column value
  | .clear => r.become <$> r.memory.clear
  | .optimize | .write _ => r.become <$> r.memory.optimize
  | .configure schema => (fun (_, m) => r.become m) <$> r.memory.configure schema
  | request => (fun s => ⟨r.memory, s.cursors⟩) <$> r.session.step request

variable (r : Resident)

/-- Looking leaves the table as it is. -/
lemma map_look {s : Session} {request : Request} (h : request.looks = true) :
    (fun s' : Session => ⟨s.table, s'.cursors⟩) <$> s.step request = s.step request := by
  cases request with
  | start | finish => rfl
  | seek index =>
    rw [Session.step]
    cases s.table.cursorAt index <;> rfl
  | advance c =>
    rw [Session.step]
    cases s.table.advance? c with
    | error e => rfl
    | ok next? => cases next? <;> rfl
  | advanceBy n c =>
    rw [Session.step]
    cases s.table.advanceBy n c <;> rfl
  | rows =>
    rw [Session.step]
    cases s.table.rows.cursors <;> rfl
  | insert | push | remove | setField | clear | optimize | write | configure => cases h

/-- A change that is seen is followed as it is seen. -/
lemma map_follow {run : Except Fault (Memory × Cursor)} {run' : Except Fault (Table × Cursor)}
    (h : Memory.seen <$> run = run') :
    session <$> r.follow <$> run = r.session.follow <$> run' := by
  subst h
  cases run <;> rfl

lemma map_become {run : Except Fault Memory} {run' : Except Fault Table}
    (h : Memory.table <$> run = run') :
    session <$> r.become <$> run = r.session.become <$> run' := by
  subst h
  cases run <;> rfl

/-- A step in memory is seen as the step of the session. -/
theorem map_step (request : Request) : session <$> r.step request = r.session.step request := by
  have hlook : request.looks = true → session <$>
      (fun s : Session => Resident.mk r.memory s.cursors) <$> r.session.step request =
        r.session.step request := by
    intro hlooks
    rw [Functor.map_map]
    exact map_look hlooks
  cases request with
  | start | finish | seek | advance | advanceBy | rows => exact hlook rfl
  | insert c values => exact r.map_follow (r.memory.map_insert c values)
  | push values => exact r.map_follow (r.memory.map_push values)
  | remove c => exact r.map_follow (r.memory.map_remove c)
  | setField c column value => exact r.map_follow (r.memory.map_setField c column value)
  | clear => exact r.map_become r.memory.map_clear
  | optimize => exact r.map_become r.memory.map_optimize
  | write sink =>
    refine (r.map_become r.memory.map_optimize).trans ?_
    rw [Session.step, Table.write]
    change _ = _ <$> (r.memory.table.optimize >>= _)
    cases r.memory.table.optimize <;> rfl
  | configure schema =>
    rw [Session.step]
    change _ = _ <$> r.memory.table.configure schema
    rw [← r.memory.map_configure, step]
    cases r.memory.configure schema <;> rfl

/-- The runs in memory that start from an empty table. -/
inductive Built : Resident → Prop
  | build {schema : Schema} {config : Table.Config} (hschema : schema.Reachable)
      (hconfig : config.validate = .ok ()) : Built ⟨.build schema config, []⟩
  | step {r r' : Resident} {request : Request} (hr : Built r) (hadmits : r.session.Admits request)
      (h : r.step request = .ok r') : Built r'

lemma Built.session {r : Resident} (h : r.Built) : r.session.Built := by
  induction h with
  | build hschema hconfig =>
    exact .withConfig hschema (Session.withConfig_eq_ok.mpr ⟨hconfig, rfl⟩)
  | @step r r' request _ hadmits h ih =>
    have hstep := r.map_step request
    rw [h] at hstep
    exact .step ih hadmits hstep.symm

end Resident

/-- Every run can be made in memory. -/
lemma Session.Built.exists_resident {s : Session} (h : s.Built) :
    ∃ r : Resident, r.Built ∧ r.session = s := by
  induction h with
  | @new schema hschema => exact ⟨⟨.build schema .default, []⟩, .build hschema rfl, rfl⟩
  | @withConfig schema config t hschema h =>
    obtain ⟨hconfig, rfl⟩ := Session.withConfig_eq_ok.mp h
    exact ⟨⟨.build schema config, []⟩, .build hschema hconfig, rfl⟩
  | @step s s' request _ hadmits h ih =>
    obtain ⟨r, hr, rfl⟩ := ih
    obtain ⟨r', hr', hseen⟩ := exists_of_map_ok ((r.map_step request).trans h)
    exact ⟨r', .step hr hadmits hr', hseen⟩

end RecordStore
