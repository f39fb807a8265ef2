import Mathlib
import RecordStore.Proofs.Schema.Codec
import RecordStore.Proofs.Table.Migration
import RecordStore.Table.Codec

/-!
# Tables in use

A session is a table together with every cursor that it has handed out. A request is a call with
arguments that a caller can have: cursors that were handed out, current or not, values within
their types, schemas that were made. A run starts from an empty table or from one that was read,
and takes requests in any order.
-/

namespace RecordStore

open Table (Cursor)

/-- A table, and the cursors that it has handed out. -/
structure Session where
  table : Table
  cursors : List Cursor

/-- What can be asked of a table. -/
inductive Request
  | start
  | finish
  | seek (index : Nat)
  | advance (c : Cursor)
  | advanceBy (n : Nat) (c : Cursor)
  | rows
  | insert (c : Cursor) (values : List Value)
  | push (values : List Value)
  | remove (c : Cursor)
  | setField (c : Cursor) (column : Nat) (value : Value)
  | clear
  | optimize
  | write (sink : Sink)
  | configure (schema : Schema)

namespace Session

/-- The same table, with one more cursor handed out. -/
def hold (s : Session) (c : Cursor) : Session := ⟨s.table, c :: s.cursors⟩

/-- A changed table, with the cursor that the change has carried on. -/
def follow (s : Session) (result : Table × Cursor) : Session :=
  ⟨result.1, result.2 :: s.cursors⟩

/-- A changed table. -/
def become (s : Session) (t : Table) : Session := ⟨t, s.cursors⟩

/-- Carry out a request. -/
def step (s : Session) : Request → Except Fault Session
  | .start => .ok (s.hold s.table.startCursor)
  | .finish => .ok (s.hold s.table.endCursor)
  | .seek index => s.hold <$> s.table.cursorAt index
  | .advance c => (fun next? => next?.elim s s.hold) <$> s.table.advance? c
  | .advanceBy n c => (fun (_, last) => s.hold last) <$> s.table.advanceBy n c
  | .rows => (fun cursors => ⟨s.table, cursors ++ s.cursors⟩) <$> s.table.rows.cursors
  | .insert c values => s.follow <$> s.table.insert c values
  | .push values => s.follow <$> s.table.push values
  | .remove c => s.follow <$> s.table.remove c
  | .setField c column value => s.follow <$> s.table.setField c column value
  | .clear => s.become <$> s.table.clear
  | .optimize => s.become <$> s.table.optimize
  | .write sink => (fun (t, _, _) => s.become t) <$> s.table.write sink
  | .configure schema => (fun (_, t) => s.become t) <$> s.table.configure schema

/-- The arguments are ones that a caller can have. -/
def Admits (s : Session) : Request → Prop
  | .advance c | .advanceBy _ c | .remove c => c ∈ s.cursors
  | .insert c values => c ∈ s.cursors ∧ ∀ v ∈ values, v.Proper
  | .push values => ∀ v ∈ values, v.Proper
  | .setField c _ value => c ∈ s.cursors ∧ value.Proper
  | .configure schema => schema.Reachable
  | .start | .finish | .seek _ | .rows | .clear | .optimize | .write _ => True

/-- The request asks for a record of this size. Requests that make no record and change none ask
for nothing. -/
def Asks (s : Session) (size : Nat) : Request → Prop
  | .insert _ values | .push values =>
    size = Record.reserveSize s.table.schema.types values s.table.config.minStringReserve
  | .setField c column value =>
    ∃ type record start old, s.table.schema.type? column = some type ∧
      s.table.record c = .ok record ∧
      Record.fieldOffset s.table.schema.types record column = .ok start ∧
      Field.size type (record.drop start) = .ok old ∧
      size = record.length - old + (Field.encode type (value.convertTo type)).length
  | .configure schema =>
    ∃ rows, s.table.values = .ok rows ∧
      ∃ row ∈ Table.migrate s.table.schema.types schema.types rows,
        size = Record.reserveSize schema.types row s.table.config.minStringReserve
  | _ => False

/-- The request fails, as it asks for a record whose header could not state its size. -/
def TooLarge (s : Session) (request : Request) : Prop :=
  ∃ size, s.Asks size request ∧ 2 ^ 32 ≤ size ∧ s.step request = .error (.recordTooLarge size)

/-- The sessions of all runs. -/
inductive Reachable : Session → Prop
  | new {schema : Schema} (hschema : schema.Reachable) : Reachable ⟨.new schema, []⟩
  | withConfig {schema : Schema} {config : Table.Config} {t : Table} (hschema : schema.Reachable)
      (h : Table.withConfig schema config = .ok t) : Reachable ⟨t, []⟩
  | read {config : Table.Config} {input rest : Bytes} {t : Table}
      (h : Table.readWithConfig config input = .ok (t, rest)) : Reachable ⟨t, []⟩
  | step {s s' : Session} {request : Request} (hs : Reachable s) (hadmits : s.Admits request)
      (h : s.step request = .ok s') : Reachable s'

end Session

/-- The columns tell the types of all values that the request puts into the table. -/
def Table.Tells (t : Table) : Request → Prop
  | .insert c values =>
    t.isCurrent c = true → ValueType.TellsAll t.schema.types (values.map Value.type)
  | .push values => ValueType.TellsAll t.schema.types (values.map Value.type)
  | .setField c column value =>
    t.isValid c = true → ∀ type, t.schema.type? column = some type → type.Tells value.type
  | .configure schema =>
    t.numRecords ≠ 0 → t.schema.size = schema.size →
      ValueType.TellsAll schema.types t.schema.types
  | .start | .finish | .seek _ | .advance _ | .advanceBy _ _ | .remove _ | .rows | .clear
  | .optimize | .write _ => True

namespace Session

/-- The sessions of the runs in which the columns tell the types of all values. -/
inductive Told : Session → Prop
  | new {schema : Schema} (hschema : schema.Reachable) : Told ⟨.new schema, []⟩
  | withConfig {schema : Schema} {config : Table.Config} {t : Table} (hschema : schema.Reachable)
      (h : Table.withConfig schema config = .ok t) : Told ⟨t, []⟩
  | read {config : Table.Config} {input rest : Bytes} {t : Table}
      (h : Table.readWithConfig config input = .ok (t, rest)) : Told ⟨t, []⟩
  | step {s s' : Session} {request : Request} (hs : Told s) (hadmits : s.Admits request)
      (htells : s.table.Tells request) (h : s.step request = .ok s') : Told s'

lemma Told.reachable {s : Session} (h : s.Told) : s.Reachable := by
  induction h with
  | new hschema => exact .new hschema
  | withConfig hschema h => exact .withConfig hschema h
  | read h => exact .read h
  | step _ hadmits _ h ih => exact .step ih hadmits h

/-- The request fails at a field whose type is not told: the table does not pass its check, or the
request puts in a value of a type that its column does not tell. -/
def Illegible (s : Session) (request : Request) : Prop :=
  ¬ (s.table.check = .ok () ∧ s.table.Tells request) ∧
    ∃ type, s.step request = .error (.corruptField type)

/-- The two ways in which a request that is admitted can fail. -/
def Fails (s : Session) (request : Request) : Prop := s.TooLarge request ∨ s.Illegible request

/-- A byte that was appended to an empty table of one byte column, and its cursor. -/
lemma told_pushed_byte :
    Told ⟨⟨.ofColumns [⟨"x", .integer .bits8 false, 0⟩], [⟨8192, 0, [5, 0, 0, 0, 7], 1⟩], 1,
      .default, 1, false⟩, [⟨0, 0, 0, 0, 1⟩]⟩ := by
  have hschema : Schema.Reachable (.ofColumns [⟨"x", .integer .bits8 false, 0⟩]) :=
    @Schema.Reachable.ofLayout [("x", .integer .bits8 false)] _ rfl
  have hadmits : Admits ⟨.new (.ofColumns [⟨"x", .integer .bits8 false, 0⟩]), []⟩
      (.push [.integer .bits8 false 7]) := by
    change ∀ v ∈ [Value.integer .bits8 false 7], v.Proper
    decide
  have htells : Table.Tells (.new (.ofColumns [⟨"x", .integer .bits8 false, 0⟩]))
      (.push [.integer .bits8 false 7]) := by
    change ValueType.TellsAll [.integer .bits8 false] [.integer .bits8 false]
    decide
  exact .step (.new hschema) hadmits htells rfl

/-- One column for values of any type. -/
def anyColumn : Schema := .ofColumns [⟨"any", .dynamic .bits8, 0⟩]

/-- The integer five in a dynamic column, under a type with a flag that has no name. -/
def unnamedFive : Session :=
  ⟨⟨anyColumn, [⟨8192, 0, [16, 0, 0, 0, 2, 0, 2, 0, 5, 0, 0, 0, 0, 0, 0, 0], 1⟩], 1, .default, 1,
    false⟩, [⟨0, 0, 0, 0, 1⟩]⟩

lemma reachable_anyColumn : Reachable ⟨.new anyColumn, []⟩ :=
  .new (@Schema.Reachable.ofLayout [("any", .dynamic .bits8)] _ rfl)

lemma admits_unnamedFive : Admits ⟨.new anyColumn, []⟩ (.push [.integer .bits8 ⟨false, 1⟩ 5]) := by
  change ∀ v ∈ [Value.integer .bits8 ⟨false, 1⟩ 5], v.Proper
  decide

lemma step_unnamedFive :
    step ⟨.new anyColumn, []⟩ (.push [.integer .bits8 ⟨false, 1⟩ 5]) = .ok unnamedFive := rfl

lemma reachable_unnamedFive : unnamedFive.Reachable :=
  .step reachable_anyColumn admits_unnamedFive step_unnamedFive

lemma exists_pushed_byte :
    ∃ s : Session, s.Told ∧ s.table.schema.Named ∧
      s.table.chunks = [⟨8192, 0, [5, 0, 0, 0, 7], 1⟩] :=
  ⟨_, told_pushed_byte, by decide, rfl⟩

end Session

end RecordStore
