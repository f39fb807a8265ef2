import RecordStore.Table.Codec
import RecordStore.Table.Edit

/-!
Metadata: named values in the order in which the names were first set, kept in a table with a column
of names and a dynamic column of values.
-/

namespace RecordStore

structure Metadata where
  table : Table
  deriving DecidableEq, Repr

namespace Metadata

/-- The layout of the table: names in strings of eight bits, values of any type. -/
def layout : List (String × ValueType) := [("name", .string .bits8), ("value", .dynamic .bits8)]

/-- The schema of the table. -/
def schema : Schema :=
  .ofColumns (layout.map fun (name, type) => ⟨name, type, 0⟩)

def nameColumn : Nat := 0
def valueColumn : Nat := 1

/-- The most bytes that a name can have. -/
def maxNameLength : Nat := 255

def empty : Metadata := ⟨.new schema⟩

instance : Inhabited Metadata := ⟨empty⟩

/-! ### Looking -/

def size (m : Metadata) : Nat := m.table.numRecords

def isEmpty (m : Metadata) : Bool := m.table.isEmpty

/-- The position of the first of these rows with the name. -/
def findAmong (m : Metadata) (name : String) :
    List Table.Cursor → Except Fault (Option Table.Cursor)
  | [] => .ok none
  | c :: cs => do
    if (← m.table.cell c nameColumn).toBytes = Utf8.encode name then return some c
    m.findAmong name cs

/-- The position of the entry with the name. -/
def find? (m : Metadata) (name : String) : Except Fault (Option Table.Cursor) := do
  m.findAmong name (← m.table.rows.cursors)

def contains (m : Metadata) (name : String) : Except Fault Bool :=
  Option.isSome <$> m.find? name

def get? (m : Metadata) (name : String) : Except Fault (Option Value) := do
  match ← m.find? name with
  | none => return none
  | some c => return some (← m.table.cell c valueColumn)

/-- Names and values in order. A name that is not text is empty. -/
def entries (m : Metadata) : Except Fault (List (String × Value)) := do
  (← m.table.rows.cursors).mapM fun c => do
    let name ← m.table.cell c nameColumn
    return (name.toText?.getD "", ← m.table.cell c valueColumn)

/-! ### Changing -/

/-- A name can be set if it is neither empty nor too long. -/
def isName (name : String) : Bool := !name.isEmpty && name.utf8ByteSize ≤ maxNameLength

/-- Set the value under a name, in place if there is one. -/
def set (m : Metadata) (name : String) (value : Value) :
    Except Fault (Except Table.Error Metadata) := do
  if !isName name then return .error (.invalidKey name)
  match ← m.find? name with
  | some c => return .ok ⟨(← m.table.setField c valueColumn value).1⟩
  | none => return .ok ⟨(← m.table.push [.ofBytes (Utf8.encode name), value]).1⟩

/-- Remove the entry with the name, and tell whether there was one. -/
def remove (m : Metadata) (name : String) : Except Fault (Bool × Metadata) := do
  match ← m.find? name with
  | none => return (false, m)
  | some c => return (true, ⟨(← m.table.remove c).1⟩)

/-! ### Storing -/

/-- Pack the entries and write them. -/
def write (m : Metadata) (sink : Sink) :
    Except Fault (Metadata × Except Table.Error Unit × Sink) := do
  let (table, written) ← m.table.write sink
  return (⟨table⟩, written)

/-- Read a table that has the schema of metadata. -/
def read : Decoder Table.Error Metadata := do
  let table ← Table.read
  if table.schema.same schema then return ⟨table⟩
  throw (.schema (.corrupt (.notMetadata table.schema.size table.schema.fingerprint)))

end Metadata

end RecordStore
