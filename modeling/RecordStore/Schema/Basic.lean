import RecordStore.Schema.Error

/-!
Schemas: ordered lists of named, typed columns with the fingerprint of the list. Every edit that
is not refused renumbers the columns and takes the fingerprint anew.
-/

namespace RecordStore

/-- A column and its position in the schema. -/
structure Column where
  name : String
  type : ValueType
  index : Nat
  deriving DecidableEq, Repr

structure Schema where
  columns : List Column
  fingerprint : Fingerprint
  deriving DecidableEq, Repr

namespace Schema

/-! ### Looking -/

def size (s : Schema) : Nat := s.columns.length

def isEmpty (s : Schema) : Bool := s.columns.isEmpty

def types (s : Schema) : List ValueType := s.columns.map Column.type

/-- The names and types, without positions. -/
def layout (s : Schema) : List (String × ValueType) := s.columns.map fun c => (c.name, c.type)

def column? (s : Schema) (index : Nat) : Option Column := s.columns[index]?

def type? (s : Schema) (index : Nat) : Option ValueType := (s.column? index).map Column.type

theorem length_types (s : Schema) : s.types.length = s.size := List.length_map _

theorem type?_eq (s : Schema) (index : Nat) : s.type? index = s.types[index]? :=
  List.getElem?_map.symm

def find? (s : Schema) (name : String) : Option Column := s.columns.find? (·.name = name)

def position? (s : Schema) (name : String) : Option Nat := s.columns.findIdx? (·.name = name)

/-- Schemas are the same if their fingerprints are. -/
def same (s t : Schema) : Bool := s.fingerprint = t.fingerprint

/-- Some position has another type, or the numbers of columns differ. -/
def layoutDiffers (s t : Schema) : Bool := s.types ≠ t.types

/-! ### Editing -/

/-- The schema of a column list: positions numbered, fingerprint taken. -/
def ofColumns (columns : List Column) : Schema where
  columns := columns.mapIdx fun index c => { c with index }
  fingerprint := .ofColumns columns.length (columns.map fun c => (c.name, c.type))

def empty : Schema := ofColumns []

instance : Inhabited Schema := ⟨empty⟩

/-- Renumber and take the fingerprint anew. -/
def update (s : Schema) : Schema := ofColumns s.columns

/-- The fingerprint is not the one of the columns. -/
def isStale (s : Schema) : Bool := s.update.fingerprint ≠ s.fingerprint

/-- A name for a column: neither empty nor too long nor the name of a column other than `own`. -/
def checkName (columns : List Column) (name : String) (own : Option Nat) :
    Except EditError Unit :=
  if name.isEmpty then .error .nameEmpty
  else if maxNameLength < name.utf8ByteSize then .error (.nameTooLong name.utf8ByteSize)
  else if columns.zipIdx.any fun (c, i) => some i ≠ own ∧ c.name = name then
    .error (.nameTaken name)
  else .ok ()

/-- A column list with one more column in front of the one at `index`, or at the end. -/
def insertColumn (columns : List Column) (index : Nat) (name : String) (type : ValueType) :
    Except EditError (List Column) :=
  if columns.length < index then .error (.outOfRange index columns.length)
  else if maxColumns ≤ columns.length then .error .full
  else if type.isNull then .error (.nullType index)
  else do
    checkName columns name none
    return columns.insertIdx index ⟨name, type, 0⟩

/-- A column list with one more column at the end. -/
def pushColumn (columns : List Column) (name : String) (type : ValueType) :
    Except EditError (List Column) :=
  insertColumn columns columns.length name type

/-- Put a column in front of the one at `index`, or at the end. -/
def insert (s : Schema) (index : Nat) (name : String) (type : ValueType) :
    Except EditError Schema :=
  ofColumns <$> insertColumn s.columns index name type

def push (s : Schema) (name : String) (type : ValueType) : Except EditError Schema :=
  ofColumns <$> pushColumn s.columns name type

/-- Take out the column at `index`, returned as it was. -/
def remove (s : Schema) (index : Nat) : Except EditError (Column × Schema) :=
  match s.columns[index]? with
  | none => .error (.outOfRange index s.size)
  | some c => .ok (c, ofColumns (s.columns.eraseIdx index))

/-- Give the column at `index` another name. -/
def rename (s : Schema) (index : Nat) (name : String) : Except EditError Schema :=
  match s.columns[index]? with
  | none => .error (.outOfRange index s.size)
  | some c => do
    checkName s.columns name (some index)
    return ofColumns (s.columns.set index { c with name })

/-- The schema with these columns, each pushed in turn. -/
def ofLayout (layout : List (String × ValueType)) : Except EditError Schema :=
  ofColumns <$> layout.foldlM (fun columns c => pushColumn columns c.1 c.2) []

/-- Take over the columns of another schema, and tell whether records laid out for the old columns
cannot be read under the new ones. -/
def assign (s other : Schema) : Bool × Schema := (s.layoutDiffers other, ofColumns other.columns)

end Schema

end RecordStore
