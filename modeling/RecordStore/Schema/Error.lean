import RecordStore.Schema.Fingerprint
import RecordStore.Stream

/-!
What can be wrong with a schema: with an edit, with stored bytes, with the stream they are on.
-/

namespace RecordStore.Schema

/-- The most columns that a schema can have; their count is stored in one byte. -/
def maxColumns : Nat := 255

/-- The most bytes that a column name can have; their count is stored in one byte. -/
def maxNameLength : Nat := 255

/-- Why an edit is refused. -/
inductive EditError
  | nameEmpty
  | nameTaken (name : String)
  | nameTooLong (length : Nat)
  | nullType (index : Nat)
  | outOfRange (index length : Nat)
  | full
  deriving DecidableEq, Repr

def EditError.message : EditError → String
  | .nameEmpty => "column name is empty"
  | .nameTaken name => s!"column name already in use: {name}"
  | .nameTooLong length => s!"column name is {length} bytes, limit is {maxNameLength}"
  | .nullType index => s!"column {index} has an invalid type"
  | .outOfRange index length => s!"column index {index} out of range for {length} columns"
  | .full => s!"schema is full ({maxColumns} columns)"

/-- Why stored bytes are no schema, or not the schema asked for. -/
inductive Corruption
  | nameNotText (column : Nat)
  | badType (column : Nat) (reason : TypeError)
  | badColumn (column : Nat) (reason : EditError)
  | notMetadata (columns : Nat) (fingerprint : Fingerprint)
  deriving DecidableEq, Repr

def Corruption.message : Corruption → String
  | .nameNotText column => s!"column {column} name is not UTF-8"
  | .badType column reason => s!"column {column}: {reason.message}"
  | .badColumn column reason => s!"column {column}: {reason.message}"
  | .notMetadata columns fingerprint =>
    s!"expected metadata columns, found {columns} columns ({fingerprint.shortText})"

/-- Why a schema could not be read or written. -/
inductive Error
  | edit (reason : EditError)
  | unsupportedVersion (version : Nat)
  | corrupt (reason : Corruption)
  | stream (reason : StreamError)
  deriving DecidableEq, Repr

def Error.message : Error → String
  | .edit reason => reason.message
  | .unsupportedVersion version => s!"unsupported schema format version: {version}"
  | .corrupt reason => s!"corrupt schema: {reason.message}"
  | .stream reason => s!"I/O error: {reason.message}"

end RecordStore.Schema
