import RecordStore.Schema.Error
import RecordStore.Table.Config
import RecordStore.Text

/-!
What can be wrong with a table from outside: its configuration, the bytes it is read from, the
stream they are on, a name under which an entry is to be stored.
-/

namespace RecordStore.Table

/-- Why the bytes of a chunk are not the records they should be. -/
inductive ChunkCorruption
  | empty (records bytes : Nat)
  | cutHeader (offset : Nat)
  | badSize (record size available : Nat)
  | fieldsOverrun (record size : Nat)
  | miscounted (stated found : Nat)
  deriving DecidableEq, Repr

def ChunkCorruption.message : ChunkCorruption → String
  | .empty records bytes => s!"empty chunk ({records} records, {bytes} bytes)"
  | .cutHeader offset => s!"truncated record header at byte {offset}"
  | .badSize record size available =>
    s!"record {record} claims {size} bytes, {available} available"
  | .fieldsOverrun record size => s!"record {record} fields overrun its size {size}"
  | .miscounted stated found => s!"header says {stated} records, found {found}"

inductive Error
  | schema (reason : Schema.Error)
  | unsupportedVersion (version : Nat)
  | corrupt (chunk : Nat) (reason : ChunkCorruption)
  | config (reason : Config.Invalid)
  | invalidKey (name : String)
  | stream (reason : StreamError)
  deriving DecidableEq, Repr

namespace Error

def message : Error → String
  | .schema reason => s!"schema error: {reason.message}"
  | .unsupportedVersion version => s!"unsupported table format version: {version}"
  | .corrupt chunk reason => s!"corrupt chunk {chunk}: {reason.message}"
  | .config reason => s!"invalid table config: {reason.message}"
  | .invalidKey name => s!"invalid metadata key: {Text.quoted name}"
  | .stream reason => s!"I/O error: {reason.message}"

/-- The stream failed, rather than the bytes on it being malformed. -/
def isStream : Error → Bool
  | .stream _ | .schema (.stream _) => true
  | _ => false

end Error

end RecordStore.Table
