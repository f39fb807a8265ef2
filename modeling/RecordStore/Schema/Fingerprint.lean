import RecordStore.Text
import RecordStore.Bytes.Utf8
import RecordStore.Digest.Blake3
import RecordStore.ValueType

/-!
Fingerprints of column lists: the BLAKE3 digest of a domain name, the number of columns, and for
each column its tag, the length of its name and the name. Every part but the names has a fixed
size and each name follows its length, so the bytes determine the list.
-/

namespace RecordStore

/-- The digest of a column list. -/
structure Fingerprint where
  digest : Bytes
  deriving DecidableEq, Repr

namespace Fingerprint

/-- Sets these digests apart from digests of anything else. -/
def domain : String := "hive-schema-v1"

/-- What is hashed for one column. -/
def columnBytes (column : String × ValueType) : Bytes :=
  LittleEndian.encode 4 column.2.tag ++
    LittleEndian.encode 4 column.1.utf8ByteSize ++ Utf8.encode column.1

/-- What is hashed for a column list under a count, of which four bytes are kept. -/
def preimage (count : Nat) (columns : List (String × ValueType)) : Bytes :=
  Utf8.encode domain ++ Utf8.encode ":" ++ LittleEndian.encode 4 count ++
    columns.flatMap columnBytes

def ofColumns (count : Nat) (columns : List (String × ValueType)) : Fingerprint :=
  ⟨Blake3.hash (preimage count columns)⟩

/-! ### Text -/

def text (f : Fingerprint) : String := Hex.encode f.digest

/-- The first eight digits. -/
def shortText (f : Fingerprint) : String := Hex.encode (f.digest.take 4)

def debugText (f : Fingerprint) : String := s!"SchemaHash({f.shortText})"

end Fingerprint

end RecordStore
