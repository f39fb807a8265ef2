/-!
Table configurations: how large chunks are, how much room strings reserve, and whether every
change is followed by a check of the whole table. A configuration is read from named settings and
written as JSON.
-/

namespace RecordStore.Table

structure Config where
  /-- The size of a new chunk, unless a record needs more. -/
  chunkSize : Nat
  /-- The least room that a new string reserves. -/
  minStringReserve : Nat
  /-- Check the table after every change. -/
  checkInvariants : Bool
  deriving DecidableEq, Repr

namespace Config

def default : Config := ⟨8192, 8, false⟩

instance : Inhabited Config := ⟨default⟩

/-! ### Validation -/

def minChunkSize : Nat := 64

/-- Why a configuration is refused. -/
inductive Invalid
  | chunkTooSmall (size : Nat)
  | chunkTooLarge (size : Nat)
  deriving DecidableEq, Repr

def Invalid.message : Invalid → String
  | .chunkTooSmall size => s!"chunk_size {size} is below the minimum of {minChunkSize}"
  | .chunkTooLarge size => s!"chunk_size {size} does not fit a u32 length"

/-- A chunk has a least size, and its length must fit into four bytes. -/
def validate (c : Config) : Except Invalid Unit :=
  if c.chunkSize < minChunkSize then .error (.chunkTooSmall c.chunkSize)
  else if UInt32.size ≤ c.chunkSize then .error (.chunkTooLarge c.chunkSize)
  else .ok ()

/-! ### Settings -/

/-- The value of a setting. Numbers that are not natural, and all values that are neither number
nor flag, are of no use here. -/
inductive Setting
  | natural (n : Nat)
  | flag (on : Bool)
  | other
  deriving DecidableEq, Repr

/-- A natural number of 64 bits. -/
def Setting.size? : Setting → Option Nat
  | .natural n => if n < UInt64.size then some n else none
  | _ => none

def Setting.flag? : Setting → Option Bool
  | .flag on => some on
  | _ => none

/-- Settings that are missing keep their defaults, unknown ones are ignored, and one of the wrong
shape refuses them all. -/
def ofSettings? (settings : List (String × Setting)) : Option Config := do
  let size (name : String) (fallback : Nat) : Option Nat :=
    match settings.lookup name with
    | none => some fallback
    | some setting => setting.size?
  let chunkSize ← size "chunk_size" default.chunkSize
  let minStringReserve ← size "min_string_reserve" default.minStringReserve
  let checkInvariants ←
    match settings.lookup "check_invariants" with
    | none => some default.checkInvariants
    | some setting => setting.flag?
  some { chunkSize, minStringReserve, checkInvariants }

/-- The settings as a JSON object. -/
def json (c : Config) : String :=
  "\x7b\"chunk_size\":" ++ toString c.chunkSize ++
    ",\"min_string_reserve\":" ++ toString c.minStringReserve ++
    ",\"check_invariants\":" ++ toString c.checkInvariants ++ "\x7d"

end Config

end RecordStore.Table
