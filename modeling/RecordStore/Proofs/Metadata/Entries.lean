import Mathlib
import RecordStore.Proofs.Metadata.Rows

/-!
# Entries of metadata

Entries are names with their values, in order, and no name twice. Metadata holds a list of entries
if its table has one row for each of them: the bytes of the name, and the value. What is looked up
in the table is then what is looked up in the list.
-/

namespace RecordStore.Metadata

open Table (Block)
open Table.Block (contents)
open Record (Stored)

/-! ### Lists of entries -/

def names (entries : List (String × Value)) : List String := entries.map Prod.fst

/-- Put a value under a name: in place of the value that is there, or behind all entries. -/
def put (name : String) (value : Value) : List (String × Value) → List (String × Value)
  | [] => [(name, value)]
  | entry :: entries =>
    if entry.1 = name then (name, value) :: entries else entry :: put name value entries

/-- Take out the entry with the name. -/
def takeOut (name : String) (entries : List (String × Value)) : List (String × Value) :=
  entries.eraseP fun entry => entry.1 = name

variable {name : String} {value old : Value} {entries before after : List (String × Value)}

@[simp] lemma names_append (front back : List (String × Value)) :
    names (front ++ back) = names front ++ names back := List.map_append

@[simp] lemma names_cons (entry : String × Value) (entries : List (String × Value)) :
    names (entry :: entries) = entry.1 :: names entries := rfl

/-- The first entry with a name, and the entries around it. -/
lemma exists_split (h : name ∈ names entries) :
    ∃ before value after, entries = before ++ (name, value) :: after ∧ name ∉ names before :=
  exists_first h

lemma put_split (hbefore : name ∉ names before) (value : Value) :
    put name value (before ++ (name, old) :: after) = before ++ (name, value) :: after := by
  induction before with
  | nil => exact if_pos rfl
  | cons entry before ih =>
    rw [names_cons, List.mem_cons, not_or] at hbefore
    rw [List.cons_append, put, if_neg (Ne.symm hbefore.1), ih hbefore.2, List.cons_append]

lemma put_of_notMem (h : name ∉ names entries) (value : Value) :
    put name value entries = entries ++ [(name, value)] := by
  induction entries with
  | nil => rfl
  | cons entry entries ih =>
    rw [names_cons, List.mem_cons, not_or] at h
    rw [put, if_neg (Ne.symm h.1), ih h.2, List.cons_append]

lemma takeOut_of_notMem (h : name ∉ names entries) : takeOut name entries = entries :=
  List.eraseP_of_forall_not (not_key_of_notMem h)

/-- Putting a value keeps the names, or adds one that is new. -/
lemma names_put (name : String) (value : Value) (entries : List (String × Value)) :
    names (put name value entries) =
      if name ∈ names entries then names entries else names entries ++ [name] := by
  split_ifs with h
  · obtain ⟨before, old, after, rfl, hbefore⟩ := exists_split h
    rw [put_split hbefore, names_append, names_append]
    rfl
  · rw [put_of_notMem h, names_append]
    rfl

lemma nodup_names_put (h : (names entries).Nodup) (name : String) (value : Value) :
    (names (put name value entries)).Nodup := by
  rw [names_put]
  split_ifs with hname
  · exact h
  · exact List.nodup_append_comm.mp (List.nodup_cons.mpr ⟨hname, h⟩)

lemma mem_names_put {other : String} (h : other ∈ names (put name value entries)) :
    other = name ∨ other ∈ names entries := by
  rw [names_put] at h
  split_ifs at h
  · exact .inr h
  · exact (List.mem_append.mp h).symm.imp_left List.mem_singleton.mp

lemma names_takeOut_sublist (name : String) (entries : List (String × Value)) :
    (names (takeOut name entries)).Sublist (names entries) :=
  List.eraseP_sublist.map _

/-! ### Entries as rows -/

/-- The row of an entry: the bytes of its name, and its value. -/
def keyed (entry : String × Value) : Bytes × Value := (Utf8.encode entry.1, entry.2)

lemma keys_map_keyed (entries : List (String × Value)) :
    (entries.map keyed).map Prod.fst = (names entries).map Utf8.encode := by
  rw [names, List.map_map, List.map_map]
  rfl

lemma encode_mem_keys_iff :
    Utf8.encode name ∈ (entries.map keyed).map Prod.fst ↔ name ∈ names entries := by
  rw [keys_map_keyed, List.mem_map]
  exact ⟨fun ⟨_, hother, heq⟩ => Utf8.encode_inj.mp heq ▸ hother, fun h => ⟨name, h, rfl⟩⟩

/-- Putting a value under a name puts it in the first row with the name. -/
lemma map_keyed_put (name : String) (value : Value) (entries : List (String × Value)) :
    (put name value entries).map keyed =
      putFirst (Utf8.encode name) value (entries.map keyed) := by
  by_cases h : name ∈ names entries
  · obtain ⟨before, old, after, rfl, hbefore⟩ := exists_split h
    rw [put_split hbefore, List.map_append, List.map_append]
    exact (putFirst_split (mt encode_mem_keys_iff.mp hbefore) value).symm
  · rw [put_of_notMem h, putFirst_of_notMem (mt encode_mem_keys_iff.mp h), List.map_append]
    rfl

/-- Taking out the entry with a name takes out the first row with the name. -/
lemma map_keyed_takeOut (name : String) (entries : List (String × Value)) :
    (takeOut name entries).map keyed = takeFirst (Utf8.encode name) (entries.map keyed) := by
  have hsame : (fun r : Bytes × Value => decide (r.1 = Utf8.encode name)) ∘ keyed =
      fun entry => decide (entry.1 = name) :=
    funext fun _ => decide_eq_decide.mpr Utf8.encode_inj
  rw [takeFirst, List.eraseP_map, hsame, takeOut]

lemma lookup_map_keyed (name : String) (entries : List (String × Value)) :
    (entries.map keyed).lookup (Utf8.encode name) = entries.lookup name := by
  by_cases h : name ∈ names entries
  · obtain ⟨before, value, after, rfl, hbefore⟩ := exists_split h
    rw [lookup_split hbefore, List.map_append]
    exact lookup_split (mt encode_mem_keys_iff.mp hbefore)
  · rw [lookup_of_notMem h, lookup_of_notMem (mt encode_mem_keys_iff.mp h)]

/-! ### Entries in a table -/

/-- The cells of an entry. -/
def row (entry : String × Value) : List Value := [.string .bits8 (Utf8.encode entry.1), entry.2]

/-- The table has a legible record for each entry, in order. Names are ones that can be set, and no
name is there twice. The chunks of a compact table are small enough to be written as they are. -/
structure Holds (m : Metadata) (blocks : List (Block types)) (entries : List (String × Value)) :
    Prop where
  schema_eq : m.table.schema = schema
  unchecked : m.table.config.checkInvariants = false
  sound : Session.Sound ⟨m.table, []⟩ blocks
  legible : ∀ r ∈ contents blocks, r.Legible
  values_eq : (contents blocks).map Stored.values = entries.map row
  named : ∀ name ∈ names entries, isName name = true
  distinct : (names entries).Nodup
  live_lt : m.table.compact = true → ∀ c ∈ m.table.chunks, c.live.length < 2 ^ 32

lemma holds_empty : empty.Holds [] [] := by
  have hschema : Schema.Reachable schema := @Schema.Reachable.ofLayout layout _ rfl
  refine ⟨rfl, rfl, ?_, nofun, rfl, nofun, List.nodup_nil, fun _ => nofun⟩
  exact Session.sound_build hschema.valid rfl

variable {m : Metadata} {blocks : List (Block types)}

namespace Holds

lemma hasRows (h : m.Holds blocks entries) : m.HasRows blocks (entries.map keyed) := by
  refine ⟨h.schema_eq, h.unchecked, h.sound, ?_⟩
  rw [h.values_eq, List.map_map]
  rfl

lemma size_eq (h : m.Holds blocks entries) : m.size = entries.length := by
  rw [h.hasRows.size_eq, List.length_map]

lemma contains_eq (h : m.Holds blocks entries) (name : String) :
    m.contains name = .ok (decide (name ∈ names entries)) := by
  rw [h.hasRows.contains_eq, decide_eq_decide.mpr encode_mem_keys_iff]

lemma get?_eq (h : m.Holds blocks entries) (name : String) :
    m.get? name = .ok (entries.lookup name) := by
  rw [h.hasRows.get?_eq, lookup_map_keyed]

end Holds

end RecordStore.Metadata
