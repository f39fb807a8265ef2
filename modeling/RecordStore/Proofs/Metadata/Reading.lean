import Mathlib
import RecordStore.Proofs.Metadata.Rows
import RecordStore.Proofs.Schema.Fingerprint
import RecordStore.Proofs.Session.Canonical

/-!
# Reading metadata

Reading asks for a table with the layout of metadata, and nothing of the names in its rows. What is
read is therefore a list of rows in which a name can occur several times. A name is gone after a
removal, and there once after it is set, as long as it did not.
-/

namespace RecordStore.Metadata

open Table (Block)
open Table.Block (contents)
open Record (Stored)

variable {m : Metadata} {blocks : List (Block types)} {name : String} {value : Value}
  {rows : List (Bytes × Value)} {x rest : Bytes}

/-- Everything that can be looked up is what the rows say, the first one with a name for the
others. -/
structure Shows (m : Metadata) (rows : List (Bytes × Value)) : Prop where
  listing_eq : m.listing = .ok rows
  size_eq : m.size = rows.length
  contains_eq : ∀ name, m.contains name = .ok (decide (0 < occurrences name rows))
  get?_eq : ∀ name, m.get? name = .ok (rows.lookup (Utf8.encode name))

namespace HasRows

lemma shows (h : m.HasRows blocks rows) : m.Shows rows where
  listing_eq := h.listing_eq
  size_eq := h.size_eq
  contains_eq name := by
    rw [h.contains_eq, decide_eq_decide.mpr occurrences_pos_iff]
  get?_eq := h.get?_eq

/-- A removal tells whether the name is in a row, and takes out the first row with it. -/
lemma remove_shows (h : m.HasRows blocks rows) (legible : ∀ r ∈ contents blocks, r.Legible)
    (name : String) :
    ∃ m', m.remove name = .ok (decide (0 < occurrences name rows), m') ∧
      m'.Shows (takeFirst (Utf8.encode name) rows) := by
  obtain ⟨m', hrun, hchanged⟩ := h.remove_eq legible name
  rw [decide_eq_decide.mpr occurrences_pos_iff.symm] at hrun
  refine ⟨m', hrun, ?_⟩
  rcases hchanged with hturns | ⟨hsame, habsent⟩
  · obtain ⟨blocks', h', -⟩ := h.exists_of_turnsInto hturns
    exact h'.shows
  · rw [hsame, takeFirst_of_notMem habsent]
    exact h.shows

/-- A value is set in the first row with the name or in a new one, unless its record is too
large. -/
lemma set_shows (h : m.HasRows blocks rows) (legible : ∀ r ∈ contents blocks, r.Legible)
    (hname : isName name = true) (hvalue : value.Proper) :
    (∃ m', m.set name value = .ok (.ok m') ∧
      m'.Shows (putFirst (Utf8.encode name) (kept value) rows)) ∨
    ∃ size, m.Asks name value size ∧ 2 ^ 32 ≤ size ∧
      m.set name value = .error (.recordTooLarge size) := by
  rcases (h.set_yields legible hname hvalue).ok_or_tooLarge id with
    ⟨result, hrun, m', rfl, hturns⟩ | htooLarge
  · obtain ⟨blocks', h', -⟩ := h.exists_of_turnsInto hturns
    exact .inl ⟨m', hrun, h'.shows⟩
  · exact .inr htooLarge

end HasRows

/-- Only the schema of metadata compares equal to it, unless the hash function gives one digest to
the different bytes of two schemas. -/
lemma schema_eq_of_same {s : Schema} (hvalid : s.Valid) (hsame : s.same schema = true)
    (hseparates : Blake3.Separates s.preimage schema.preimage) : s = schema := by
  have hschema : schema.Valid := (@Schema.Reachable.ofLayout layout _ rfl).valid
  refine Session.schema_eq_of_layout hvalid hschema ?_
  rw [← Schema.preimage_eq_preimage_iff hvalid hschema]
  exact hseparates ((Schema.same_eq_true_iff hvalid hschema).mp hsame)

/-- What is read has rows, and all of them are legible. -/
lemma exists_hasRows_of_read (hread : read x = .ok (m, rest))
    (hseparates : Blake3.Separates m.table.schema.preimage schema.preimage) :
    ∃ (blocks : List (Block types)) (rows : List (Bytes × Value)),
      m.HasRows blocks rows ∧ ∀ r ∈ contents blocks, r.Legible := by
  obtain ⟨t, left, ht, hm⟩ := Decoder.bind_eq_ok.mp hread
  split_ifs at hm with hsame
  · obtain ⟨rfl, rfl⟩ := Prod.mk.inj (Except.ok.inj hm)
    obtain ⟨⟨blocks, hasRead⟩, -⟩ := Table.readWithConfig_eq_ok.mp ht
    have hschema := schema_eq_of_same hasRead.schema_valid hsame hseparates
    obtain ⟨types', blocks', hsound, legible⟩ :
        ∃ (types' : List ValueType) (blocks' : List (Block types')),
          Session.Sound ⟨t, []⟩ blocks' ∧ ∀ r ∈ contents blocks', r.Legible :=
      ⟨_, blocks, Session.sound_read hasRead, Table.legible_of_tight hasRead.tight⟩
    obtain rfl : types' = types := by
      rw [← hsound.holds.types_eq, hschema]
      rfl
    choose row hrow using exists_cells
    have hunchecked : t.config.checkInvariants = false := by
      rw [hasRead.config_eq]
      rfl
    refine ⟨blocks', (contents blocks').map row, ⟨hschema, hunchecked, hsound, ?_⟩, legible⟩
    rw [List.map_map]
    exact List.map_congr_left fun r _ => hrow r
  · cases hm

/-- Reading takes rows as they are, whatever their names. A name is looked up in the first row with
it, and there is one exactly if the name is in some row. A removal takes out the first row with the
name and leaves the others: the name is gone exactly if it was in one row at most. A value is set in
the first row with the name, or in a new row: the name is in one row afterwards exactly if it was in
one at most, and in as many as before otherwise. What is looked up then is the value as it is
stored, or null if its type has a flag without a name. Names that cannot be set are refused. -/
theorem rows_after_read (hread : read x = .ok (m, rest))
    (hseparates : Blake3.Separates m.table.schema.preimage schema.preimage) :
    ∃ rows, m.Shows rows ∧
      (∀ name, ∃ m', m.remove name = .ok (decide (0 < occurrences name rows), m') ∧
        m'.Shows (takeFirst (Utf8.encode name) rows) ∧
        m'.contains name = .ok (decide (1 < occurrences name rows)) ∧
        (m'.get? name = .ok none ↔ occurrences name rows ≤ 1)) ∧
      ∀ name value, value.Proper →
        if name = "" ∨ 255 < name.utf8ByteSize then
          m.set name value = .ok (.error (.invalidKey name))
        else
          (∃ m', m.set name value = .ok (.ok m') ∧
            m'.Shows (putFirst (Utf8.encode name) (kept value) rows) ∧
            m'.get? name = .ok (some (kept value)) ∧
            occurrences name (putFirst (Utf8.encode name) (kept value) rows) =
              max 1 (occurrences name rows)) ∨
          ∃ size, m.Asks name value size ∧ 2 ^ 32 ≤ size ∧
            m.set name value = .error (.recordTooLarge size) := by
  obtain ⟨blocks, rows, h, legible⟩ := exists_hasRows_of_read hread hseparates
  refine ⟨rows, h.shows, ?_, ?_⟩
  · intro name
    obtain ⟨m', hrun, hshows⟩ := h.remove_shows legible name
    have hleft := occurrences_takeFirst name name rows
    rw [if_pos rfl] at hleft
    refine ⟨m', hrun, hshows, ?_, ?_⟩
    · rw [hshows.contains_eq, hleft, decide_eq_decide.mpr Nat.sub_pos_iff_lt]
    · rw [hshows.get?_eq, Except.ok.injEq, lookup_eq_none_iff, ← occurrences_pos_iff, hleft]
      omega
  · intro name value hvalue
    split_ifs with hname
    · exact set_of_isName_eq_false (isName_eq_false.mpr hname) m value
    · have hname' := Bool.eq_true_of_not_eq_false (mt isName_eq_false.mp hname)
      refine (h.set_shows legible hname' hvalue).imp_left fun ⟨m', hrun, hshows⟩ => ?_
      refine ⟨m', hrun, hshows, ?_, ?_⟩
      · rw [hshows.get?_eq, lookup_putFirst]
      · rw [occurrences_putFirst, if_pos rfl]

/-- A table of metadata as it is stored, with two rows under one name and one under no name. -/
def twiceNamed : Bytes :=
  [0, 0, 0, 0, 0, 0, 0, 0, 2, 4, 110, 97, 109, 101, 5, 0, 0, 0, 5, 118, 97, 108, 117, 101, 1, 0, 0,
    0, 1, 0, 0, 0, 3, 0, 0, 0, 32, 0, 0, 0, 11, 0, 0, 0, 1, 97, 2, 0, 0, 0, 1, 11, 0, 0, 0, 1, 97,
    2, 0, 0, 0, 2, 10, 0, 0, 0, 0, 2, 0, 0, 0, 3]

/-- The metadata that are read from it. -/
def twice : Metadata :=
  ⟨{ Table.build schema .default with
      chunks := [⟨32, 0, twiceNamed.drop 40, 3⟩]
      numRecords := 3
      compact := true }⟩

lemma read_twiceNamed : read twiceNamed = .ok (twice, []) := by
  have htable : Table.read twiceNamed = .ok (twice.table, []) := by cbv
  have hsame : twice.table.schema.same schema = true := decide_eq_true rfl
  refine Decoder.bind_eq_ok.mpr ⟨twice.table, [], htable, ?_⟩
  rw [hsame]
  rfl

theorem rows_after_read_of_name_twice :
    read twiceNamed = .ok (twice, []) ∧
      Blake3.Separates twice.table.schema.preimage schema.preimage ∧
      ∃ rows m', twice.Shows rows ∧ occurrences "a" rows = 2 ∧ occurrences "" rows = 1 ∧
        twice.remove "a" = .ok (true, m') ∧ m'.Shows (takeFirst (Utf8.encode "a") rows) ∧
        m'.contains "a" = .ok true := by
  have hseparates : Blake3.Separates twice.table.schema.preimage schema.preimage := fun _ => rfl
  obtain ⟨rows, hshows, hremove, -⟩ := rows_after_read read_twiceNamed hseparates
  have hlisting : twice.listing = .ok [([97], .integer .bits8 false 1),
      ([97], .integer .bits8 false 2), ([], .integer .bits8 false 3)] := rfl
  obtain rfl := Except.ok.inj (hshows.listing_eq.symm.trans hlisting)
  obtain ⟨m', hrun, hshows', hcontains, -⟩ := hremove "a"
  exact ⟨read_twiceNamed, hseparates, _, m', hshows, rfl, rfl, hrun, hshows', hcontains⟩

/-- Metadata that are read need not be a map: the name is still there after it is removed, in two
rows after it is set, and the empty name is there, which cannot be set. -/
theorem no_map_after_read :
    ∃ m' m'', read twiceNamed = .ok (twice, []) ∧
      twice.remove "a" = .ok (true, m') ∧ m'.contains "a" = .ok true ∧
      m'.get? "a" = .ok (some (.integer .bits8 false 2)) ∧
      twice.set "a" (.integer .bits8 false 7) = .ok (.ok m'') ∧
      m''.listing = .ok [([97], .integer .bits8 false 7), ([97], .integer .bits8 false 2),
        ([], .integer .bits8 false 3)] ∧
      twice.contains "" = .ok true ∧
      twice.set "" (.integer .bits8 false 7) = .ok (.error (.invalidKey "")) := by
  have hread := read_twiceNamed
  exact ⟨_, _, hread, rfl, rfl, rfl, rfl, rfl, rfl, rfl⟩

end RecordStore.Metadata
