import Mathlib
import RecordStore.Proofs.Metadata.Entries

/-!
# Metadata as an ordered map

What is done to metadata is done to its entries. A name that is set again keeps its place, a new
one comes last, and an entry that is taken out leaves the others in order, wherever the records of
the table are moved to. Writing packs the table, and reading finds the same entries again.
-/

namespace RecordStore.Metadata

open Table (Block Cursor Edited)
open Table.Block (contents)
open Record (Stored)

variable {m m' : Metadata} {blocks : List (Block types)} {name : String} {value : Value}
  {entries : List (String × Value)}

/-! ### Changing the entries -/

namespace Holds

/-- A change of the table that leaves legible rows of entries. -/
lemma exists_of_turnsInto {entries' : List (String × Value)} {named : Prop}
    (h : m.Holds blocks entries) (hturns : m.TurnsInto (entries'.map keyed) named m')
    (hgood : named) (hnamed : ∀ name ∈ names entries', isName name = true)
    (hdistinct : (names entries').Nodup) : ∃ blocks', m'.Holds blocks' entries' := by
  obtain ⟨blocks', hrows, hlegible⟩ := h.hasRows.exists_of_turnsInto hturns
  obtain ⟨c, last, records, hedited, -⟩ := hturns
  refine ⟨blocks', hrows.schema_eq, hrows.unchecked, hrows.sound, hlegible hgood, ?_, hnamed,
    hdistinct, ?_⟩
  · rw [hrows.values_eq, List.map_map]
    rfl
  · intro hcompact
    rw [hedited.compact_eq] at hcompact
    cases hcompact

/-- Setting a value of a named type puts it under the name, unless it asks for a record that is too
large. -/
theorem set_yields (h : m.Holds blocks entries) (hname : isName name = true)
    (hvalue : value.Proper) (hnamed : value.type.Named) :
    Yields (m.Asks name value) False
      (fun result => ∃ m' blocks', result = .ok m' ∧
        m'.Holds blocks' (put name value.stored entries))
      (m.set name value) := by
  refine (h.hasRows.set_yields h.legible hname hvalue).mono ?_
  rintro result ⟨m', rfl, hturns⟩
  rw [kept_eq_stored_iff.mpr hnamed, ← map_keyed_put] at hturns
  obtain ⟨blocks', hholds⟩ := h.exists_of_turnsInto hturns hnamed
    (fun other hother => (mem_names_put hother).elim (fun heq => heq ▸ hname) (h.named other))
    (nodup_names_put h.distinct name _)
  exact ⟨m', blocks', rfl, hholds⟩

/-- The entry with the name is taken out, and nothing is changed if there is none. -/
theorem remove_eq (h : m.Holds blocks entries) (name : String) :
    ∃ m' blocks', m.remove name = .ok (decide (name ∈ names entries), m') ∧
      m'.Holds blocks' (takeOut name entries) := by
  obtain ⟨m', hrun, hchanged⟩ := h.hasRows.remove_eq h.legible name
  rw [decide_eq_decide.mpr encode_mem_keys_iff] at hrun
  have hsub := names_takeOut_sublist name entries
  rcases hchanged with hturns | ⟨hsame, habsent⟩
  · rw [← map_keyed_takeOut] at hturns
    obtain ⟨blocks', hholds⟩ := h.exists_of_turnsInto hturns trivial
      (fun other hother => h.named other (hsub.subset hother)) (h.distinct.sublist hsub)
    exact ⟨m', blocks', hrun, hholds⟩
  · rw [takeOut_of_notMem (mt encode_mem_keys_iff.mpr habsent)]
    exact ⟨m', blocks, hrun, hsame ▸ h⟩

/-! ### Writing and reading back -/

/-- Writing packs the table and leaves the entries as they are. -/
theorem write_eq (h : m.Holds blocks entries) :
    ∃ packed blocks', (∀ sink, m.write sink = .ok (packed, packed.table.writeAsIs sink)) ∧
      packed.Holds blocks' entries ∧ ∀ c ∈ packed.table.chunks, c.live.length < 2 ^ 32 := by
  obtain ⟨t, blocks', hrun, hschema, hconfig, hsound, hpacked⟩ :=
    h.sound.optimize_sound fun _ => h.legible
  have hlegible : ∀ r ∈ contents blocks', r.Legible := by
    rcases hpacked with ⟨-, -, rfl⟩ | ⟨-, hpacked⟩
    · exact h.legible
    · rw [hpacked.contents_eq]
      exact List.forall_mem_map.mpr h.legible
  have hvalues : (contents blocks').map Stored.values = entries.map row := by
    rw [← h.values_eq]
    rcases hpacked with ⟨-, -, rfl⟩ | ⟨-, hpacked⟩
    · rfl
    · rw [hpacked.contents_eq, List.map_map]
      rfl
  have hlive : ∀ c ∈ t.chunks, c.live.length < 2 ^ 32 := by
    rcases hpacked with ⟨hcompact, rfl, -⟩ | ⟨-, hpacked⟩
    · exact h.live_lt hcompact
    · have hchunks : t.chunks = blocks'.map Block.chunk := hsound.holds.chunks_eq
      rw [hchunks]
      exact hpacked.live_lt (Table.validate_eq_ok.mp h.sound.config_valid).2
  refine ⟨⟨t⟩, blocks', fun sink => ?_, ?_, hlive⟩
  · rw [write, Table.write_eq hrun]
    rfl
  · have hunchecked := (congrArg Table.Config.checkInvariants hconfig).trans h.unchecked
    exact ⟨hschema.trans h.schema_eq, hunchecked, hsound, hlegible, hvalues, h.named, h.distinct,
      fun _ => hlive⟩

/-- A table of entries that can be counted is read back from its bytes. -/
theorem read_bytes (h : m.Holds blocks entries)
    (hlive : ∀ c ∈ m.table.chunks, c.live.length < 2 ^ 32) (hsmall : m.size < 2 ^ 32) (x : Bytes) :
    ∃ back blocks', Metadata.read (m.table.bytes ++ x) = .ok (back, x) ∧
      back.Holds blocks' entries := by
  have hcount : m.table.chunks.length < 2 ^ 32 := by
    rw [h.sound.holds.length_chunks]
    refine (Table.length_le_length_contents blocks).trans_lt ?_
    rwa [← h.sound.holds.count_eq]
  have hnamed : m.table.schema.Named := h.schema_eq ▸ (by decide : schema.Named)
  obtain ⟨copy, hread, hcopy, -⟩ := h.sound.holds.read_bytes h.sound.schema_valid hnamed h.legible
    (h.sound.holds.fits hcount hlive) (rfl : Table.Config.default.validate = .ok ()) x
  have hschema : copy.schema = schema := hcopy.schema_eq.trans h.schema_eq
  obtain ⟨types', blocks', hsound, legible, hconfig⟩ :
      ∃ (types' : List ValueType) (blocks' : List (Block types')),
        Session.Sound ⟨copy, []⟩ blocks' ∧ (∀ r ∈ contents blocks', r.Legible) ∧
          copy.config = .default := by
    obtain ⟨⟨blocks', hasRead⟩, -⟩ := Table.readWithConfig_eq_ok.mp hread
    exact ⟨_, blocks', Session.sound_read hasRead, Table.legible_of_tight hasRead.tight,
      hasRead.config_eq⟩
  obtain rfl : types' = types := by
    rw [← hsound.holds.types_eq, hschema]
    rfl
  have hvalues : (contents blocks').map Stored.values = entries.map row := by
    obtain ⟨rows, hrows, hrows'⟩ := hcopy.values_eq
    rw [h.sound.holds.values_eq h.legible] at hrows
    have hcopied := (hsound.holds.values_eq legible).symm.trans hrows'
    rw [← h.values_eq, Except.ok.inj hrows, Except.ok.inj hcopied]
  have hlive' : ∀ c ∈ copy.chunks, c.live.length < 2 ^ 32 := by
    rw [hcopy.chunks_eq]
    intro c hc
    obtain ⟨c', hc', rfl⟩ := List.mem_map.mp hc
    exact hlive c' hc'
  have hunchecked : copy.config.checkInvariants = false := by
    rw [hconfig]
    rfl
  refine ⟨⟨copy⟩, blocks', ?_, ⟨hschema, hunchecked, hsound, legible, hvalues, h.named, h.distinct,
    fun _ => hlive'⟩⟩
  have hsame : copy.schema.same schema = true := by
    rw [hschema]
    exact decide_eq_true rfl
  refine Decoder.bind_eq_ok.mpr ⟨copy, x, hread, ?_⟩
  rw [hsame]
  rfl

end Holds

/-! ### In place -/

/-- A program that changes metadata. What it has changed when it fails stays changed. -/
abbrev Keeper := ExceptT Table.Error (StateT Metadata (Except Fault))

namespace Keeper

/-- Look something up. -/
def ask {α : Type} (query : Metadata → Except Fault α) : Keeper α :=
  fun m => (fun a => (.ok a, m)) <$> query m

/-- Change the table. -/
def alter (change : Table → Except Fault (Table × Cursor)) : Keeper Unit :=
  fun m => (fun result => (.ok (), ⟨result.1⟩)) <$> change m.table

def set (name : String) (value : Value) : Keeper Unit :=
  if !isName name then throw (.invalidKey name)
  else do
    match ← ask (·.find? name) with
    | some c => alter (·.setField c valueColumn value)
    | none => alter (·.push [.ofBytes (Utf8.encode name), value])

end Keeper

/-- How setting ends: with other metadata, or with those that there were. -/
def settle (m : Metadata) : Except Table.Error Metadata → Except Table.Error Unit × Metadata
  | .ok m' => (.ok (), m')
  | .error reason => (.error reason, m)

/-- Metadata and entries that start empty and take the same changes, with values of named types.
What is written is read back while the entries can be counted in four bytes. -/
inductive Tracks : Metadata → List (String × Value) → Prop
  | empty : Tracks .empty []
  | set {m m' : Metadata} {entries : List (String × Value)} {name : String} {value : Value}
      (h : Tracks m entries) (hvalue : value.Proper) (hnamed : value.type.Named)
      (hrun : m.set name value = .ok (.ok m')) : Tracks m' (put name value.stored entries)
  | remove {m m' : Metadata} {entries : List (String × Value)} {name : String} {found : Bool}
      (h : Tracks m entries) (hrun : m.remove name = .ok (found, m')) :
      Tracks m' (takeOut name entries)
  | write {m m' : Metadata} {entries : List (String × Value)} {sink sink' : Sink}
      {outcome : Except Table.Error Unit} (h : Tracks m entries)
      (hrun : m.write sink = .ok (m', outcome, sink')) : Tracks m' entries
  | reread {m m' back : Metadata} {entries : List (String × Value)} {sink sink' : Sink}
      {w x rest : Bytes} (h : Tracks m entries) (hsmall : m.size < 2 ^ 32)
      (hwrite : m.write sink = .ok (m', .ok (), sink'))
      (hwritten : sink'.written = sink.written ++ w) (hread : read (w ++ x) = .ok (back, rest)) :
      Tracks back entries

/-- After every run the table has the rows of the entries. -/
theorem Tracks.holds (h : Tracks m entries) : ∃ blocks, m.Holds blocks entries := by
  induction h with
  | empty => exact ⟨[], holds_empty⟩
  | @set m m' entries name value _ hvalue hnamed hrun ih =>
    obtain ⟨blocks, hholds⟩ := ih
    have hname : isName name = true := by
      by_contra hname
      rw [set_of_isName_eq_false (Bool.eq_false_iff.mpr hname)] at hrun
      cases hrun
    obtain ⟨m'', blocks', hsame, hholds'⟩ :=
      (hholds.set_yields hname hvalue hnamed).post_of_ok hrun
    cases hsame
    exact ⟨blocks', hholds'⟩
  | @remove m m' entries name found _ hrun ih =>
    obtain ⟨blocks, hholds⟩ := ih
    obtain ⟨m'', blocks', hrun', hholds'⟩ := hholds.remove_eq name
    cases hrun.symm.trans hrun'
    exact ⟨blocks', hholds'⟩
  | @write m m' entries sink sink' outcome _ hrun ih =>
    obtain ⟨blocks, hholds⟩ := ih
    obtain ⟨packed, blocks', hrun', hholds', -⟩ := hholds.write_eq
    obtain ⟨rfl, -⟩ := Prod.mk.inj (Except.ok.inj (hrun.symm.trans (hrun' sink)))
    exact ⟨blocks', hholds'⟩
  | @reread m m' back entries sink sink' w x rest _ hsmall hwrite hwritten hread ih =>
    obtain ⟨blocks, hholds⟩ := ih
    obtain ⟨packed, blocks', hrun, hholds', hlive⟩ := hholds.write_eq
    obtain ⟨rfl, houtcome⟩ := Prod.mk.inj (Except.ok.inj (hwrite.symm.trans (hrun sink)))
    -- what the sink has taken is the bytes of the packed table
    have hput := (Table.emits_writeAsIs hholds'.sound.schema_valid).written_of_ok houtcome.symm
    obtain rfl := List.append_cancel_left (hwritten.symm.trans hput)
    rw [hholds.size_eq, ← hholds'.size_eq] at hsmall
    obtain ⟨back', blocks'', hread', hback⟩ := hholds'.read_bytes hlive hsmall x
    obtain ⟨rfl, -⟩ := Prod.mk.inj (Except.ok.inj (hread.symm.trans hread'))
    exact ⟨blocks'', hback⟩

end RecordStore.Metadata
