import Mathlib
import RecordStore.Proofs.Session.BoundedSink
import RecordStore.Proofs.Session.Sheet
import RecordStore.Proofs.Table.Compaction

/-!
# Compacting a table in use

Whatever the run has left, a table that is not compact is packed into the fewest chunks that its
rows can be cut into, if its records are legible. Nothing that can be read of it changes, and
packing it again does nothing.
-/

namespace RecordStore

open Table.Block (contents)
open Record (Stored)

variable {types : List ValueType}

/-- A record without its slack has the same cells. -/
lemma Record.sheetOf_map_trim (records : List (Stored types)) :
    Record.sheetOf (records.map Stored.trim) = Record.sheetOf records := by
  rw [Record.sheetOf, List.map_map]
  rfl

/-- Packing a table of legible records that is not compact makes it compact. -/
lemma Table.Holds.exists_compacts {t : Table} {blocks : List (Table.Block types)}
    (h : t.Holds blocks) (legible : ∀ r ∈ contents blocks, r.Legible)
    (hcompact : t.compact = false) :
    ∃ packed, t.optimize = .ok packed ∧ t.Compacts packed := by
  obtain ⟨blocks', hpack, hholds, hpacked⟩ := h.exists_pack legible
  have hrun := h.optimize_eq_pack legible hcompact
  rw [hpack] at hrun
  have hdense : ∀ r ∈ contents blocks', r.Legible ∧ r.slack = [] := by
    rw [hpacked.contents_eq]
    exact List.forall_mem_map.mpr fun r hr => ⟨legible r hr, rfl⟩
  refine ⟨_, hrun, rfl, rfl, ?_, h.storedRows_optimize hrun, ?_, ?_, rfl, ?_,
    optimize_of_compact rfl⟩
  · intro index column
    refine ⟨_, h.cell_cursorAt legible index column, ?_⟩
    rw [hholds.cell_cursorAt fun r hr => (hdense r hr).1, hpacked.contents_eq,
      Record.sheetOf_map_trim]
  · intro c hc
    obtain ⟨b, hb, rfl⟩ := List.mem_map.mp hc
    exact (hpacked.snug b hb).head_eq
  · intro c hc
    obtain ⟨b, hb, rfl⟩ := List.mem_map.mp hc
    rw [h.types_eq]
    have hmem : ∀ r ∈ b.records, r ∈ contents blocks' := fun r hr => List.mem_flatMap_of_mem hb hr
    exact Block.isDense_chunk (fun r hr => (hdense r (hmem r hr)).1)
      fun r hr => (hdense r (hmem r hr)).2
  · refine ⟨_, h.storedRows_eq legible, ?_⟩
    change IsLeast _ (blocks'.map Block.chunk).length
    rw [List.length_map]
    exact hpacked.isLeast hpack

namespace Session

/-- Packing a table that is not compact leaves a compact form of it, unless a field is not legible:
then it fails at such a field. If the columns have told the types of all values, this does not
happen. -/
theorem Reachable.compaction {s : Session} (hs : s.Reachable) (hloose : s.table.compact = false) :
    (s.Told → ∃ packed, s.table.optimize = .ok packed ∧ s.table.Compacts packed) ∧
      ((∃ packed, s.table.optimize = .ok packed ∧ s.table.Compacts packed) ∨
        s.Illegible .optimize) := by
  obtain ⟨types, blocks, h⟩ := hs.sound
  refine ⟨fun htold => ?_, ?_⟩
  · exact h.holds.exists_compacts (h.check_iff.mp htold.check_eq) hloose
  · by_cases legible : ∀ r ∈ contents blocks, r.Legible
    · exact .inl (h.holds.exists_compacts legible hloose)
    · refine .inr ⟨fun hboth => legible (h.check_iff.mp hboth.1), ?_⟩
      exact (h.holds.garbled_optimize hloose legible).map _

/-! ### Texts of two lengths -/

def shortText : Bytes := List.replicate 20 97

def longText : Bytes := List.replicate 60 98

def shortRecord : Bytes := [37, 0, 0, 0, 20] ++ shortText ++ List.replicate 12 0

def longRecord : Bytes := [69, 0, 0, 0, 60] ++ longText ++ [0, 0, 0, 0]

/-- Two short texts and one that is longer than a chunk, each in a chunk of its own. -/
def mixedTexts : Session :=
  ⟨⟨textColumn, [⟨64, 0, shortRecord, 1⟩, ⟨64, 0, shortRecord, 1⟩, ⟨69, 0, longRecord, 1⟩], 3,
    ⟨64, 0, false⟩, 3, false⟩, [⟨2, 2, 0, 0, 3⟩, ⟨1, 1, 0, 0, 2⟩, ⟨0, 0, 0, 0, 1⟩]⟩

lemma told_mixedTexts : mixedTexts.Told := by
  have hshort : ∀ v ∈ [Value.string .bits8 shortText], v.Proper := by decide
  have hlong : ∀ v ∈ [Value.string .bits8 longText], v.Proper := by decide
  have htells : ValueType.TellsAll textColumn.types [.string .bits8] := by decide
  have hempty : Told ⟨⟨textColumn, [], 0, ⟨64, 0, false⟩, 0, true⟩, []⟩ :=
    .withConfig reachable_textColumn (withConfig_eq_ok.mpr ⟨rfl, rfl⟩)
  have hone := @Told.step _ _ (.push [.string .bits8 shortText]) hempty hshort htells rfl
  have htwo := @Told.step _ _ (.push [.string .bits8 shortText]) hone hshort htells rfl
  exact @Told.step _ _ (.push [.string .bits8 longText]) htwo hlong htells rfl

/-- The two texts in front go into one chunk, the long one keeps its own, and two are the fewest. -/
theorem compaction_of_mixedTexts :
    mixedTexts.table.compact = false ∧ mixedTexts.table.chunks.length = 3 ∧
      ∃ packed, mixedTexts.table.optimize = .ok packed ∧ mixedTexts.table.Compacts packed ∧
        packed.chunks.map Table.Chunk.numRecords = [2, 1] := by
  obtain ⟨packed, hrun, hcompacts⟩ :=
    (told_mixedTexts.reachable.compaction rfl).1 told_mixedTexts
  have hcounts : mixedTexts.table.optimize.toOption.map
      (fun t => t.chunks.map Table.Chunk.numRecords) = some [2, 1] := by
    decide +kernel
  rw [hrun] at hcounts
  exact ⟨rfl, rfl, packed, hrun, hcompacts, Option.some.inj hcounts⟩

/-- The table of the integer five under a type with a flag that has no name is not packed. -/
theorem compaction_of_unnamed_type :
    unnamedFive.Reachable ∧ unnamedFive.table.compact = false ∧
      unnamedFive.table.optimize = .error (.corruptField (.dynamic .bits8)) :=
  ⟨reachable_unnamedFive, rfl, by decide +kernel⟩

end Session

end RecordStore
