import Mathlib
import RecordStore.Proofs.Memory.Replacing
import RecordStore.Proofs.Session.Segments

/-!
# One segment in memory

Every segment of a table in order can get every size, wherever the chunks lie in memory, and nothing
but the segment changes. The segments that requests resize are such segments.
-/

namespace RecordStore

open Table (Cursor Resizing)

/-- A resizing that succeeds on what is seen of a table in memory succeeds in memory. -/
lemma Memory.exists_resizeSegment {m : Memory} {cursor cursor' : Cursor} {old new : Nat}
    {t' : Table} (h : m.table.resizeSegment cursor old new = .ok (t', cursor')) :
    ∃ m', m.resizeSegment cursor old new = .ok (m', cursor') ∧ m'.table = t' := by
  obtain ⟨⟨m', moved⟩, hrun, hseen⟩ := exists_of_map_ok ((m.map_resizeSegment ..).trans h)
  obtain ⟨rfl, rfl⟩ := Prod.mk.inj hseen
  exact ⟨m', hrun, rfl⟩

/-- Every resizing that a request calls for is carried out and changes nothing but its segment. -/
theorem Session.Reachable.reshapes {s : Session} (hs : s.Reachable) {request : Request}
    (hadmits : s.Admits request) {z : Resizing} (hz : s.Resizes request z) :
    ∃ segment t' cursor', segment.length = z.old ∧ z.run = .ok (t', cursor') ∧
      z.table.Reshaped z.cursor segment z.new t' cursor' := by
  obtain ⟨types, blocks, h⟩ := hs.sound
  obtain ⟨segment, hold, hat⟩ := h.atSegment_of_resizes hadmits hz
  obtain ⟨t', cursor', -, hrun, hreshaped, -⟩ := hat.reshapes z.new
  rw [hold] at hrun
  exact ⟨segment, t', cursor', hold, hrun, hreshaped⟩

namespace Table

/-- Every segment of a table in order can get every size. The live bytes change in this segment
only, which keeps what fits of its bytes and is zero behind them; the cursor ends up at it, between
the same records, and no other chunk is left without a record. A chunk is added if and only if one
is split, which never happens to a segment that gets no larger. In memory the same is done, wherever
the chunks lie. -/
theorem resizes_one_segment {t : Table} {cursor : Cursor} {segment : Bytes}
    (h : t.AtSegment cursor segment) (new : Nat) :
    ∃ t' cursor' split, t.resizeSegment cursor segment.length new = .ok (t', cursor') ∧
      t.Reshaped cursor segment new t' cursor' ∧
      t.splitsSegment cursor segment.length new = .ok split ∧
      t'.chunks.length = t.chunks.length + (if split then 1 else 0) ∧
      (new ≤ segment.length → split = false) ∧
      (∃ m : Memory, m.table = t) ∧
      ∀ m : Memory, m.table = t → ∃ m',
        m.resizeSegment cursor segment.length new = .ok (m', cursor') ∧ m'.table = t' := by
  obtain ⟨t', cursor', split, hrun, hreshaped, hsplit, hlength, hshrinks⟩ := h.reshapes new
  refine ⟨t', cursor', split, hrun, hreshaped, hsplit, hlength, hshrinks,
    ⟨_, Memory.table_ofTable (h.isSound new).within⟩, fun m hm => ?_⟩
  subst hm
  exact Memory.exists_resizeSegment hrun

/-- Two texts in a chunk that they fill. -/
def fullOfTexts : Table :=
  { build .empty ⟨64, 8, false⟩ with
    chunks := [.ofRecords [6, 0, 0, 0, 1, 97, 7, 0, 0, 0, 2, 98, 98] 2]
    numRecords := 2 }

lemma atSegment_fullOfTexts : fullOfTexts.AtSegment ⟨1, 0, 1, 6, 0⟩ [7, 0, 0, 0, 2, 98, 98] := by
  have hrecords : (Chunk.ofRecords [6, 0, 0, 0, 1, 97, 7, 0, 0, 0, 2, 98, 98] 2).records =
      .ok [[6, 0, 0, 0, 1, 97], [7, 0, 0, 0, 2, 98, 98]] := by
    rw [Chunk.records, Record.split_of_first? (show _ = some ([6, 0, 0, 0, 1, 97], _) from rfl),
      Record.split_of_first? rfl, Record.split]
    rfl
  refine ⟨.inl ?_, _, [[6, 0, 0, 0, 1, 97]], [], rfl, .inl hrecords, rfl, rfl⟩
  intro k hk
  obtain rfl := List.mem_singleton.mp hk
  exact ⟨by decide, by decide, _, hrecords, rfl⟩

/-- The second text gets five bytes more and a chunk of its own, and the first one stays where it
is. -/
theorem full_chunk_splits_behind :
    ∃ t', fullOfTexts.resizeSegment ⟨1, 0, 1, 6, 0⟩ 7 12 = .ok (t', ⟨1, 1, 0, 0, 0⟩) ∧
      t'.chunks = [⟨13, 0, [6, 0, 0, 0, 1, 97], 1⟩,
        ⟨64, 0, [7, 0, 0, 0, 2, 98, 98, 0, 0, 0, 0, 0], 1⟩] ∧
      fullOfTexts.Reshaped ⟨1, 0, 1, 6, 0⟩ [7, 0, 0, 0, 2, 98, 98] 12 t' ⟨1, 1, 0, 0, 0⟩ ∧
      fullOfTexts.splitsSegment ⟨1, 0, 1, 6, 0⟩ 7 12 = .ok true ∧
      ∃ m m' : Memory, m.table = fullOfTexts ∧
        m.resizeSegment ⟨1, 0, 1, 6, 0⟩ 7 12 = .ok (m', ⟨1, 1, 0, 0, 0⟩) ∧ m'.table = t' := by
  obtain ⟨t', cursor', split, hrun, hreshaped, -, -, -, ⟨m, hm⟩, hmemory⟩ :=
    resizes_one_segment atSegment_fullOfTexts 12
  have hresult : fullOfTexts.resizeSegment ⟨1, 0, 1, 6, 0⟩ 7 12 =
      .ok ({ fullOfTexts with
        chunks := [⟨13, 0, [6, 0, 0, 0, 1, 97], 1⟩,
          ⟨64, 0, [7, 0, 0, 0, 2, 98, 98, 0, 0, 0, 0, 0], 1⟩] }, ⟨1, 1, 0, 0, 0⟩) := rfl
  obtain ⟨rfl, rfl⟩ := Prod.mk.inj (Except.ok.inj (hrun.symm.trans hresult))
  obtain ⟨m', hrun', hm'⟩ := hmemory m hm
  exact ⟨_, hrun, rfl, hreshaped, rfl, m, m', hm, hrun', hm'⟩

end Table

end RecordStore
