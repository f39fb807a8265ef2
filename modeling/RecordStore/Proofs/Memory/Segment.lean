import Mathlib
import RecordStore.Proofs.Table.Layout
import RecordStore.Table.Resize
import RecordStore.Table.Walk

/-!
# A resized segment

However a segment is resized, its bytes are found at the cursor afterwards: the bytes that it has
kept, and zeros where it has grown.
-/

namespace RecordStore.Table

/-- A chunk that was cut is what the cut has left. -/
lemma Chunk.cut_eq_ok {c : Chunk} {offset old : Nat} {s : Segment} (h : c.cut offset old = .ok s) :
    c.live = s.before ++ s.middle ++ s.after ∧ offset = c.head + s.before.length ∧
      s.middle.length = old := by
  rw [cut, tail] at h
  split_ifs at h with hbounds
  cases h
  refine ⟨?_, ?_, ?_⟩
  · simp only [List.append_assoc]
    rw [← List.drop_drop, List.take_append_drop, List.take_append_drop]
  · rw [List.length_take]
    omega
  · rw [List.length_take, List.length_drop]
    omega

namespace Resize

/-- One of the chunks has the resized segment at the cursor. -/
lemma exists_apply {c : Chunk} {s : Segment} {cursor : Cursor}
    (hlive : c.live = s.before ++ s.middle ++ s.after)
    (hoffset : cursor.offset = c.head + s.before.length) (chunkSize new : Nat) :
    ∃ (front : List Chunk) (c' : Chunk) (back : List Chunk) (before after : Bytes)
        (cursor' : Cursor),
      (choose c s.before.length s.after.length s.middle.length new).apply chunkSize c s cursor new =
          (front ++ c' :: back, cursor') ∧
        cursor'.chunkIndex = cursor.chunkIndex + front.length ∧
        c'.live = before ++ (s.middle.resize new ++ after) ∧
        cursor'.offset = c'.head + before.length := by
  rw [choose, Chunk.spaceHead]
  split_ifs with hsame hshrinks hless hhead htail halone hsplit
  · refine ⟨[], c, [], s.before, s.after, cursor, rfl, rfl, ?_, hoffset⟩
    rw [hsame, Bytes.resize_length, hlive, List.append_assoc]
  · refine ⟨[], _, [], s.before, s.after, _, rfl, rfl, List.append_assoc _ _ _, ?_⟩
    simp only
    omega
  · exact ⟨[], _, [], s.before, s.after, _, rfl, rfl, List.append_assoc _ _ _, hoffset⟩
  · refine ⟨[], _, [], s.before, s.after, _, rfl, rfl, List.append_assoc _ _ _, ?_⟩
    simp only
    omega
  · exact ⟨[], _, [], s.before, s.after, _, rfl, rfl, List.append_assoc _ _ _, hoffset⟩
  · exact ⟨[], _, [], [], [], _, rfl, rfl, (List.append_nil _).symm, rfl⟩
  · refine ⟨[], _, [_], s.before, [], _, rfl, rfl, ?_, rfl⟩
    rw [List.append_nil]
  · exact ⟨[_], _, [], [], s.after, _, rfl, rfl, rfl, rfl⟩

end Resize

/-- The resized segment is found at the cursor. -/
theorem exists_resized {t t' : Table} {cursor cursor' : Cursor} {c : Chunk} {s : Segment}
    {old new : Nat} (hchunk : t.chunk cursor.chunkIndex = .ok c)
    (hcut : c.cut cursor.offset old = .ok s)
    (h : t.resizeSegment cursor old new = .ok (t', cursor')) :
    ∃ c' before after, t'.chunk cursor'.chunkIndex = .ok c' ∧
      c'.live = before ++ (s.middle.resize new ++ after) ∧
      cursor'.offset = c'.head + before.length := by
  obtain ⟨hlive, hoffset, rfl⟩ := Chunk.cut_eq_ok hcut
  obtain ⟨front, c', back, before, after, moved, happly, hindex, hlive', hoffset'⟩ :=
    Resize.exists_apply hlive hoffset t.config.chunkSize new
  rw [resizeSegment, hchunk, ok_bind, hcut, ok_bind] at h
  simp only [happly] at h
  cases h
  obtain ⟨hlt, -⟩ := List.getElem?_eq_some_iff.mp (getElem?_of_chunk hchunk)
  have hlength : (t.chunks.take cursor.chunkIndex).length = cursor.chunkIndex := by
    rw [List.length_take, Nat.min_eq_left hlt.le]
  refine ⟨c', before, after, ?_, hlive', hoffset'⟩
  rw [chunk, hindex, List.append_assoc, List.getElem?_append_right (by omega), hlength]
  simp

/-- A record is found where its chunk is cut. -/
lemma exists_of_record {t : Table} {cursor : Cursor} {record : Bytes}
    (h : t.record cursor = .ok record) :
    ∃ c s, t.chunk cursor.chunkIndex = .ok c ∧ c.cut cursor.offset record.length = .ok s ∧
      s.middle = record ∧ Record.headerBytes ≤ record.length := by
  rw [Table.record] at h
  cases hchunk : t.chunk cursor.chunkIndex with
  | error e =>
    rw [hchunk] at h
    cases h
  | ok c =>
    rw [hchunk, ok_bind, Chunk.record, Chunk.liveFrom] at h
    split_ifs at h with hbounds
    · rw [ok_bind] at h
      split at h
      · rename_i first rest hfirst
        cases h
        obtain ⟨size, -, hheader, hsize, rfl, rfl⟩ := Record.exists_size_of_first? hfirst
        have hlength : ((c.live.drop (cursor.offset - c.head)).take size).length = size :=
          List.length_take_of_le hsize
        rw [List.length_drop] at hsize
        have hcut : c.head ≤ cursor.offset ∧ cursor.offset + size ≤ c.tail := by
          rw [Chunk.tail] at hbounds ⊢
          omega
        refine ⟨c, _, rfl, if_pos (hlength.symm ▸ hcut), ?_, hlength.symm ▸ hheader⟩
        simp only [hlength]
      · cases h
    · cases h

end RecordStore.Table
