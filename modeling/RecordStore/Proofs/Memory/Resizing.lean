import Mathlib
import RecordStore.Proofs.Memory.Writing
import RecordStore.Table.Edit

/-!
# Resizing a segment of a buffer

When a segment gets another size, bytes are copied within the buffer or to a new one, and those that
were there stay outside of the live bytes. Each way of doing this is seen as what it does to the
chunk: where a segment grows over bytes that were left behind, they are cleared.
-/

namespace RecordStore.Table.Buffer

open Bytes

variable {b : Buffer}

lemma length_overwrite_zeros {n offset : Nat} {patch : Bytes} (h : offset + patch.length ≤ n) :
    ((zeros n).overwrite offset patch).length = n := by
  refine (length_overwrite ?_).trans (length_zeros n)
  rwa [length_zeros]

/-! ### Resizing a segment -/

namespace Span

variable {s : b.Span} {new : Nat}

lemma length_before (s : b.Span) : s.segment.before.length = s.before := by
  have hafter := s.stop_le
  have htail := b.tail_le
  exact length_slice_of_le (by omega)

lemma length_middle (s : b.Span) : s.segment.middle.length = s.size := by
  have hafter := s.stop_le
  have htail := b.tail_le
  rw [segment, length_slice_of_le (by rw [stop]; omega), stop, Nat.add_sub_cancel_left]

lemma length_after (s : b.Span) : s.segment.after.length = s.after := length_slice_of_le b.tail_le

/-- The bytes in front and the segment are one slice. -/
lemma before_append_middle (s : b.Span) :
    s.segment.before ++ s.segment.middle = b.data.slice b.head s.stop :=
  slice_append_slice _ s.head_le (Nat.le_add_right _ _)

lemma before_append_resize_of_ge (s : b.Span) (h : s.size ≤ new) :
    s.segment.before ++ s.segment.middle.resize new =
      b.data.slice b.head s.stop ++ zeros (new - s.size) := by
  rw [resize_of_ge (by rwa [length_middle]), length_middle, ← List.append_assoc,
    before_append_middle]

/-- What the segment keeps of its bytes when it shrinks. -/
lemma before_append_resize_of_le (s : b.Span) (h : new ≤ s.size) :
    s.segment.before ++ s.segment.middle.resize new = b.data.slice b.head (s.start + new) := by
  rw [resize_of_le (by rwa [length_middle]), segment, take_slice _ (by rw [stop]; omega)]
  exact slice_append_slice _ s.head_le (Nat.le_add_right _ _)

lemma eq_of_span {start size : Nat} (h : b.span start size = .ok s) :
    s.start = start ∧ s.size = size := by
  rw [span] at h
  split_ifs at h
  cases h
  exact ⟨rfl, rfl⟩

/-- Cutting a chunk is cutting what is seen of its buffer. -/
lemma map_segment (b : Buffer) (start size : Nat) :
    segment <$> b.span start size = b.chunk.cut start size := by
  rw [span, Chunk.cut, chunk_tail]
  by_cases h : b.head ≤ start ∧ start + size ≤ b.tail
  · rw [dif_pos h, if_pos (show b.chunk.head ≤ start ∧ _ from h)]
    have hstart : b.head + (start - b.head) = start := by omega
    have hstop : b.head + (start - b.head + size) = start + size := by omega
    refine congrArg Except.ok (Segment.mk.injEq .. ▸ ⟨?_, ?_, ?_⟩)
    · simp only [chunk, live]
      rw [take_slice _ (by omega), hstart]
    · simp only [chunk, live, stop]
      rw [drop_slice, hstart, take_slice _ h.2]
    · simp only [chunk, live, stop]
      rw [drop_slice, hstop]
  · rw [dif_neg h, if_neg (show ¬ (b.chunk.head ≤ start ∧ _) from h)]
    rfl

/-- The bytes in front have moved back. -/
lemma chunk_shrinkHead (s : b.Span) (h : new ≤ s.size) :
    (s.shrinkHead new).chunk = { b.chunk with
      head := b.head + s.size - new
      live := s.segment.before ++ s.segment.middle.resize new ++ s.segment.after } := by
  have hbefore := s.head_le
  have hafter := s.stop_le
  have htail := b.tail_le
  have hlength : (b.data.slice b.head (s.start + new)).length = s.start + new - b.head :=
    length_slice_of_le (by omega)
  have hstop : b.head + (s.size - new) + (s.start + new - b.head) = s.stop := by
    rw [stop]
    omega
  refine (Chunk.mk.injEq ..).mpr
    ⟨length_overwrite (by omega), (Nat.add_sub_assoc h _).symm, ?_, rfl⟩
  rw [before_append_resize_of_le s h, segment]
  change slice (Bytes.copyWithin _ _ _ _) (b.head + (s.size - new)) b.tail = _
  rw [Bytes.copyWithin, slice_overwrite (by omega) le_rfl (by omega), slice_self, List.nil_append,
    hlength, hstop]

/-- The bytes behind have moved forward. -/
lemma chunk_shrinkTail (s : b.Span) (h : new ≤ s.size) :
    (s.shrinkTail new).chunk = { b.chunk with
      live := s.segment.before ++ s.segment.middle.resize new ++ s.segment.after } := by
  have hbefore := s.head_le
  have hafter := s.stop_le
  have htail := b.tail_le
  have hlength : (b.data.slice s.stop b.tail).length = b.tail - s.stop := length_slice_of_le htail
  have hstop : s.start + new + (b.tail - s.stop) = b.tail - (s.size - new) := by
    rw [stop]
    omega
  refine (Chunk.mk.injEq ..).mpr ⟨length_overwrite (by omega), rfl, ?_, rfl⟩
  rw [before_append_resize_of_le s h, segment]
  change slice (Bytes.copyWithin _ _ _ _) b.head (b.tail - (s.size - new)) = _
  rw [Bytes.copyWithin, slice_overwrite (by omega) (by omega) (by omega), hlength, hstop,
    slice_self, List.append_nil]

/-- The bytes in front have moved forward, and the room behind the segment is clear. -/
lemma chunk_growHead (s : b.Span) (h : s.size ≤ new) (room : new - s.size ≤ b.head) :
    (s.growHead new).chunk = { b.chunk with
      head := b.head + s.size - new
      live := s.segment.before ++ s.segment.middle.resize new ++ s.segment.after } := by
  have hbefore := s.head_le
  have hafter := s.stop_le
  have htail := b.tail_le
  have hstop : s.stop = s.start + s.size := rfl
  have hcopied : (b.data.slice b.head s.stop).length = s.stop - b.head :=
    length_slice_of_le (by omega)
  have hlength : (b.data.copyWithin b.head s.stop (b.head - (new - s.size))).length =
      b.data.length := length_overwrite (by omega)
  have hkept : (b.data.copyWithin b.head s.stop (b.head - (new - s.size))).slice
      (b.head - (new - s.size)) (s.stop - (new - s.size)) = b.data.slice b.head s.stop :=
    slice_copyWithin (by omega) (by omega) (by omega)
  have hbehind : (b.data.copyWithin b.head s.stop (b.head - (new - s.size))).slice s.stop b.tail =
      b.data.slice s.stop b.tail := slice_overwrite_of_ge (by omega) (by omega)
  have hclear : s.stop - (new - s.size) + (zeros (new - s.size)).length = s.stop := by
    rw [length_zeros]
    omega
  refine (Chunk.mk.injEq ..).mpr ⟨?_, ?_, ?_, rfl⟩
  · exact (length_overwrite (by omega)).trans hlength
  · change b.head - (new - s.size) = _
    omega
  · rw [before_append_resize_of_ge s h, segment]
    change slice (Bytes.overwrite _ _ _) (b.head - (new - s.size)) b.tail = _
    rw [slice_overwrite (by omega) (by omega) (by omega), hkept, hclear, hbehind]

/-- The bytes behind have moved back, and the room in front of them is clear. -/
lemma chunk_growTail (s : b.Span) (h : s.size ≤ new) (room : new - s.size ≤ b.spaceTail) :
    (s.growTail new room).chunk = { b.chunk with
      live := s.segment.before ++ s.segment.middle.resize new ++ s.segment.after } := by
  have hbefore := s.head_le
  have hafter := s.stop_le
  have htail := b.tail_le
  have hspace := room
  rw [spaceTail] at hspace
  have hstop : s.stop = s.start + s.size := rfl
  have hcopied : (b.data.slice s.stop b.tail).length = b.tail - s.stop := length_slice_of_le htail
  have hlength : (b.data.copyWithin s.stop b.tail (s.start + new)).length = b.data.length :=
    length_overwrite (by omega)
  have hkept : (b.data.copyWithin s.stop b.tail (s.start + new)).slice b.head s.stop =
      b.data.slice b.head s.stop := slice_overwrite_of_le (by omega) (by omega)
  have hmoved : (b.data.copyWithin s.stop b.tail (s.start + new)).slice (s.start + new)
      (b.tail + (new - s.size)) = b.data.slice s.stop b.tail :=
    slice_copyWithin htail (by omega) (by omega)
  have hclear : s.stop + (zeros (new - s.size)).length = s.start + new := by
    rw [length_zeros]
    omega
  refine (Chunk.mk.injEq ..).mpr ⟨?_, rfl, ?_, rfl⟩
  · exact (length_overwrite (by omega)).trans hlength
  · rw [before_append_resize_of_ge s h, segment]
    change slice (Bytes.overwrite _ _ _) b.head (b.tail + (new - s.size)) = _
    rw [slice_overwrite (by omega) (by omega) (by omega), hkept, hclear, hmoved]

/-- The segment is alone in a new buffer. -/
lemma chunk_reallocate (s : b.Span) (chunkSize : Nat) (h : s.size ≤ new) :
    (s.reallocate chunkSize new).chunk = { b.chunk with
      capacity := max chunkSize new
      head := 0
      live := s.segment.middle.resize new } := by
  have hmiddle : (b.data.slice s.start s.stop).length = s.size := length_middle s
  have hcapacity : new ≤ max chunkSize new := Nat.le_max_right _ _
  refine (Chunk.mk.injEq ..).mpr ⟨?_, rfl, ?_, rfl⟩
  · exact length_overwrite_zeros (by omega)
  · rw [resize_of_ge (by rwa [length_middle]), length_middle, segment]
    change slice (Bytes.overwrite _ _ _) 0 new = _
    rw [slice_overwrite (Nat.zero_le _) le_rfl (by omega), slice_self, List.nil_append,
      slice_zeros hcapacity]
    congr 2
    omega

/-- The bytes in front and the segment are at the end of a new buffer. -/
lemma chunk_splitHead (s : b.Span) (chunkSize moved : Nat) (h : s.size ≤ new) :
    (s.splitHead chunkSize new moved).1.chunk =
        ⟨max chunkSize (s.before + new), max chunkSize (s.before + new) - (s.before + new),
          s.segment.before ++ s.segment.middle.resize new, moved⟩ ∧
      (s.splitHead chunkSize new moved).2.chunk = { b.chunk with
        head := s.stop
        live := s.segment.after
        numRecords := b.numRecords - moved } := by
  refine ⟨?_, rfl⟩
  have hbefore := s.head_le
  have hafter := s.stop_le
  have htail := b.tail_le
  have hstop : s.stop = s.start + s.size := rfl
  have hsize : s.before = s.start - b.head := rfl
  have hcopied : (b.data.slice b.head s.stop).length = s.stop - b.head :=
    length_slice_of_le (by omega)
  set capacity := max chunkSize (s.before + new) with hcapacity
  have hfits : s.before + new ≤ capacity := Nat.le_max_right _ _
  refine (Chunk.mk.injEq ..).mpr ⟨?_, rfl, ?_, rfl⟩
  · exact length_overwrite_zeros (by omega)
  · rw [before_append_resize_of_ge s h]
    change slice (Bytes.overwrite _ _ _) (capacity - (s.before + new)) capacity = _
    rw [slice_overwrite (by rw [length_zeros]; omega) le_rfl (by omega), slice_self,
      List.nil_append, slice_zeros le_rfl]
    congr 2
    omega

/-- The segment and the bytes behind are in a new buffer. -/
lemma chunk_splitTail (s : b.Span) (chunkSize moved : Nat) (h : s.size ≤ new) :
    (s.splitTail chunkSize new moved).1.chunk = { b.chunk with
        live := s.segment.before
        numRecords := b.numRecords - moved } ∧
      (s.splitTail chunkSize new moved).2.chunk =
        ⟨max chunkSize (new + s.after), 0, s.segment.middle.resize new ++ s.segment.after,
          moved⟩ := by
  refine ⟨rfl, ?_⟩
  have hmiddle : (b.data.slice s.start s.stop).length = s.size := length_middle s
  have hafter : (b.data.slice s.stop b.tail).length = s.after := length_after s
  have hfits : new + s.after ≤ max chunkSize (new + s.after) := Nat.le_max_right _ _
  have hlength : ((zeros (max chunkSize (new + s.after))).overwrite 0
      (b.data.slice s.start s.stop)).length = max chunkSize (new + s.after) :=
    length_overwrite_zeros (by omega)
  have hsegment : ((zeros (max chunkSize (new + s.after))).overwrite 0
      (b.data.slice s.start s.stop)).slice 0 new = s.segment.middle.resize new := by
    rw [slice_overwrite (Nat.zero_le _) le_rfl (by omega), slice_self, List.nil_append,
      slice_zeros (by omega), resize_of_ge (by rwa [length_middle]), length_middle, segment]
    congr 2
    omega
  refine (Chunk.mk.injEq ..).mpr ⟨?_, rfl, ?_, rfl⟩
  · exact (length_overwrite (by omega)).trans hlength
  · change slice (Bytes.overwrite _ _ _) 0 (new + s.after) = _
    rw [slice_overwrite (by omega) (Nat.zero_le _) (by omega), hsegment, hafter, slice_self,
      List.append_nil]
    rfl

/-- The buffers that take the place of one are seen as the chunks that take the place of its chunk,
and the cursor ends up at the same place. -/
theorem map_resize (s : b.Span) (chunkSize : Nat) {cursor : Cursor}
    (hcursor : cursor.offset = s.start) (new : Nat) :
    Prod.map (List.map chunk) id (s.resize chunkSize cursor new) =
      (Resize.choose b.chunk s.segment.before.length s.segment.after.length s.size new).apply
        chunkSize b.chunk s.segment cursor new := by
  have hspace : b.chunk.spaceHead = b.spaceHead := rfl
  rw [resize, Resize.choose, length_before, length_after, chunk_spaceTail, hspace]
  rcases lt_trichotomy new s.size with h | h | h
  · have hdelta : ¬ s.size - new = 0 := by omega
    have hoffset : cursor.offset + (s.size - new) = cursor.offset + s.size - new := by omega
    rw [if_pos h.le, if_neg hdelta, if_neg h.ne, if_pos h]
    split_ifs
    · simp only [Resize.apply, length_middle, Prod.map, List.map_cons, List.map_nil, id,
        chunk_shrinkHead s h.le, hoffset]
      rfl
    · simp only [Resize.apply, Prod.map, List.map_cons, List.map_nil, id, chunk_shrinkTail s h.le]
  · rw [if_pos h.le, if_pos (by omega), if_pos h]
    rfl
  · have hoffset : cursor.offset - (new - s.size) = cursor.offset + s.size - new := by omega
    rw [if_neg (Nat.not_le.mpr h), if_neg h.ne', if_neg h.not_gt]
    simp only [Nat.not_le]
    by_cases hhead : new - s.size ≤ b.spaceHead ∧ (b.spaceTail < new - s.size ∨ s.before < s.after)
    · simp only [if_pos hhead, Resize.apply, length_middle, Prod.map, List.map_cons, List.map_nil,
        id, chunk_growHead s h.le hhead.1, hoffset]
      rfl
    rw [if_neg hhead, if_neg hhead]
    by_cases htail : new - s.size ≤ b.spaceTail
    · simp only [dif_pos htail, if_pos htail, Resize.apply, Prod.map, List.map_cons, List.map_nil,
        id, chunk_growTail s h.le htail]
    rw [dif_neg htail, if_neg htail]
    by_cases halone : s.before = 0 ∧ s.after = 0
    · simp only [if_pos halone, Resize.apply, Prod.map, List.map_cons, List.map_nil, id,
        chunk_reallocate s chunkSize h.le]
    rw [if_neg halone, if_neg halone]
    by_cases hbefore : s.before < s.after
    · obtain ⟨hfresh, hrest⟩ := s.chunk_splitHead chunkSize
        (cursor.innerIndex + if s.size = 0 then 0 else 1) h.le
      simp only [if_pos hbefore, Resize.apply, length_middle, length_before, Prod.map,
        List.map_cons, List.map_nil, id, hfresh, hrest, hcursor]
      rfl
    · obtain ⟨hrest, hfresh⟩ :=
        s.chunk_splitTail chunkSize (b.numRecords - cursor.innerIndex) h.le
      simp only [if_neg hbefore, Resize.apply, length_after, Prod.map, List.map_cons,
        List.map_nil, id, hrest]
      refine congrArg (fun c => ([_, c], _)) hfresh

end Span

/-! ### Packing -/

/-- An appended record is seen behind the others. -/
lemma chunk_push (b : Buffer) {record : Bytes} (room : record.length ≤ b.spaceTail) :
    (b.push record room).chunk = b.chunk.push record := by
  have htail := b.tail_le
  have hhead := b.head_le
  rw [spaceTail] at room
  refine (Chunk.mk.injEq ..).mpr ⟨length_overwrite (by omega), rfl, ?_, rfl⟩
  change slice (Bytes.overwrite _ _ _) b.head (b.tail + record.length) = b.live ++ record
  rw [slice_overwrite htail hhead le_rfl, slice_self, List.append_nil, live]

lemma map_packFrom (chunkSize : Nat) (current : Buffer) (records : List Bytes) :
    (packFrom chunkSize current records).map chunk =
      Table.packFrom chunkSize current.chunk records := by
  induction records generalizing current with
  | nil =>
    rw [packFrom, Table.packFrom]
    exact apply_ite (List.map chunk) _ _ _
  | cons record records ih =>
    rw [packFrom, Table.packFrom, chunk_spaceTail]
    by_cases hfull : current.spaceTail < record.length
    · rw [dif_pos hfull, if_pos hfull, apply_ite (List.map chunk), List.map_cons, ih, chunk_push,
        chunk_withCapacity]
      rfl
    · rw [dif_neg hfull, if_neg hfull, ih, chunk_push]

/-- Packed records are seen in packed chunks. -/
theorem map_pack (chunkSize : Nat) (records : List Bytes) :
    (pack chunkSize records).map chunk = Table.pack chunkSize records := by
  rw [pack, map_packFrom, chunk_withCapacity, Table.pack]

end RecordStore.Table.Buffer
