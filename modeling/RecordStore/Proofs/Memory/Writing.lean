import Mathlib
import RecordStore.Proofs.Outcome
import RecordStore.Table.Buffer

/-!
# Writing to a buffer

Writing over live bytes of a buffer is seen as the same change of its chunk, whatever bytes lie in
front of the records and behind them. Fields that move along within a record leave nothing behind.
-/

namespace RecordStore

namespace Bytes

variable {bytes : Bytes} {n : Nat}

lemma resize_of_le (h : n ≤ bytes.length) : bytes.resize n = bytes.take n := by
  rw [resize, Nat.sub_eq_zero_of_le h]
  exact List.append_nil _

lemma resize_of_ge (h : bytes.length ≤ n) : bytes.resize n = bytes ++ zeros (n - bytes.length) := by
  rw [resize, List.take_of_length_le h]

/-- Two patches, one behind the other, are one. -/
lemma overwrite_overwrite {offset : Nat} {p : Bytes} (h : offset ≤ bytes.length) (q : Bytes) :
    (bytes.overwrite offset p).overwrite (offset + p.length) q =
      bytes.overwrite offset (p ++ q) := by
  have hlength : (bytes.take offset ++ p).length = offset + p.length := by
    rw [List.length_append, List.length_take, Nat.min_eq_left h]
  rw [overwrite, overwrite.eq_1 bytes, List.take_left' hlength, ← List.drop_drop,
    List.drop_left' hlength, List.drop_drop, overwrite, List.length_append, Nat.add_assoc,
    List.append_assoc (bytes.take offset)]

end Bytes

namespace Table

/-- Two pieces are written as one. -/
lemma Chunk.overwrite_append (c : Chunk) (offset : Nat) (p q : Bytes) :
    c.overwrite offset (p ++ q) =
      (do (← c.overwrite offset p).overwrite (offset + p.length) q) := by
  by_cases hp : c.head ≤ offset ∧ offset + p.length ≤ c.tail
  · obtain ⟨hhead, htail⟩ := hp
    rw [Chunk.tail] at htail
    have hwritten := @Bytes.overwrite_overwrite c.live (offset - c.head) p (by omega) q
    have hlength : (c.live.overwrite (offset - c.head) p).length = c.live.length :=
      Bytes.length_overwrite (by omega)
    have hfirst : c.overwrite offset p =
        .ok { c with live := c.live.overwrite (offset - c.head) p } := if_pos ⟨hhead, htail⟩
    rw [hfirst, ok_bind, Chunk.overwrite, Chunk.overwrite, Chunk.tail, Chunk.tail, hlength,
      ← hwritten, List.length_append, ← Nat.add_assoc]
    by_cases hq : offset + p.length + q.length ≤ c.head + c.live.length
    · have hstart : offset - c.head + p.length = offset + p.length - c.head := by omega
      rw [if_pos ⟨hhead, hq⟩, if_pos ⟨hhead.trans (Nat.le_add_right _ _), hq⟩, hstart]
    · rw [if_neg (mt And.right hq), if_neg (mt And.right hq)]
  · have hpq : ¬ (c.head ≤ offset ∧ offset + (p ++ q).length ≤ c.tail) := by
      rw [List.length_append]
      omega
    rw [Chunk.overwrite, if_neg hpq, Chunk.overwrite, if_neg hp]
    rfl

namespace Buffer

open Bytes

variable {b : Buffer}

/-! ### Bounds -/

lemma length_live (b : Buffer) : b.live.length = b.tail - b.head := length_slice_of_le b.tail_le

lemma chunk_tail (b : Buffer) : b.chunk.tail = b.tail := by
  rw [Chunk.tail]
  simp only [chunk, length_live]
  exact Nat.add_sub_of_le b.head_le

lemma chunk_spaceTail (b : Buffer) : b.chunk.spaceTail = b.spaceTail := by
  rw [Chunk.spaceTail, chunk_tail, spaceTail]
  rfl

lemma chunk_withCapacity (capacity : Nat) : (withCapacity capacity).chunk = .empty capacity := by
  rw [chunk, live]
  simp only [withCapacity, slice_self, length_zeros]
  rfl

/-- Live bytes, counted from the first one. -/
lemma slice_data {start stop : Nat} (hstart : b.head ≤ start) (hstop : stop ≤ b.tail) :
    b.data.slice start stop = b.live.slice (start - b.head) (stop - b.head) := by
  have hhead := b.head_le
  by_cases h : start ≤ stop
  · rw [live, slice.eq_1 (b.data.slice _ _), drop_slice, take_slice _ (by omega)]
    congr 1 <;> omega
  · rw [slice, slice, Nat.sub_eq_zero_of_le (by omega), Nat.sub_eq_zero_of_le (by omega),
      List.take_zero, List.take_zero]

/-! ### Writing within the bounds -/

/-- Writing over live bytes is seen where it happens. -/
theorem chunk_store (b : Buffer) (offset : Nat) (patch : Bytes) :
    chunk <$> b.store offset patch = b.chunk.overwrite offset patch := by
  have hhead := b.head_le
  have htail := b.tail_le
  rw [store, Chunk.overwrite, chunk_tail]
  by_cases h : b.head ≤ offset ∧ offset + patch.length ≤ b.tail
  · rw [if_pos h, if_pos (show b.chunk.head ≤ offset ∧ _ from h)]
    refine congrArg Except.ok (Chunk.mk.injEq .. ▸ ⟨?_, rfl, ?_, rfl⟩)
    · exact length_overwrite (by omega)
    · change (b.data.overwrite offset patch).slice b.head b.tail =
        (b.data.slice b.head b.tail).overwrite (offset - b.head) patch
      have hstart : b.head + (offset - b.head) = offset := by omega
      have hstop : b.head + (offset - b.head + patch.length) = offset + patch.length := by omega
      rw [slice_overwrite (by omega) h.1 h.2, overwrite, take_slice _ (by omega), drop_slice,
        hstart, hstop]
  · rw [if_neg h, if_neg (show ¬ (b.chunk.head ≤ offset ∧ _) from h)]
    rfl

/-- Live bytes give way to as many others. -/
lemma exists_store {front old rest patch : Bytes} (hlive : b.live = front ++ (old ++ rest))
    (h : old.length = patch.length) :
    ∃ b', b.store (b.head + front.length) patch = .ok b' ∧
      b'.chunk = { b.chunk with live := front ++ (patch ++ rest) } := by
  apply exists_of_map_ok
  have hlength := congrArg List.length hlive
  rw [length_live, List.length_append, List.length_append] at hlength
  have hbounds : b.chunk.head ≤ b.head + front.length ∧
      b.head + front.length + patch.length ≤ b.chunk.tail := by
    have hhead := b.head_le
    rw [chunk_tail]
    exact ⟨Nat.le_add_right _ _, by omega⟩
  have hoverwrite := overwrite_append front old rest h
  rw [← hlive] at hoverwrite
  rw [chunk_store, Chunk.overwrite, if_pos hbounds, ← hoverwrite]
  simp only [chunk, Nat.add_sub_cancel_left]

/-- Live bytes give way to a copy of others. -/
lemma exists_copyWithin {front old rest : Bytes} {start stop : Nat}
    (hlive : b.live = front ++ (old ++ rest)) (hle : start ≤ stop) (hstop : stop ≤ b.live.length)
    (h : old.length = stop - start) :
    ∃ b', b.copyWithin (b.head + start) (b.head + stop) (b.head + front.length) = .ok b' ∧
      b'.chunk = { b.chunk with live := front ++ (b.live.slice start stop ++ rest) } := by
  have hhead := b.head_le
  have hlength := b.length_live
  have hbounds : b.head ≤ b.head + start ∧ b.head + start ≤ b.head + stop ∧
      b.head + stop ≤ b.tail := by omega
  rw [copyWithin, if_pos hbounds, slice_data hbounds.1 hbounds.2.2, Nat.add_sub_cancel_left,
    Nat.add_sub_cancel_left]
  refine exists_store hlive ?_
  rw [length_slice_of_le hstop, h]

/-- Pieces one behind the other are seen as one. -/
lemma chunk_storeAll (b : Buffer) (offset : Nat) (piece : Bytes) (pieces : List Bytes) :
    chunk <$> b.storeAll offset (piece :: pieces) =
      b.chunk.overwrite offset (piece ++ pieces.flatten) := by
  induction pieces generalizing b offset piece with
  | nil =>
    rw [List.flatten_nil, List.append_nil, ← chunk_store, storeAll]
    cases b.store offset piece <;> rfl
  | cons piece' pieces ih =>
    rw [List.flatten_cons, Chunk.overwrite_append, ← chunk_store, storeAll]
    cases b.store offset piece with
    | error e => rfl
    | ok b' => exact ih b' _ piece'

/-- What is left behind a stretch of `later` bytes that has moved: the end of the old bytes in front
of it where it moved forward, and what it has not reached where it moved back. -/
lemma exists_left_behind (old later rest : Bytes) (size : Nat) :
    ∃ junk : Bytes, junk.length = old.length - size ∧
      (old ++ (later ++ rest)).drop (size + later.length) =
        junk ++ rest.drop (size - old.length) := by
  refine ⟨(old ++ later).drop (size + later.length), ?_, ?_⟩
  · rw [List.length_drop, List.length_append]
    omega
  · have hreached : size + later.length - (old ++ later).length = size - old.length := by
      rw [List.length_append]
      omega
    rw [← List.append_assoc, List.drop_append, hreached]

/-- Bytes move along behind a stretch that gets another size. What comes into the stretch is not
said. -/
lemma exists_move {ahead old later rest : Bytes} {size : Nat}
    (hlive : b.live = ahead ++ (old ++ (later ++ rest))) (hroom : size ≤ old.length + rest.length) :
    ∃ gap b', gap.length = size ∧
      b.copyWithin (b.head + (ahead.length + old.length))
        (b.head + (ahead.length + old.length + later.length))
        (b.head + (ahead.length + size)) = .ok b' ∧
      b'.chunk = { b.chunk with
        live := ahead ++ (gap ++ (later ++
          (old ++ (later ++ rest)).drop (size + later.length))) } := by
  set tail := old ++ (later ++ rest) with htail
  have hlength : tail.length = old.length + (later.length + rest.length) := by
    rw [htail, List.length_append, List.length_append]
  have hgap : (tail.take size).length = size := by
    rw [List.length_take, hlength]
    omega
  have hahead : (ahead ++ tail.take size).length = ahead.length + size := by
    rw [List.length_append, hgap]
  have hcut : b.live = (ahead ++ tail.take size) ++
      (tail.slice size (size + later.length) ++ tail.drop (size + later.length)) := by
    rw [hlive, List.append_assoc, take_append_slice_append_drop _ (Nat.le_add_right _ _)]
  have hmoved : b.live.slice (ahead.length + old.length)
      (ahead.length + old.length + later.length) = later := by
    rw [hlive, htail, ← List.append_assoc]
    exact slice_append rest (List.length_append) rfl
  have hstop : ahead.length + old.length + later.length ≤ b.live.length := by
    rw [hlive, List.length_append, hlength]
    omega
  have hold : (tail.slice size (size + later.length)).length =
      ahead.length + old.length + later.length - (ahead.length + old.length) := by
    rw [length_slice_of_le (by omega)]
    omega
  obtain ⟨b', hcopy, hchunk⟩ := exists_copyWithin hcut (Nat.le_add_right _ _) hstop hold
  rw [hahead] at hcopy
  rw [hmoved, List.append_assoc] at hchunk
  exact ⟨_, b', hgap, hcopy, hchunk⟩

/-- Bytes move along behind a stretch that gets another size, and what they leave behind is
cleared. -/
lemma exists_shift {ahead old later rest : Bytes} {size : Nat}
    (hlive : b.live = ahead ++ (old ++ (later ++ rest))) (hroom : size ≤ old.length + rest.length) :
    ∃ gap b', gap.length = size ∧
      b.shift (b.head + ahead.length) old.length size
        (b.head + (ahead.length + old.length + later.length)) = .ok b' ∧
      b'.chunk = { b.chunk with
        live := ahead ++ (gap ++ (later ++
          (zeros (old.length - size) ++ rest.drop (size - old.length)))) } := by
  obtain ⟨gap, b₁, hgap, hmove, hchunk₁⟩ := exists_move hlive hroom
  obtain ⟨junk, hjunk, hbehind⟩ := exists_left_behind old later rest size
  rw [hbehind] at hchunk₁
  have hnewStop : b.head + (ahead.length + old.length + later.length) - old.length + size =
      b.head + (ahead.length + size + later.length) := by omega
  rw [shift, Nat.add_assoc b.head, Nat.add_assoc b.head, hnewStop, hmove, ok_bind]
  by_cases hshrinks : size < old.length
  · have hlive₁ : b₁.live = (ahead ++ (gap ++ later)) ++
        (junk ++ rest.drop (size - old.length)) := by
      rw [List.append_assoc, List.append_assoc]
      exact congrArg Chunk.live hchunk₁
    have hhead₁ : b₁.head = b.head := congrArg Chunk.head hchunk₁
    have hfront : (ahead ++ (gap ++ later)).length = ahead.length + size + later.length := by
      rw [List.length_append, List.length_append, hgap, Nat.add_assoc]
    obtain ⟨b₂, hclear, hchunk₂⟩ := exists_store hlive₁ (hjunk.trans (length_zeros _).symm)
    rw [hhead₁, hfront] at hclear
    refine ⟨gap, b₂, hgap, ?_, ?_⟩
    · rw [if_pos (by omega), ← hclear]
      congr 2
      omega
    · rw [hchunk₂, hchunk₁]
      simp only [List.append_assoc]
  · -- nothing is left behind, and nothing is cleared
    have hnone : old.length - size = 0 := Nat.sub_eq_zero_of_le (Nat.not_lt.mp hshrinks)
    rw [hnone] at hjunk ⊢
    refine ⟨gap, b₁, hgap, if_neg (by omega), ?_⟩
    rw [hchunk₁, List.eq_nil_of_length_eq_zero hjunk]
    rfl

/-- A field is replaced in place: the fields behind it move along, what they leave behind is
cleared, and what was slack stays as it was. -/
theorem exists_replaceField {before header' front old later rest header field : Bytes}
    (hlive : b.live = before ++ (header' ++ (front ++ (old ++ (later ++ rest)))))
    (hheader : header'.length = header.length) (hroom : field.length ≤ old.length + rest.length) :
    ∃ b', b.replaceField (b.head + before.length) header (header.length + front.length) old.length
        (header.length + front.length + old.length + later.length) field = .ok b' ∧
      b'.chunk = { b.chunk with
        live := before ++ (header ++ (front ++ (field ++ (later ++
          (zeros (old.length - field.length) ++ rest.drop (field.length - old.length)))))) } := by
  set ahead := before ++ (header ++ front) with hahead
  obtain ⟨b₁, hheader₁, hchunk₁⟩ := exists_store hlive hheader
  have hlive₁ : b₁.live = ahead ++ (old ++ (later ++ rest)) := by
    rw [hahead, List.append_assoc, List.append_assoc]
    exact congrArg Chunk.live hchunk₁
  have hhead₁ : b₁.head = b.head := congrArg Chunk.head hchunk₁
  obtain ⟨gap, b₂, hgap, hshift, hchunk₂⟩ := exists_shift hlive₁ hroom
  have hhead₂ : b₂.head = b.head := (congrArg Chunk.head hchunk₂).trans hhead₁
  obtain ⟨b₃, hstore, hchunk₃⟩ := exists_store (congrArg Chunk.live hchunk₂) hgap
  refine ⟨b₃, ?_, ?_⟩
  · have hstart : b.head + before.length + (header.length + front.length) =
        b.head + ahead.length := by
      rw [hahead, List.length_append, List.length_append, Nat.add_assoc]
    have hend : b.head + before.length +
        (header.length + front.length + old.length + later.length) =
          b.head + (ahead.length + old.length + later.length) := by
      rw [hahead, List.length_append, List.length_append]
      omega
    rw [replaceField, hheader₁, ok_bind, hstart, hend, ← hhead₁, hshift, ok_bind, hhead₁, ← hhead₂,
      hstore]
  · rw [hchunk₃, hchunk₂, hchunk₁, hahead]
    simp only [List.append_assoc]

end Buffer

end Table

end RecordStore
