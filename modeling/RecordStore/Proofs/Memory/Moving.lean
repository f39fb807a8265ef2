import Mathlib
import RecordStore.Proofs.Memory.Replacing
import RecordStore.Proofs.Session.Segments

/-!
# Which side moves

A segment that gets another size within its buffer makes room, or takes it up, by moving the bytes
in front of it or those behind. What the segment keeps of its own bytes moves along with those in
front. Where either side could move, a removal and an insertion move the one with fewer bytes. A
record that grows is judged by what is in front of it alone, and so may move the larger side.
-/

namespace RecordStore

open Table (Block Buffer Cursor Resizing)

namespace Table

/-- The two sides of a segment. -/
inductive Side
  | head
  | tail
  deriving DecidableEq

def Side.other : Side → Side
  | .head => .tail
  | .tail => .head

namespace Buffer.Span

open Bytes

variable {b b' : Buffer} {s : b.Span} {new : Nat}

/-- How many bytes the segment keeps. -/
def kept (s : b.Span) (new : Nat) : Nat := min s.size new

/-- How many bytes are copied when a side moves. -/
def load (s : b.Span) (new : Nat) : Side → Nat
  | .head => s.before + s.kept new
  | .tail => s.after

/-- One side has moved and has given the segment its new size, and the other side stays where it
was. -/
inductive Shifts (s : b.Span) (new : Nat) (b' : Buffer) : Side → Prop
  | head (hlength : b'.data.length = b.data.length) (htail : b'.tail = b.tail)
      (hhead : b'.head + new = b.head + s.size)
      (hmoved : b'.data.slice b'.head (b'.head + s.load new .head) =
        b.data.slice b.head (b.head + s.load new .head))
      (hstays : b'.data.drop s.stop = b.data.drop s.stop) : Shifts s new b' .head
  | tail (hlength : b'.data.length = b.data.length) (hhead : b'.head = b.head)
      (htail : b'.tail + s.size = b.tail + new)
      (hmoved : b'.data.slice (b'.tail - s.load new .tail) b'.tail =
        b.data.slice (b.tail - s.load new .tail) b.tail)
      (hstays : b'.data.take (s.start + s.kept new) = b.data.take (s.start + s.kept new)) :
      Shifts s new b' .tail

/-- Either side could move: the segment shrinks, or both sides have the space for its growth. -/
def EitherSide (s : b.Span) (new : Nat) : Prop :=
  new < s.size ∨ s.size < new ∧ new - s.size ≤ b.spaceHead ∧ new - s.size ≤ b.spaceTail

/-- The bytes in front of a segment that grows are fewer than those behind, but they are more
together with those of the segment. -/
def Misjudged (s : b.Span) (new : Nat) : Prop :=
  s.size < new ∧ s.before < s.after ∧ s.after < s.before + s.size

/-! ### The four moves -/

lemma shifts_shrinkHead (h : new ≤ s.size) : s.Shifts new (s.shrinkHead new) .head := by
  have hhead := s.head_le
  have hstop := s.stop_le
  have htail := b.tail_le
  have hend : s.stop = s.start + s.size := rfl
  have hload : b.head + s.load new .head = s.start + new := by
    rw [load, kept, before]
    omega
  have hpatch : (b.data.slice b.head (s.start + new)).length = s.start + new - b.head :=
    length_slice_of_le (by omega)
  refine .head (length_overwrite (by omega)) rfl ?_ ?_ (drop_overwrite (by omega) (by omega))
  · change b.head + (s.size - new) + new = _
    omega
  · rw [hload]
    exact slice_copyWithin (by omega) (by omega) (by rw [← hload, Nat.add_sub_cancel_left]; rfl)

lemma shifts_shrinkTail (h : new ≤ s.size) : s.Shifts new (s.shrinkTail new) .tail := by
  have hhead := s.head_le
  have hstop := s.stop_le
  have htail := b.tail_le
  have hend : s.stop = s.start + s.size := rfl
  have hload : b.tail - s.load new .tail = s.stop := Nat.sub_sub_self (by omega)
  have hpatch : (b.data.slice s.stop b.tail).length = b.tail - s.stop := length_slice_of_le htail
  have hfrom : b.tail - (s.size - new) - s.load new .tail = s.start + new := by
    rw [load, after]
    omega
  refine .tail (length_overwrite (by omega)) rfl ?_ ?_ ?_
  · change b.tail - (s.size - new) + s.size = _
    omega
  · rw [hload]
    change slice (Bytes.copyWithin _ _ _ _) (b.tail - (s.size - new) - _) _ = _
    rw [hfrom]
    exact slice_copyWithin htail (by omega) (by change _ = b.tail - (s.size - new); omega)
  · rw [kept, Nat.min_eq_right h]
    exact take_overwrite (by omega) le_rfl

lemma shifts_growHead (h : s.size ≤ new) (room : new - s.size ≤ b.spaceHead) :
    s.Shifts new (s.growHead new) .head := by
  have hhead := s.head_le
  have hstop := s.stop_le
  have htail := b.tail_le
  have hend : s.stop = s.start + s.size := rfl
  have hload : b.head + s.load new .head = s.stop := by
    rw [load, kept, before]
    omega
  rw [spaceHead] at room
  have hto : b.head - (new - s.size) + s.load new .head = s.stop - (new - s.size) := by omega
  have hpatch : (b.data.slice b.head s.stop).length = s.stop - b.head :=
    length_slice_of_le (by omega)
  have hlength : (b.data.copyWithin b.head s.stop (b.head - (new - s.size))).length =
      b.data.length := length_overwrite (by omega)
  have hclear : (zeros (new - s.size)).length = new - s.size := length_zeros _
  refine .head ((length_overwrite (by omega)).trans hlength) rfl ?_ ?_ ?_
  · change b.head - (new - s.size) + new = _
    omega
  · rw [hload]
    change slice (overwrite _ _ _) (b.head - (new - s.size)) (b.head - (new - s.size) + _) = _
    rw [hto, slice_overwrite_of_le (by omega) le_rfl]
    exact slice_copyWithin (by omega) (by omega) (by omega)
  · exact (drop_overwrite (by omega) (by omega)).trans (drop_overwrite (by omega) (by omega))

lemma shifts_growTail (h : s.size ≤ new) (room : new - s.size ≤ b.spaceTail) :
    s.Shifts new (s.growTail new room) .tail := by
  have hhead := s.head_le
  have hstop := s.stop_le
  have htail := b.tail_le
  have hend : s.stop = s.start + s.size := rfl
  have hload : b.tail - s.load new .tail = s.stop := Nat.sub_sub_self (by omega)
  have hfrom : b.tail + (new - s.size) - s.load new .tail = s.start + new := by
    rw [load, after]
    omega
  have hspace := room
  rw [spaceTail] at hspace
  have hpatch : (b.data.slice s.stop b.tail).length = b.tail - s.stop := length_slice_of_le htail
  have hlength : (b.data.copyWithin s.stop b.tail (s.start + new)).length = b.data.length :=
    length_overwrite (by omega)
  have hclear : (zeros (new - s.size)).length = new - s.size := length_zeros _
  refine .tail ((length_overwrite (by omega)).trans hlength) rfl ?_ ?_ ?_
  · change b.tail + (new - s.size) + s.size = _
    omega
  · rw [hload]
    change slice (overwrite _ _ _) (b.tail + (new - s.size) - _) _ = _
    rw [hfrom, slice_overwrite_of_ge (by omega) (by omega)]
    exact slice_copyWithin htail (by omega) (by change _ = b.tail + (new - s.size); omega)
  · rw [kept, Nat.min_eq_left h]
    exact (take_overwrite (by omega) le_rfl).trans (take_overwrite (by omega) (by omega))

/-! ### The side that moves -/

/-- Where either side could move, one of them does. The other one would have been less work just for
a segment that is misjudged. -/
theorem exists_shifts (h : s.EitherSide new) (chunkSize : Nat) (cursor : Cursor) :
    ∃ side b' moved, s.resize chunkSize cursor new = ([b'], moved) ∧ s.Shifts new b' side ∧
      (s.load new side ≤ s.load new side.other ↔ ¬ s.Misjudged new) := by
  rcases h with hshrinks | ⟨hgrows, hspaceHead, hspaceTail⟩
  · have hkept : s.kept new = new := Nat.min_eq_right hshrinks.le
    have hright : ¬ s.Misjudged new := fun h => (h.1.trans hshrinks).false
    have hdelta : ¬ s.size - new = 0 := Nat.sub_ne_zero_of_lt hshrinks
    by_cases hhead : s.before + new < s.after
    · refine ⟨.head, s.shrinkHead new, { cursor with offset := cursor.offset + (s.size - new) }, ?_,
        shifts_shrinkHead hshrinks.le, iff_of_true ?_ hright⟩
      · rw [resize, if_pos hshrinks.le]
        exact (if_neg hdelta).trans (if_pos hhead)
      · rw [load, hkept]
        exact hhead.le
    · refine ⟨.tail, s.shrinkTail new, cursor, ?_, shifts_shrinkTail hshrinks.le,
        iff_of_true ?_ hright⟩
      · rw [resize, if_pos hshrinks.le]
        exact (if_neg hdelta).trans (if_neg hhead)
      · change s.after ≤ s.before + s.kept new
        rw [hkept]
        exact Nat.not_lt.mp hhead
  · have hkept : s.kept new = s.size := Nat.min_eq_left hgrows.le
    have hgrowth : ¬ new ≤ s.size := Nat.not_le.mpr hgrows
    by_cases hhead : s.before < s.after
    · refine ⟨.head, s.growHead new, { cursor with offset := cursor.offset - (new - s.size) }, ?_,
        shifts_growHead hgrows.le hspaceHead, ?_⟩
      · rw [resize, if_neg hgrowth]
        exact if_pos ⟨hspaceHead, .inr hhead⟩
      · change s.before + s.kept new ≤ s.after ↔ _
        rw [hkept, Misjudged]
        omega
    · refine ⟨.tail, s.growTail new hspaceTail, cursor, ?_, shifts_growTail hgrows.le hspaceTail,
        iff_of_true ?_ fun h => hhead h.2.1⟩
      · have hnot : ¬ (new - s.size ≤ b.spaceHead ∧
            (¬ new - s.size ≤ b.spaceTail ∨ s.before < s.after)) :=
          fun h => h.2.elim (· hspaceTail) hhead
        rw [resize, if_neg hgrowth]
        exact (if_neg hnot).trans (dif_pos hspaceTail)
      · change s.after ≤ s.before + s.kept new
        omega

/-- A new record and one that is cut out are never misjudged. -/
lemma not_misjudged (h : s.size = 0 ∨ new = 0) : ¬ s.Misjudged new := by
  rintro ⟨hgrows, hfewer, hmore⟩
  omega

end Buffer.Span

end Table

/-- Wherever the table lies in memory, the segment is there. -/
lemma Table.Resizing.IsSound.exists_span {z : Resizing} (h : z.IsSound) {m : Memory}
    (hm : m.table = z.table) :
    ∃ b span, m.buffer z.cursor.chunkIndex = .ok b ∧ b.span z.cursor.offset z.old = .ok span := by
  obtain ⟨k, seg, hchunk, hcut⟩ := h.exists_cut
  obtain ⟨b, hb, rfl⟩ := exists_of_map_ok ((m.map_buffer z.cursor.chunkIndex).trans (hm ▸ hchunk))
  obtain ⟨span, hspan, -⟩ :=
    exists_of_map_ok ((Buffer.Span.map_segment b z.cursor.offset z.old).trans hcut)
  exact ⟨b, span, hb, hspan⟩

namespace Session

/-- Only replacing a field makes a record grow. -/
lemma Resizes.from_or_to_nothing {s : Session} {request : Request} {z : Resizing}
    (h : s.Resizes request z) (hrequest : ∀ c column value, request ≠ .setField c column value) :
    z.old = 0 ∨ z.new = 0 := by
  cases h with
  | insert _ hroom | push hroom | configure _ _ _ _ hroom =>
    exact .inl (Table.old_eq_zero_of_roomFor hroom)
  | remove => exact .inr rfl
  | setField => exact absurd rfl (hrequest _ _ _)

/-- Every table in which a request resizes a segment can lie in memory. Where either side of the
segment could move, one of them moves within its buffer and the other one stays. The one that moves
is no more work, unless the segment is a record that grows, and that has fewer bytes in front than
behind and more together with its own. -/
theorem Reachable.side_moved {s : Session} (hs : s.Reachable) {request : Request}
    (hadmits : s.Admits request) {z : Resizing} (hz : s.Resizes request z) :
    (∃ m : Memory, m.table = z.table) ∧
      ∀ m : Memory, m.table = z.table →
        ∃ b span, m.buffer z.cursor.chunkIndex = .ok b ∧
          b.span z.cursor.offset z.old = .ok span ∧
          (span.EitherSide z.new → ∃ side b' moved,
            m.resizeSegment z.cursor z.old z.new =
              .ok (m.setBuffer z.cursor.chunkIndex b', moved) ∧
            span.Shifts z.new b' side ∧
            (span.load z.new side ≤ span.load z.new side.other ↔ ¬ span.Misjudged z.new)) ∧
          ((∀ c column value, request ≠ .setField c column value) → ¬ span.Misjudged z.new) := by
  obtain ⟨types, blocks, h⟩ := hs.sound
  have hsound := h.isSound_of_resizes hadmits hz
  refine ⟨⟨_, Memory.table_ofTable hsound.within⟩, fun m hm => ?_⟩
  obtain ⟨b, span, hb, hspan⟩ := hsound.exists_span hm
  refine ⟨b, span, hb, hspan, fun heither => ?_, fun hrequest => ?_⟩
  · obtain ⟨side, b', moved, hresize, hshifts, hload⟩ :=
      span.exists_shifts heither m.config.chunkSize z.cursor
    exact ⟨side, b', moved, Memory.resizeSegment_eq hb hspan hresize, hshifts, hload⟩
  · refine Buffer.Span.not_misjudged ?_
    rw [(Buffer.Span.eq_of_span hspan).2]
    exact hz.from_or_to_nothing hrequest

/-- A longer text in front of a shorter one, and a gap in front of both where a text was. -/
def gapText : Session :=
  ⟨⟨textColumn, [⟨64, 6, [7, 0, 0, 0, 2, 98, 98, 6, 0, 0, 0, 1, 99], 2⟩], 2, ⟨64, 0, false⟩, 4,
    false⟩, [⟨0, 0, 0, 6, 4⟩, ⟨0, 0, 0, 0, 3⟩, ⟨2, 0, 2, 13, 3⟩, ⟨1, 0, 1, 6, 2⟩, ⟨0, 0, 0, 0, 1⟩]⟩

lemma built_gapText : gapText.Built := by
  have hfirst : ∀ v ∈ [Value.string .bits8 [97]], v.Proper := by decide
  have hsecond : ∀ v ∈ [Value.string .bits8 [98, 98]], v.Proper := by decide
  have hthird : ∀ v ∈ [Value.string .bits8 [99]], v.Proper := by decide
  have hnone : Built ⟨⟨textColumn, [], 0, ⟨64, 0, false⟩, 0, true⟩, []⟩ := built_noTexts rfl
  have hone : Built ⟨⟨textColumn, [⟨64, 0, [6, 0, 0, 0, 1, 97], 1⟩], 1, ⟨64, 0, false⟩, 1, false⟩,
      [⟨0, 0, 0, 0, 1⟩]⟩ :=
    .step hnone (show Admits _ (.push [.string .bits8 [97]]) from hfirst) rfl
  have htwo : Built ⟨⟨textColumn, [⟨64, 0, [6, 0, 0, 0, 1, 97, 7, 0, 0, 0, 2, 98, 98], 2⟩], 2,
      ⟨64, 0, false⟩, 2, false⟩, [⟨1, 0, 1, 6, 2⟩, ⟨0, 0, 0, 0, 1⟩]⟩ :=
    .step hone (show Admits _ (.push [.string .bits8 [98, 98]]) from hsecond) rfl
  have hthree : Built ⟨⟨textColumn,
      [⟨64, 0, [6, 0, 0, 0, 1, 97, 7, 0, 0, 0, 2, 98, 98, 6, 0, 0, 0, 1, 99], 3⟩], 3,
      ⟨64, 0, false⟩, 3, false⟩, [⟨2, 0, 2, 13, 3⟩, ⟨1, 0, 1, 6, 2⟩, ⟨0, 0, 0, 0, 1⟩]⟩ :=
    .step htwo (show Admits _ (.push [.string .bits8 [99]]) from hthird) rfl
  have hstart : Built ⟨⟨textColumn,
      [⟨64, 0, [6, 0, 0, 0, 1, 97, 7, 0, 0, 0, 2, 98, 98, 6, 0, 0, 0, 1, 99], 3⟩], 3,
      ⟨64, 0, false⟩, 3, false⟩,
      [⟨0, 0, 0, 0, 3⟩, ⟨2, 0, 2, 13, 3⟩, ⟨1, 0, 1, 6, 2⟩, ⟨0, 0, 0, 0, 1⟩]⟩ :=
    .step hthree (show Admits _ .start from trivial) rfl
  exact .step hstart (show Admits _ (.remove ⟨0, 0, 0, 0, 3⟩) from List.mem_cons_self) rfl

/-- A text that is inserted in front of the two goes into the gap, and neither of them moves. -/
theorem side_moved_into_gap :
    ∃ (m : Memory) (b b' : Buffer) (span : b.Span) (side : Table.Side) (moved : Cursor),
      m.table = gapText.table ∧ m.buffer 0 = .ok b ∧ b.span 6 0 = .ok span ∧
      m.resizeSegment ⟨0, 0, 0, 6, 4⟩ 0 6 = .ok (m.setBuffer 0 b', moved) ∧
      span.Shifts 6 b' side ∧ span.load 6 side ≤ span.load 6 side.other := by
  have hproper : ∀ v ∈ [Value.string .bits8 [100]], v.Proper := by decide
  have hadmits : gapText.Admits (.insert ⟨0, 0, 0, 6, 4⟩ [.string .bits8 [100]]) :=
    ⟨List.mem_cons_self, hproper⟩
  have hresizes : gapText.Resizes (.insert ⟨0, 0, 0, 6, 4⟩ [.string .bits8 [100]])
      ⟨gapText.table, ⟨0, 0, 0, 6, 4⟩, 0, 6⟩ := .insert rfl rfl
  obtain ⟨-, hmoved⟩ := built_gapText.reachable.side_moved hadmits hresizes
  obtain ⟨b, span, hb, hspan, hmoves, hright⟩ := hmoved (.ofTable gapText.table) rfl
  have heither : span.EitherSide 6 := by
    cases hb
    obtain ⟨-, hsize⟩ := Buffer.Span.eq_of_span hspan
    rw [Buffer.Span.EitherSide, hsize]
    decide
  obtain ⟨side, b', moved, hrun, hshifts, hload⟩ := hmoves heither
  exact ⟨_, b, b', span, side, moved, rfl, hb, hspan, hrun, hshifts, hload.mpr (hright nofun)⟩

/-- The texts behind the gap as they may lie in memory. -/
def gapBuffer : Buffer := .ofChunk ⟨64, 6, [7, 0, 0, 0, 2, 98, 98, 6, 0, 0, 0, 1, 99], 2⟩

/-- The longer text. -/
def longerText : gapBuffer.Span := ⟨6, 7, by decide, by decide⟩

/-- The longer text grows, and its own seven bytes move into the gap, where the six bytes behind it
could have moved. -/
theorem larger_side_moved :
    ∃ (s : Session) (request : Request) (z : Resizing) (m : Memory) (b b' : Buffer)
      (span : b.Span) (moved : Cursor),
      s.Reachable ∧ s.Admits request ∧ s.Resizes request z ∧ m.table = z.table ∧
      m.buffer z.cursor.chunkIndex = .ok b ∧ b.span z.cursor.offset z.old = .ok span ∧
      span.EitherSide z.new ∧
      m.resizeSegment z.cursor z.old z.new =
        .ok (m.setBuffer z.cursor.chunkIndex b', moved) ∧
      span.Shifts z.new b' .head ∧ span.load z.new .tail = 6 ∧ span.load z.new .head = 7 := by
  have hproper : (Value.string .bits8 [98, 98, 98]).Proper := by decide
  have hadmits : gapText.Admits (.setField ⟨0, 0, 0, 6, 4⟩ 0 (.string .bits8 [98, 98, 98])) :=
    ⟨List.mem_cons_self, hproper⟩
  have hresizes : gapText.Resizes (.setField ⟨0, 0, 0, 6, 4⟩ 0 (.string .bits8 [98, 98, 98]))
      ⟨gapText.table, ⟨0, 0, 0, 6, 4⟩, 7, 8⟩ := .setField rfl rfl rfl
  have hb : (Memory.ofTable gapText.table).buffer 0 = .ok gapBuffer := rfl
  have hspan : gapBuffer.span 6 7 = .ok longerText := rfl
  have heither : longerText.EitherSide 8 := .inr (by decide)
  have hshifts : longerText.Shifts 8 (longerText.growHead 8) .head :=
    Buffer.Span.shifts_growHead (by decide) (by decide)
  exact ⟨gapText, _, _, .ofTable gapText.table, gapBuffer, _, longerText, _,
    built_gapText.reachable, hadmits, hresizes, rfl, hb, hspan, heither,
    Memory.resizeSegment_eq hb hspan rfl, hshifts, rfl, rfl⟩

end Session

end RecordStore
