import Mathlib
import RecordStore.Proofs.Table.Compaction
import RecordStore.Proofs.Table.Migration

/-!
# Chunks that are made for one record

A chunk of more than the usual size is made for a large record, and tailored if this record fills it
all alone. Every change keeps the chunks of a table tailored, unless it splits a chunk and other
records move along into a new chunk that gets larger than usual.
-/

namespace RecordStore.Table

open Record
open Block (contents)

variable {types : List ValueType} {chunkSize new : Nat} {way : Resize}

/-! ### What moves along -/

/-- How many bytes of other records move to another chunk with the segment. -/
def Resize.taken (way : Resize) (s : Segment) : Nat :=
  match way with
  | .splitHead => s.before.length
  | .splitTail => s.after.length
  | .keep | .shiftHead | .shiftTail | .reallocate => 0

/-- How many bytes of other records the resizing moves to another chunk. -/
def Resizing.taken (z : Resizing) : Except Fault Nat := do
  let c ← z.table.chunk z.cursor.chunkIndex
  let s ← c.cut z.cursor.offset z.old
  return (Resize.choose c s.before.length s.after.length z.old z.new).taken s

/-- No other record moves along, or all that moves fits into a chunk of the usual size. -/
def Resizing.Fits (z : Resizing) : Prop :=
  ∀ taken, z.taken = .ok taken → taken = 0 ∨ taken + z.new ≤ z.table.config.chunkSize

lemma Resizing.Fits.of_taken {z : Resizing} (h : z.taken = .ok 0) : z.Fits :=
  fun _ htaken => .inl (Except.ok.inj (htaken.symm.trans h))

lemma Opening.taken_eq (o : Opening types) (c : Cursor) {t : Table} (ht : t.chunks = o.chunks)
    (new : Nat) :
    Resizing.taken ⟨t, o.seat c, o.middle.length, new⟩ = .ok ((o.way new).taken o.segment) := by
  have hchunk : t.chunk (o.seat c).chunkIndex = .ok o.chunk := o.chunk_seat c ht
  simp only [Resizing.taken, hchunk, ok_bind, o.cut_chunk c]
  rfl

/-- Splitting a chunk at one of its ends takes nothing along, nor does shrinking. -/
lemma Opening.taken_way_of_after_eq_nil (o : Opening types) (h : o.after = []) (new : Nat) :
    (o.way new).taken o.segment = 0 := by
  have hafter : o.segment.after = [] := by
    rw [segment, h]
    rfl
  rw [way, Resize.choose, hafter, List.length_nil]
  split_ifs
  all_goals first | rfl | omega | exact congrArg List.length hafter

/-! ### Tailored chunks -/

/-- The chunk has no more than the usual size, or a single record fills it. -/
def Chunk.Tailored (chunkSize : Nat) (c : Chunk) : Prop :=
  c.capacity ≤ chunkSize ∨ c.numRecords = 1 ∧ c.live.length = c.capacity

def Tailored (t : Table) : Prop := ∀ c ∈ t.chunks, c.Tailored t.config.chunkSize

/-- A table without records is tailored. -/
lemma tailored_of_chunks_eq_nil {t : Table} (h : t.chunks = []) : t.Tailored := by
  rw [Tailored, h]
  exact List.forall_mem_nil _

/-- The record of a tailored block is alone if it is larger than a usual chunk. -/
lemma Block.records_eq_singleton {b : Block types} (h : b.chunk.Tailored chunkSize)
    {r : Stored types} (hr : r ∈ b.records) (hlarge : chunkSize < r.size) : b.records = [r] := by
  have hone : b.records.length = 1 := by
    rcases h with husual | ⟨hone, -⟩
    · have hroom := b.room
      obtain ⟨before, after, hrecords⟩ := List.append_of_mem hr
      rw [hrecords, List.flatMap_append, List.flatMap_cons, List.length_append, List.length_append,
        Stored.length_bytes] at hroom
      have hcapacity : b.capacity ≤ chunkSize := husual
      omega
    · exact hone
  obtain ⟨r', hrecords⟩ := List.length_eq_one_iff.mp hone
  rw [hrecords, List.mem_singleton] at hr
  rw [hrecords, hr]

/-- Packing makes tailored chunks. -/
lemma Snug.tailored {b : Block types} (h : Snug chunkSize b) : b.chunk.Tailored chunkSize := by
  rcases h.capacity_eq with hcapacity | ⟨r, hr, hcapacity⟩
  · exact .inl hcapacity.le
  · have hroom := b.room
    rw [hcapacity] at hroom
    have hone := length_eq_one_of_size_le hr ((Nat.le_add_left _ _).trans hroom)
    refine .inr ⟨hone, ?_⟩
    obtain ⟨r', hrecords⟩ := List.length_eq_one_iff.mp hone
    rw [hrecords, List.mem_singleton] at hr
    simp only [Block.chunk, Block.live, hrecords, List.flatMap_singleton, Stored.length_bytes,
      hcapacity, hr]

/-! ### Tailored openings -/

namespace Opening

variable {o o' : Opening types}

/-- All chunks but the open one are tailored. -/
def TailoredAround (chunkSize : Nat) (o : Opening types) : Prop :=
  ∀ b ∈ o.front ++ o.back, b.chunk.Tailored chunkSize

/-- The open chunk is ready for a middle of `new` bytes: it is tailored, or it is free of other
records and no larger than the middle needs. -/
def Ready (chunkSize new : Nat) (o : Opening types) : Prop :=
  o.chunk.Tailored chunkSize ∨ o.before ++ o.after = [] ∧ o.capacity ≤ max chunkSize new

/-- The open chunk has no more than the usual size, or the middle fills it. -/
def Filled (chunkSize : Nat) (o : Opening types) : Prop :=
  o.capacity ≤ chunkSize ∨ o.before ++ o.after = [] ∧ o.middle.length = o.capacity

/-- A record that fills the open chunk all alone is the middle, or it is in front of an empty one,
or behind it. -/
lemma full_cases (o : Opening types) (hcounted : o.counted = if o.middle.length = 0 then 0 else 1)
    (hone : o.chunk.numRecords = 1) (hlive : o.chunk.live.length = o.chunk.capacity) :
    (o.before = [] ∧ o.after = [] ∧ o.middle.length = o.capacity) ∨
      (o.before.length = 1 ∧ o.after = [] ∧ (o.before.flatMap Stored.bytes).length = o.capacity) ∨
      (o.before = [] ∧ o.after.length = 1 ∧
        (o.after.flatMap Stored.bytes).length = o.capacity) := by
  have hnumber : o.before.length + o.counted + o.after.length = 1 := hone
  have hfull : (o.before.flatMap Stored.bytes).length + o.middle.length +
      (o.after.flatMap Stored.bytes).length = o.capacity := by
    rw [← List.length_append, ← List.length_append]
    exact hlive
  by_cases hmiddle : o.middle.length = 0
  · rw [if_pos hmiddle] at hcounted
    rw [hmiddle, Nat.add_zero] at hfull
    by_cases hbefore : o.before = []
    · rw [hbefore] at hnumber hfull
      rw [List.length_nil] at hnumber
      rw [List.flatMap_nil, List.length_nil, Nat.zero_add] at hfull
      exact .inr (.inr ⟨hbefore, by omega, hfull⟩)
    · have hpos := List.length_pos_iff.mpr hbefore
      have hafter : o.after = [] := List.length_eq_zero_iff.mp (by omega)
      rw [hafter, List.flatMap_nil, List.length_nil, Nat.add_zero] at hfull
      exact .inr (.inl ⟨by omega, hafter, hfull⟩)
  · rw [if_neg hmiddle] at hcounted
    have hbefore : o.before = [] := List.length_eq_zero_iff.mp (by omega)
    have hafter : o.after = [] := List.length_eq_zero_iff.mp (by omega)
    rw [hbefore, hafter, List.flatMap_nil, List.length_nil, Nat.zero_add, Nat.add_zero] at hfull
    exact .inl ⟨hbefore, hafter, hfull⟩

/-- A middle that stays where it is, or is moved within its chunk, fills the chunk if the chunk was
made for it. -/
lemma Ready.filled_of_same_chunk (h : o.Ready chunkSize new)
    (hcounted : o.counted = if o.middle.length = 0 then 0 else 1) (hnew : o.middle.length ≤ new)
    (hpos : 0 < new) (hbefore : o'.before = o.before) (hafter : o'.after = o.after)
    (hmiddle : o'.middle.length = new) (hcapacity : o'.capacity = o.capacity) :
    o'.Filled chunkSize := by
  have hroom := o'.room
  rw [hbefore, hafter, hmiddle, hcapacity] at hroom
  rw [Filled, hbefore, hafter, hmiddle, hcapacity]
  rcases h with (husual | ⟨hone, hlive⟩) | ⟨hnone, hle⟩
  · exact .inl husual
  · -- a full chunk has room for the middle that it has, and for no other one
    rcases o.full_cases hcounted hone hlive with
      ⟨hbefore', hafter', hfull⟩ | ⟨-, -, hfull⟩ | ⟨-, -, hfull⟩
    · exact .inr ⟨by rw [hbefore', hafter']; rfl, by omega⟩
    · omega
    · omega
  · rcases le_max_iff.mp hle with husual | hneeded
    · exact .inl husual
    · exact .inr ⟨hnone, by omega⟩

/-- What is left of the open chunk by a split is tailored. -/
lemma Ready.tailored_rest (h : o.Ready chunkSize new)
    (hcounted : o.counted = if o.middle.length = 0 then 0 else 1) {b : Block types}
    (hcapacity : b.capacity = o.capacity)
    (hrecords : b.records = o.after ∨ b.records = o.before) : b.chunk.Tailored chunkSize := by
  have hsome := b.occupied
  rcases h with (husual | ⟨hone, hlive⟩) | ⟨hnone, -⟩
  · exact .inl (hcapacity.trans_le husual)
  · have hfills : b.records.length = 1 ∧ (b.records.flatMap Stored.bytes).length = o.capacity := by
      rcases o.full_cases hcounted hone hlive with
        ⟨hbefore, hafter, -⟩ | ⟨hlength, hafter, hfull⟩ | ⟨hbefore, hlength, hfull⟩
      · exact absurd (hrecords.elim (·.trans hafter) (·.trans hbefore)) hsome
      · rw [hrecords.resolve_left fun h => hsome (h.trans hafter)]
        exact ⟨hlength, hfull⟩
      · rw [hrecords.resolve_right fun h => hsome (h.trans hbefore)]
        exact ⟨hlength, hfull⟩
    exact .inr ⟨hfills.1, hfills.2.trans hcapacity.symm⟩
  · obtain ⟨hbefore, hafter⟩ := List.append_eq_nil_iff.mp hnone
    exact absurd (hrecords.elim (·.trans hafter) (·.trans hbefore)) hsome

/-- A new chunk that takes nothing along is filled by the middle if it is larger than usual. -/
lemma filled_of_taken {taken : Nat} (hfits : taken = 0 ∨ taken + new ≤ chunkSize)
    (hcapacity : o'.capacity = max chunkSize (taken + new)) (hmiddle : o'.middle.length = new)
    (htaken : taken = 0 → o'.before ++ o'.after = []) : o'.Filled chunkSize := by
  rcases hfits with hnone | hle
  · rcases le_total new chunkSize with husual | hlarge
    · refine .inl ?_
      rw [hcapacity, hnone, Nat.zero_add]
      exact max_le le_rfl husual
    · refine .inr ⟨htaken hnone, ?_⟩
      rw [hmiddle, hcapacity, hnone, Nat.zero_add, Nat.max_eq_right hlarge]
  · exact .inl (hcapacity.trans_le (max_le le_rfl hle))

/-- Growth leaves tailored chunks around a chunk that is filled, if all that moves along fits. -/
theorem Becomes.filled (h : o.Becomes chunkSize new way o')
    (hcounted : o.counted = if o.middle.length = 0 then 0 else 1) (hnew : o.middle.length ≤ new)
    (hpos : 0 < new) (haround : o.TailoredAround chunkSize) (hready : o.Ready chunkSize new)
    (hfits : way.taken o.segment = 0 ∨ way.taken o.segment + new ≤ chunkSize) :
    o'.TailoredAround chunkSize ∧ o'.Filled chunkSize := by
  have hlength : (o.middle.resize new).length = new := Bytes.length_resize _ _
  cases h with
  | keep h => exact ⟨haround, hready.filled_of_same_chunk hcounted hnew hpos rfl rfl h.symm rfl⟩
  | shiftHead | shiftTail =>
    exact ⟨haround, hready.filled_of_same_chunk hcounted hnew hpos rfl rfl hlength rfl⟩
  | reallocate =>
    refine ⟨haround, filled_of_taken (.inl rfl) ?_ hlength fun _ => rfl⟩
    rw [Nat.zero_add]
    rfl
  | splitHead hafter =>
    refine ⟨?_, filled_of_taken hfits rfl hlength fun hnone => ?_⟩
    · intro b hb
      rcases List.mem_append.mp hb with hb | hb
      · exact haround b (List.mem_append_left _ hb)
      · rcases List.mem_cons.mp hb with rfl | hb
        · exact hready.tailored_rest hcounted rfl (.inl rfl)
        · exact haround b (List.mem_append_right _ hb)
    · change o.before ++ [] = []
      rw [List.append_nil]
      exact eq_nil_of_length_flatMap hnone
  | splitTail hbefore =>
    refine ⟨?_, filled_of_taken hfits ?_ hlength fun hnone => ?_⟩
    · intro b hb
      rcases List.mem_append.mp hb with hb | hb
      · rcases List.mem_append.mp hb with hb | hb
        · exact haround b (List.mem_append_left _ hb)
        · rw [List.mem_singleton.mp hb]
          exact hready.tailored_rest hcounted rfl (.inr rfl)
      · exact haround b (List.mem_append_right _ hb)
    · change max chunkSize (new + (o.after.flatMap Stored.bytes).length) = _
      rw [Nat.add_comm]
      rfl
    · change [] ++ o.after = []
      rw [List.nil_append]
      exact eq_nil_of_length_flatMap hnone

/-- A record that is written over the middle of a filled chunk leaves tailored chunks. -/
lemma tailored_close (haround : o.TailoredAround chunkSize) (hfilled : o.Filled chunkSize)
    (r : Stored types) (hlength : o.middle.length = r.size) :
    ∀ b ∈ o.close r hlength, b.chunk.Tailored chunkSize := by
  intro b hb
  rcases List.mem_append.mp hb with hb | hb
  · exact haround b (List.mem_append_left _ hb)
  rcases List.mem_cons.mp hb with rfl | hb
  · rcases hfilled with husual | ⟨hnone, hfull⟩
    · exact .inl husual
    · obtain ⟨hbefore, hafter⟩ := List.append_eq_nil_iff.mp hnone
      refine .inr ⟨?_, ?_⟩
      · simp only [Block.chunk, hbefore, hafter, List.nil_append, List.length_singleton]
      · simp only [Block.chunk, Block.live, hbefore, hafter, List.nil_append,
          List.flatMap_singleton, Stored.length_bytes, ← hlength, hfull]
  · exact haround b (List.mem_append_right _ hb)

/-- A middle that has taken others along is not alone. -/
lemma Becomes.others_ne_nil (h : o.Becomes chunkSize new way o')
    (htaken : 0 < way.taken o.segment) : o'.before ++ o'.after ≠ [] := by
  have hne : ∀ records : List (Stored types), 0 < (records.flatMap Stored.bytes).length →
      records ≠ [] := by
    rintro records hpos rfl
    exact Nat.lt_irrefl 0 hpos
  cases h with
  | keep | shiftHead | shiftTail | reallocate => exact absurd htaken (Nat.lt_irrefl 0)
  | splitHead => exact List.append_ne_nil_of_left_ne_nil (hne _ htaken) _
  | splitTail => exact List.append_ne_nil_of_right_ne_nil _ (hne _ htaken)

/-- A segment that shrinks stays in its chunk. -/
lemma way_of_lt (h : new < o.middle.length) : o.way new = .shiftHead ∨ o.way new = .shiftTail := by
  rw [way, Resize.choose, if_neg h.ne, if_pos h]
  split_ifs
  · exact .inl rfl
  · exact .inr rfl

/-- Cutting out a record leaves tailored chunks. -/
lemma Becomes.tailored_cleared (h : o.Becomes chunkSize 0 (o.way 0) o') (hcounted : o.counted = 1)
    (hmiddle : 0 < o.middle.length) (haround : o.TailoredAround chunkSize)
    (hchunk : o.chunk.Tailored chunkSize) : ∀ b ∈ o'.cleared, b.chunk.Tailored chunkSize := by
  have hsame : o'.front = o.front ∧ o'.back = o.back ∧ o'.before = o.before ∧
      o'.after = o.after ∧ o'.capacity = o.capacity := by
    rcases way_of_lt hmiddle with hway | hway <;> rw [hway] at h <;> cases h
    · exact ⟨rfl, rfl, rfl, rfl, rfl⟩
    · exact ⟨rfl, rfl, rfl, rfl, rfl⟩
  obtain ⟨hfront, hback, hbefore, hafter, hcapacity⟩ := hsame
  have haround' : o'.TailoredAround chunkSize := by
    rw [TailoredAround, hfront, hback]
    exact haround
  intro b hb
  rw [cleared] at hb
  split_ifs at hb with hempty
  · exact haround' b hb
  rcases List.mem_append.mp hb with hb | hb
  · exact haround' b (List.mem_append_left _ hb)
  rcases List.mem_cons.mp hb with rfl | hb
  · -- a chunk that is filled by the record has no other one
    rcases hchunk with husual | ⟨hone, -⟩
    · exact .inl (hcapacity.trans_le husual)
    · have hnumber : o.before.length + o.counted + o.after.length = 1 := hone
      refine absurd ?_ hempty
      rw [← List.length_eq_zero_iff, List.length_append, hbefore, hafter]
      omega
  · exact haround' b (List.mem_append_right _ hb)

/-- In a tailored table every opening is ready. -/
lemma ready_of_tailored {t : Table} (h : t.Tailored) (ht : t.chunks = o.chunks) (new : Nat) :
    o.TailoredAround t.config.chunkSize ∧ o.Ready t.config.chunkSize new := by
  have hchunks : ∀ k ∈ o.chunks, k.Tailored t.config.chunkSize := ht ▸ h
  refine ⟨fun b hb => hchunks _ ?_, .inl (hchunks _ ?_)⟩
  · rcases List.mem_append.mp hb with hb | hb
    · exact List.mem_append_left _ (List.mem_map_of_mem hb)
    · exact List.mem_append_right _ (List.mem_cons_of_mem _ (List.mem_map_of_mem hb))
  · exact List.mem_append_right _ List.mem_cons_self

lemma ready_first (chunkSize new : Nat) :
    (first (max chunkSize new) : Opening types).TailoredAround chunkSize ∧
      (first (max chunkSize new) : Opening types).Ready chunkSize new :=
  ⟨List.forall_mem_nil _, .inr ⟨rfl, le_rfl⟩⟩

end Opening

/-! ### Tailored tables -/

variable {t : Table} {blocks : List (Block types)} {c : Cursor} {result : Table × Cursor}

lemma tailored_of_chunks_eq (hchunks : t.chunks = blocks.map Block.chunk)
    (h : ∀ b ∈ blocks, b.chunk.Tailored t.config.chunkSize) : t.Tailored := by
  intro k hk
  rw [hchunks] at hk
  obtain ⟨b, hb, rfl⟩ := List.mem_map.mp hk
  exact h b hb

/-- The record `r` is written over the segment of a resizing that opens the table at `o` and makes
`o'` of it. -/
structure Writes (t : Table) (z : Resizing) (o o' : Opening types) (r : Stored types) (t' : Table) :
    Prop where
  opened : t.chunks = o.chunks ∨ o = .first (max t.config.chunkSize z.new)
  taken_eq : z.taken = .ok ((o.way z.new).taken o.segment)
  counted_eq : o.counted = if o.middle.length = 0 then 0 else 1
  grows : o.middle.length ≤ z.new
  becomes : o.Becomes t.config.chunkSize z.new (o.way z.new) o'
  size_eq : z.new = r.size
  closed : ∃ hlength : o'.middle.length = r.size, t'.chunks = (o'.close r hlength).map Block.chunk
  usual_eq : z.table.config = t.config
  config_eq : t'.config = t.config

namespace Writes

variable {z : Resizing} {o o' : Opening types} {r : Stored types} {t' : Table}

/-- A table stays tailored if all that moves along with the record fits. -/
theorem tailored (h : Writes t z o o' r t') (htailored : t.Tailored) (hfits : z.Fits) :
    t'.Tailored := by
  have hready : o.TailoredAround t.config.chunkSize ∧ o.Ready t.config.chunkSize z.new := by
    rcases h.opened with hsame | rfl
    · exact Opening.ready_of_tailored htailored hsame _
    · exact Opening.ready_first _ _
  have htaken := hfits _ h.taken_eq
  rw [h.usual_eq] at htaken
  obtain ⟨haround, hfilled⟩ := h.becomes.filled h.counted_eq h.grows (h.size_eq ▸ r.size_pos)
    hready.1 hready.2 htaken
  obtain ⟨hlength, hchunks⟩ := h.closed
  refine tailored_of_chunks_eq hchunks ?_
  rw [h.config_eq]
  exact Opening.tailored_close haround hfilled r hlength

/-- A record that takes others along is not alone. -/
theorem exists_crowded (h : Writes t z o o' r t') {taken : Nat} (htaken : z.taken = .ok taken)
    (hpos : 0 < taken) : ∃ b : Block types, b.chunk ∈ t'.chunks ∧ r ∈ b.records ∧
      1 < b.records.length := by
  obtain rfl := Except.ok.inj (htaken.symm.trans h.taken_eq)
  obtain ⟨hlength, hchunks⟩ := h.closed
  obtain ⟨b, hb, hrecords⟩ : ∃ b ∈ o'.close r hlength, b.records = o'.before ++ r :: o'.after :=
    ⟨_, List.mem_append_right _ List.mem_cons_self, rfl⟩
  refine ⟨b, hchunks ▸ List.mem_map_of_mem hb, ?_, ?_⟩
  · rw [hrecords]
    exact List.mem_append_right _ List.mem_cons_self
  · have hothers := h.becomes.others_ne_nil hpos
    rw [Ne, ← List.length_eq_zero_iff, List.length_append] at hothers
    rw [hrecords, List.length_append, List.length_cons]
    omega

end Writes

namespace Holds

/-- An insertion writes its record into the room that it has made. -/
theorem exists_insert_writes (h : t.Holds blocks) (hcurrent : t.isCurrent c = true)
    (hc : Seated blocks c) {values : List Value} (hvalues : ∀ v ∈ values, v.Proper)
    (hrun : t.insert c values = .ok result) :
    ∃ (z : Resizing) (o o' : Opening types) (r : Stored types),
      t.roomFor c (reserveSize types values t.config.minStringReserve) = .ok z ∧
        Writes t z o o' r result.1 := by
  have hposition : t.isPosition c = true := (h.isPosition_iff fun _ => hc).mpr ⟨hcurrent, hc⟩
  obtain ⟨o, o', hroom, hmiddle, hcounted, hdivides, hopened, hbecomes, hmake⟩ :=
    h.makeRoom_becomes hc (reserveSize types values t.config.minStringReserve)
  have hresized := hbecomes.resized
  have hmiddle' : o'.middle = Bytes.zeros (reserveSize types values t.config.minStringReserve) := by
    rw [hresized.middle_eq, hmiddle, Bytes.resize_nil]
  obtain ⟨r, hlength, hfresh, hchunks, hedited⟩ := (h.insert_closes hposition hvalues hmake hmiddle'
    (hresized.counted_eq.trans hcounted) (hresized.divides hdivides)).post_of_ok hrun
  have hzero : o.middle.length = 0 := by
    rw [hmiddle]
    rfl
  have htaken := o.taken_eq c (t := { t with chunks := o.chunks }) rfl
    (reserveSize types values t.config.minStringReserve)
  rw [hzero] at htaken
  refine ⟨_, o, o', r, hroom, hopened, htaken, ?_, ?_, hbecomes, hfresh.size_eq.symm,
    ⟨hlength, hchunks⟩, rfl, hedited.config_eq⟩
  · rw [hzero]
    exact hcounted
  · exact hzero.trans_le (Nat.zero_le _)

/-- A record with another field is written into the room that it has made. -/
theorem exists_setField_writes (h : t.Holds blocks) (hcurrent : t.isCurrent c = true)
    (hc : Seated blocks c) {r : Stored types} (hr : (contents blocks)[c.index]? = some r)
    {column : Nat} {type : ValueType} (ht : types[column]? = some type)
    (hnull : type.isNull = false) {value : Value} (hvalue : value.Proper)
    (hrun : t.setField c column value = .ok result) :
    ∃ (z : Resizing) (o o' : Opening types) (r' : Stored types),
      t.fieldRoom c column (Field.encode type (value.convertTo type)) = .ok z ∧
        Writes t z o o' r' result.1 := by
  have hlt := (List.getElem?_eq_some_iff.mp hr).1
  have hvalid : t.isValid c = true := (h.isValid_iff fun _ => hc).mpr ⟨hcurrent, hc, hlt⟩
  obtain ⟨legible, -⟩ := (h.setField_yields hcurrent hc hr ht hnull hvalue).post_of_ok hrun
  obtain ⟨old, hold, -⟩ := r.exists_field ht
  obtain ⟨o, o', hseat, hsame, hmiddle, hcounted, hbecomes, hcovers, hresize⟩ :=
    h.resizeSegment_around hc hr
      (r.sizeWith old.length (Field.encode type (value.convertTo type)).length)
  have hresized := hbecomes.resized
  have hyields := h.setField_closes hc hr legible hvalid ht hnull hvalue hold rfl
    (hmiddle ▸ hresized.middle_eq) (hresized.counted_eq.trans hcounted) hcovers hresize
  obtain ⟨r', hlength, hchanged, hchunks, hedited⟩ := hyields.post_of_ok hrun
  have hsize : o.middle.length = r.size := by rw [hmiddle, r.length_bytes]
  have htaken := o.taken_eq c hsame
    (r.sizeWith old.length (Field.encode type (value.convertTo type)).length)
  rw [hseat, hsize] at htaken
  refine ⟨_, o, o', r', h.fieldRoom_eq hc hr legible ht hold _, .inl hsame, htaken, ?_, ?_,
    hbecomes, ?_, ⟨hlength, hchunks⟩, rfl, hedited.config_eq⟩
  · rw [hsize, if_neg r.size_pos.ne', hcounted]
  · exact hsize.trans_le (r.size_le_sizeWith hold _)
  · rw [hchanged.size_eq, hold]
    rfl

/-- Removing a record keeps a table tailored. -/
theorem remove_tailored (h : t.Holds blocks) (htailored : t.Tailored)
    (hcurrent : t.isCurrent c = true) (hc : Seated blocks c)
    (hlt : c.index < (contents blocks).length) (hrun : t.remove c = .ok result) :
    result.1.Tailored := by
  have hvalid : t.isValid c = true := (h.isValid_iff fun _ => hc).mpr ⟨hcurrent, hc, hlt⟩
  obtain ⟨r, hr⟩ : ∃ r, (contents blocks)[c.index]? = some r :=
    ⟨_, List.getElem?_eq_getElem hlt⟩
  obtain ⟨o, o', -, hsame, hmiddle, hcounted, hbecomes, hcovers, hresize⟩ :=
    h.resizeSegment_around hc hr 0
  have hresized := hbecomes.resized
  have hmiddle' : o'.middle = [] := by
    rw [hresized.middle_eq, Bytes.resize, List.take_zero, Nat.zero_sub]
    rfl
  obtain ⟨result', hrun', hchunks, hedited⟩ :=
    h.remove_clears hc hr hvalid hmiddle' (hresized.counted_eq.trans hcounted) hcovers hresize
  obtain rfl := Except.ok.inj (hrun.symm.trans hrun')
  have hready := Opening.ready_of_tailored htailored hsame 0
  have hchunk : o.chunk.Tailored t.config.chunkSize := htailored _ (by
    rw [hsame]
    exact List.mem_append_right _ List.mem_cons_self)
  refine tailored_of_chunks_eq hchunks ?_
  rw [hedited.config_eq]
  refine hbecomes.tailored_cleared hcounted ?_ hready.1 hchunk
  rw [hmiddle, r.length_bytes]
  exact r.size_pos

/-- Nothing moves along with a record that is cut out. -/
lemma taken_of_remove (h : t.Holds blocks) (hc : Seated blocks c) {r : Stored types}
    (hr : (contents blocks)[c.index]? = some r) : Resizing.taken ⟨t, c, r.size, 0⟩ = .ok 0 := by
  obtain ⟨o, hseat, hchunks, hmiddle, -⟩ := h.exists_around hc hr
  have htaken := o.taken_eq c hchunks 0
  have hsize : 0 < o.middle.length := by
    rw [hmiddle, r.length_bytes]
    exact r.size_pos
  rw [hseat, hmiddle, r.length_bytes] at htaken
  rw [htaken]
  rcases Opening.way_of_lt hsize with hway | hway <;> rw [hway] <;> rfl

/-- Nothing moves along with a record at the end of the table. -/
lemma taken_of_roomFor_endCursor (h : t.Holds blocks) {size : Nat} {z : Resizing}
    (hz : t.roomFor t.endCursor size = .ok z) : z.taken = .ok 0 := by
  obtain ⟨o, hroom, hmiddle, -, hdivides, -⟩ := h.roomFor_eq h.seated_endCursor size
  obtain rfl := Except.ok.inj (hz.symm.trans hroom)
  have hbehind : o.behind = [] := by
    have hindex : t.endCursor.index = (contents blocks).length := h.count_eq
    rw [hdivides.index_eq, hdivides.records_eq, List.length_append] at hindex
    exact List.length_eq_zero_iff.mp (by omega)
  have htaken := o.taken_eq t.endCursor (t := { t with chunks := o.chunks }) rfl size
  rw [hmiddle, o.taken_way_of_after_eq_nil (List.append_eq_nil_iff.mp hbehind).1] at htaken
  exact htaken

/-- Appending a record keeps a table tailored. -/
theorem push_tailored (h : t.Holds blocks) (htailored : t.Tailored) {values : List Value}
    (hvalues : ∀ v ∈ values, v.Proper) (hrun : t.push values = .ok result) : result.1.Tailored := by
  obtain ⟨z, o, o', r, hroom, hwrites⟩ :=
    h.exists_insert_writes (isCurrent_iff.mpr rfl) h.seated_endCursor hvalues hrun
  exact hwrites.tailored htailored (.of_taken (h.taken_of_roomFor_endCursor hroom))

lemma pushAll_tailored (h : t.Holds blocks) (htailored : t.Tailored) {rows : List (List Value)}
    (hrows : ∀ row ∈ rows, ∀ v ∈ row, v.Proper) {t' : Table} (hrun : t.pushAll rows = .ok t') :
    t'.Tailored := by
  induction rows generalizing t blocks with
  | nil =>
    obtain rfl := Except.ok.inj hrun
    exact htailored
  | cons row rows ih =>
    obtain ⟨hrow, hrows⟩ := List.forall_mem_cons.mp hrows
    rw [pushAll, List.foldlM_cons] at hrun
    obtain ⟨t₁, hpush, hrest⟩ := exists_of_bind_ok hrun
    obtain ⟨result, hpushed, rfl⟩ := exists_of_map_ok hpush
    obtain ⟨r, -, hedited⟩ := (h.push_yields hrow).post_of_ok hpushed
    obtain ⟨blocks', hholds, -⟩ := hedited.layout
    exact ih hholds (h.push_tailored htailored hrow hpushed) hrows hrest

/-- Adopting another schema keeps a table tailored: all rows are appended anew, or none. -/
theorem configure_tailored (h : t.Holds blocks) (htailored : t.Tailored) {schema : Schema}
    {changed : Bool} {t' : Table} (hrun : t.configure schema = .ok (changed, t')) :
    t'.Tailored := by
  have hempty : (t.emptied schema).Tailored := tailored_of_chunks_eq_nil rfl
  by_cases hsame : t.schema.types = schema.types
  · rw [configure_of_same hsame] at hrun
    cases hrun
    exact htailored
  · by_cases hsize : types.length = schema.types.length
    · rw [h.configure_of_size_eq hsame hsize] at hrun
      obtain ⟨rows, hrows, hrest⟩ := exists_of_bind_ok hrun
      obtain rfl := h.eq_of_values hrows
      obtain ⟨t'', hpushed, heq⟩ := exists_of_map_ok hrest
      obtain rfl := (Prod.mk.inj heq).2
      refine (holds_emptied t schema).pushAll_tailored hempty ?_ hpushed
      simp only [List.forall_mem_map]
      exact fun r _ => proper_truncateRow schema.types r.proper_values
    · rw [h.configure_of_size_ne hsame hsize] at hrun
      cases hrun
      exact hempty

/-- A table that is packed is tailored, whatever it was before. -/
theorem optimize_tailored (h : t.Holds blocks) (hcompact : t.compact = false) {t' : Table}
    (hrun : t.optimize = .ok t') : t'.Tailored := by
  obtain ⟨blocks', hrun', -, hpacked⟩ :=
    h.optimize_eq (h.legible_of_optimize hcompact hrun) hcompact
  obtain rfl := Except.ok.inj (hrun.symm.trans hrun')
  exact tailored_of_chunks_eq rfl fun b hb => (hpacked.snug b hb).tailored

end Holds

end RecordStore.Table
