import Mathlib
import RecordStore.Proofs.Table.Layout
import RecordStore.Table.Edit

/-!
# Packing a sound table

Packing lays the records, without their slack, into chunks that start with no free space in front.
The table is sound again and stands for the same rows.
-/

namespace RecordStore.Table

open Record
open Block (contents)

variable {types : List ValueType}

/-! ### Filling chunks -/

/-- A chunk that has taken records from its start on. -/
def filled (capacity : Nat) (records : List (Stored types)) : Chunk :=
  ⟨capacity, 0, records.flatMap Stored.bytes, records.length⟩

lemma numRecords_filled {capacity : Nat} {records : List (Stored types)} :
    (filled capacity records).numRecords = 0 ↔ records = [] := List.length_eq_zero_iff

lemma push_filled (capacity : Nat) (records : List (Stored types)) (r : Stored types) :
    (filled capacity records).push r.bytes = filled capacity (records ++ [r]) := by
  simp only [Chunk.push, filled, List.flatMap_append, List.flatMap_singleton, List.length_append,
    List.length_singleton]

/-- A filled chunk as a block. -/
def fill (capacity : Nat) (records : List (Stored types)) (h : records ≠ [])
    (room : (records.flatMap Stored.bytes).length ≤ capacity) : Block types where
  capacity := capacity
  head := 0
  records := records
  occupied := h
  room := by rwa [Nat.zero_add]

/-- A chunk that starts at the front of a buffer of the usual size, or of the size of a record. -/
structure Snug (chunkSize : Nat) (b : Block types) : Prop where
  head_eq : b.head = 0
  capacity_eq : b.capacity = chunkSize ∨ ∃ r ∈ b.records, b.capacity = r.size

lemma snug_fill {chunkSize capacity : Nat} {records : List (Stored types)}
    (hcapacity : capacity = chunkSize ∨ ∃ r ∈ records, capacity = r.size) (h : records ≠ [])
    (room : (records.flatMap Stored.bytes).length ≤ capacity) :
    Snug chunkSize (fill capacity records h room) :=
  ⟨rfl, hcapacity⟩

/-- The records go into blocks in order, behind those that the current chunk has taken. -/
theorem packFrom_eq (chunkSize : Nat) (records taken : List (Stored types)) {capacity : Nat}
    (room : (taken.flatMap Stored.bytes).length ≤ capacity)
    (hcapacity : capacity = chunkSize ∨ ∃ r ∈ taken, capacity = r.size) :
    ∃ blocks : List (Block types),
      packFrom chunkSize (filled capacity taken) (records.map Stored.bytes) =
          blocks.map Block.chunk ∧
        contents blocks = taken ++ records ∧ ∀ b ∈ blocks, Snug chunkSize b := by
  induction records generalizing capacity taken with
  | nil =>
    rw [List.map_nil, packFrom]
    split_ifs with hnone
    · refine ⟨[], rfl, ?_, fun _ hb => absurd hb List.not_mem_nil⟩
      rw [numRecords_filled.mp hnone]
      rfl
    · refine ⟨[fill capacity taken (mt numRecords_filled.mpr hnone) room], rfl, rfl, ?_⟩
      · intro b hb
        rw [List.mem_singleton.mp hb]
        exact snug_fill hcapacity _ _
  | cons r records ih =>
    have htail : (filled capacity taken).spaceTail =
        capacity - (taken.flatMap Stored.bytes).length := by
      rw [Chunk.spaceTail, Chunk.tail]
      simp only [filled, Nat.zero_add]
    have hnext : (Chunk.empty (max chunkSize r.bytes.length)).push r.bytes =
        filled (max chunkSize r.bytes.length) [r] :=
      push_filled (max chunkSize r.bytes.length) [] r
    have halone : ([r].flatMap Stored.bytes).length ≤ max chunkSize r.bytes.length := by
      rw [List.flatMap_singleton]
      exact Nat.le_max_right _ _
    have hown : max chunkSize r.bytes.length = chunkSize ∨
        ∃ r' ∈ [r], max chunkSize r.bytes.length = r'.size := by
      rw [r.length_bytes]
      rcases max_choice chunkSize r.size with hmax | hmax
      · exact .inl hmax
      · exact .inr ⟨r, List.mem_singleton_self r, hmax⟩
    rw [List.map_cons, packFrom, htail, hnext]
    split_ifs with hfull hnone
    · -- The current chunk is still empty, and the record gets a chunk of its own size.
      obtain ⟨blocks, hblocks, hcontents, hsnug⟩ := ih [r] halone hown
      refine ⟨blocks, hblocks, ?_, hsnug⟩
      rw [hcontents, numRecords_filled.mp hnone]
      rfl
    · -- The current chunk is closed.
      obtain ⟨blocks, hblocks, hcontents, hsnug⟩ := ih [r] halone hown
      refine ⟨fill capacity taken (mt numRecords_filled.mpr hnone) room :: blocks, ?_, ?_, ?_⟩
      · exact congrArg (filled capacity taken :: ·) hblocks
      · rw [Block.contents_cons, hcontents]
        rfl
      · exact List.forall_mem_cons.mpr ⟨snug_fill hcapacity _ _, hsnug⟩
    · have hroom : ((taken ++ [r]).flatMap Stored.bytes).length ≤ capacity := by
        rw [List.flatMap_append, List.flatMap_singleton, List.length_append]
        omega
      have hcapacity' : capacity = chunkSize ∨ ∃ r' ∈ taken ++ [r], capacity = r'.size :=
        hcapacity.imp_right fun ⟨r', hr', hsize⟩ => ⟨r', List.mem_append_left _ hr', hsize⟩
      rw [push_filled]
      obtain ⟨blocks, hblocks, hcontents, hsnug⟩ := ih (taken ++ [r]) hroom hcapacity'
      refine ⟨blocks, hblocks, ?_, hsnug⟩
      rw [hcontents, List.append_assoc]
      rfl

/-- A chunk is closed only where it and the next record are more than a chunk takes, so two chunks
in a row are more than one full chunk. -/
lemma length_packFrom_le {chunkSize : Nat} {current : Chunk} (records : List Bytes)
    (hhead : current.head = 0) (hcapacity : chunkSize ≤ current.capacity) :
    (chunkSize + 1) * (packFrom chunkSize current records).length ≤
      chunkSize + 1 + current.live.length + 2 * (records.map List.length).sum := by
  induction records generalizing current with
  | nil =>
    rw [packFrom]
    split_ifs
    · exact Nat.zero_le _
    · simp only [List.length_singleton, Nat.mul_one]
      omega
  | cons record records ih =>
    have hown : chunkSize ≤ max chunkSize record.length := Nat.le_max_left _ _
    have hnext := @ih ((Chunk.empty (max chunkSize record.length)).push record) rfl hown
    have hsame := @ih (current.push record) hhead hcapacity
    have htail : current.spaceTail = current.capacity - current.live.length := by
      rw [Chunk.spaceTail, Chunk.tail, hhead, Nat.zero_add]
    simp only [Chunk.push, Chunk.empty, List.nil_append, List.length_append] at hnext hsame
    simp only [packFrom, htail, List.map_cons, List.sum_cons, Chunk.push, Chunk.empty,
      List.nil_append]
    split_ifs with hfull hnone
    · omega
    · rw [List.length_cons, Nat.mul_succ]
      omega
    · omega

/-- What packing leaves: the records in order, chunks that are snug, and not many of them. -/
structure Packed (chunkSize : Nat) (records : List (Stored types)) (blocks : List (Block types)) :
    Prop where
  contents_eq : contents blocks = records
  snug : ∀ b ∈ blocks, Snug chunkSize b
  count_le : (chunkSize + 1) * blocks.length ≤
    chunkSize + 1 + 2 * (records.map Stored.size).sum

theorem pack_eq (chunkSize : Nat) (records : List (Stored types)) :
    ∃ blocks : List (Block types),
      pack chunkSize (records.map Stored.bytes) = blocks.map Block.chunk ∧
        Packed chunkSize records blocks := by
  obtain ⟨blocks, hblocks, hcontents, hsnug⟩ :=
    @packFrom_eq types chunkSize records [] chunkSize (Nat.zero_le _) (.inl rfl)
  refine ⟨blocks, hblocks, hcontents, hsnug, ?_⟩
  have hcount :=
    @length_packFrom_le chunkSize (.empty chunkSize) (records.map Stored.bytes) rfl le_rfl
  have hsizes : (records.map Stored.bytes).map List.length = records.map Stored.size := by
    rw [List.map_map]
    exact List.map_congr_left fun r _ => r.length_bytes
  have hlength := congrArg List.length hblocks
  rw [List.length_map] at hlength
  rw [hsizes] at hcount
  rw [← hlength]
  exact hcount

/-! ### Packing a table -/

namespace Holds

variable {t : Table} {blocks : List (Block types)}

/-- All records are found. -/
lemma mapM_records (h : t.Holds blocks) :
    ∃ records, t.chunks.mapM Chunk.records = .ok records ∧
      records.flatten = (contents blocks).map Stored.bytes := by
  refine ⟨blocks.map fun b => b.records.map Stored.bytes, ?_, ?_⟩
  · rw [h.chunks_eq, List.mapM_map]
    exact mapM_ok fun b _ => b.records_chunk
  · rw [contents, ← List.flatMap_def, List.map_flatMap]

/-- All records lose their slack. -/
lemma denseRecords_eq (h : t.Holds blocks) (legible : ∀ r ∈ contents blocks, r.Legible) :
    t.denseRecords = .ok ((contents blocks).map fun r => r.trim.bytes) := by
  obtain ⟨records, hrecords, hflatten⟩ := h.mapM_records
  rw [denseRecords, hrecords, ok_bind, hflatten, h.types_eq, List.mapM_map]
  exact mapM_ok fun r hr => Stored.dense_bytes (legible r hr)

/-- The slack of a record that is not legible is not told from its fields. -/
lemma garbled_denseRecords (h : t.Holds blocks) (illegible : ¬ ∀ r ∈ contents blocks, r.Legible) :
    Garbled t.denseRecords := by
  have hgarbled : ∀ r : Stored types, ¬ r.Legible → Garbled (dense types r.bytes) :=
    fun r hr => (Stored.garbled_dataSize hr).bind _
  obtain ⟨records, hrecords, hflatten⟩ := h.mapM_records
  rw [denseRecords, hrecords, ok_bind, hflatten, h.types_eq, List.mapM_map]
  refine mapM_garbled ?_ ?_
  · intro r _
    by_cases hlegible : r.Legible
    · exact .inl ⟨_, Stored.dense_bytes hlegible⟩
    · exact .inr (hgarbled r hlegible)
  · obtain ⟨r, hr, hlegible⟩ : ∃ r ∈ contents blocks, ¬ r.Legible := by simpa using illegible
    exact ⟨r, hr, hgarbled r hlegible⟩

lemma optimize_of_compact (h : t.compact = true) : t.optimize = .ok t := by
  rw [optimize, h]
  rfl

/-- A table that is not compact is not packed if a record is not legible. -/
lemma garbled_optimize (h : t.Holds blocks) (hcompact : t.compact = false)
    (illegible : ¬ ∀ r ∈ contents blocks, r.Legible) : Garbled t.optimize := by
  rw [optimize, hcompact]
  exact (h.garbled_denseRecords illegible).bind _

/-- So the records of a table that has been packed are legible. -/
lemma legible_of_optimize (h : t.Holds blocks) (hcompact : t.compact = false) {t' : Table}
    (hrun : t.optimize = .ok t') : ∀ r ∈ contents blocks, r.Legible := by
  by_contra hillegible
  exact (h.garbled_optimize hcompact hillegible).ne_ok t' hrun

/-- The packed records in sound chunks. -/
lemma exists_pack (h : t.Holds blocks) (legible : ∀ r ∈ contents blocks, r.Legible) :
    ∃ blocks' : List (Block types),
      pack t.config.chunkSize ((contents blocks).map fun r => r.trim.bytes) =
        blocks'.map Block.chunk ∧
      Holds { t with
        chunks := blocks'.map Block.chunk
        generation := t.generation + 1
        compact := true } blocks' ∧
      Packed t.config.chunkSize ((contents blocks).map Stored.trim) blocks' := by
  obtain ⟨blocks', hpack, hpacked⟩ :=
    pack_eq t.config.chunkSize ((contents blocks).map Stored.trim)
  rw [List.map_map] at hpack
  refine ⟨blocks', hpack, ⟨⟨h.types_eq, rfl, ?_⟩, fun _ => ?_⟩, hpacked⟩
  · rw [hpacked.contents_eq, List.length_map]
    exact h.count_eq
  · rw [hpacked.contents_eq]
    exact List.forall_mem_map.mpr legible

/-- The records are laid out anew without their slack. -/
theorem optimize_eq_pack (h : t.Holds blocks) (legible : ∀ r ∈ contents blocks, r.Legible)
    (hcompact : t.compact = false) :
    t.optimize = .ok { t with
      chunks := pack t.config.chunkSize ((contents blocks).map fun r => r.trim.bytes)
      generation := t.generation + 1
      compact := true } := by
  obtain ⟨blocks', hchunks, hholds, -⟩ := h.exists_pack legible
  rw [optimize, hcompact]
  simp only [Bool.false_eq_true, if_false, h.denseRecords_eq legible, ok_bind, hchunks]
  by_cases hcheck : t.config.checkInvariants = true
  · have hpass := hholds.check_eq (hholds.checked hcheck)
    simp only [hcheck, if_true, hpass]
    rfl
  · simp only [hcheck]
    rfl

/-- Packing keeps the records but for their slack, in a new generation. -/
theorem optimize_eq (h : t.Holds blocks) (legible : ∀ r ∈ contents blocks, r.Legible)
    (hcompact : t.compact = false) :
    ∃ blocks' : List (Block types),
      t.optimize = .ok { t with
        chunks := blocks'.map Block.chunk
        generation := t.generation + 1
        compact := true } ∧
      Holds { t with
        chunks := blocks'.map Block.chunk
        generation := t.generation + 1
        compact := true } blocks' ∧
      Packed t.config.chunkSize ((contents blocks).map Stored.trim) blocks' := by
  obtain ⟨blocks', hchunks, hholds, hpacked⟩ := h.exists_pack legible
  refine ⟨blocks', ?_, hholds, hpacked⟩
  rw [h.optimize_eq_pack legible hcompact, hchunks]

lemma generation_lt_of_optimize (h : t.Holds blocks) (hcompact : t.compact = false) {t' : Table}
    (hrun : t.optimize = .ok t') : t.generation < t'.generation := by
  rw [h.optimize_eq_pack (h.legible_of_optimize hcompact hrun) hcompact] at hrun
  cases hrun
  exact Nat.lt_succ_self _

end Holds

end RecordStore.Table
