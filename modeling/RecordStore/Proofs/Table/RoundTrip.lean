import Mathlib
import RecordStore.Proofs.Table.Codec
import RecordStore.Proofs.Table.Walk

/-!
# Writing and reading back

A sound table whose counts fit, of named columns and legible records, is read back from its bytes,
whatever follows them: same schema, same chunks without free space, so the same rows. Packing it
first gives a table whose counts fit as well, unless there are too many chunks.
-/

namespace RecordStore.Table

open Record
open Block (contents)

variable {types : List ValueType}

/-! ### What is stated -/

/-- The counts of the table fit into four bytes. -/
structure Fits (t : Table) : Prop where
  chunks : t.chunks.length < 2 ^ 32
  live : ∀ c ∈ t.chunks, c.live.length < 2 ^ 32
  numRecords : ∀ c ∈ t.chunks, c.numRecords < 2 ^ 32

/-- No record has slack: each is as long as its header and fields. -/
def Dense (t : Table) : Prop :=
  ∀ c ∈ t.chunks, ∀ records, c.records = .ok records →
    ∀ record ∈ records, dataSize t.schema.types record = .ok record.length

/-- The same schema, the same chunks but without free space, the same rows. -/
structure IsCopy (t copy : Table) : Prop where
  schema_eq : copy.schema = t.schema
  chunks_eq : copy.chunks = t.chunks.map fun c => .ofRecords c.live c.numRecords
  numRecords_eq : copy.numRecords = t.numRecords
  values_eq : ∃ rows, t.values = .ok rows ∧ copy.values = .ok rows

/-! ### Counts -/

lemma validate_eq_ok {config : Config} :
    config.validate = .ok () ↔
      Config.minChunkSize ≤ config.chunkSize ∧ config.chunkSize < 2 ^ 32 := by
  rw [Config.validate]
  change _ ↔ _ ∧ config.chunkSize < UInt32.size
  split_ifs with hsmall hlarge
  · exact ⟨nofun, fun h => absurd hsmall (Nat.not_lt.mpr h.1)⟩
  · exact ⟨nofun, fun h => absurd hlarge (Nat.not_le.mpr h.2)⟩
  · exact ⟨fun _ => ⟨Nat.not_lt.mp hsmall, Nat.not_le.mp hlarge⟩, fun _ => rfl⟩

lemma length_le_length_flatMap (records : List (Stored types)) :
    records.length ≤ (records.flatMap Stored.bytes).length := by
  induction records with
  | nil => exact Nat.zero_le _
  | cons r records ih =>
    have := r.size_pos
    rw [List.length_cons, List.flatMap_cons, List.length_append, r.length_bytes]
    omega

/-- The counts of a snug block fit. -/
lemma Snug.length_live_lt {chunkSize : Nat} {b : Block types} (h : Snug chunkSize b)
    (hchunk : chunkSize < 2 ^ 32) : b.live.length < 2 ^ 32 := by
  have hroom := b.room
  rw [h.head_eq, Nat.zero_add] at hroom
  refine Nat.lt_of_le_of_lt hroom ?_
  rcases h.capacity_eq with hcapacity | ⟨r, -, hcapacity⟩
  · rw [hcapacity]
    exact hchunk
  · rw [hcapacity]
    exact r.size_lt

lemma Packed.live_lt {chunkSize : Nat} {records : List (Stored types)}
    {blocks : List (Block types)} (h : Packed chunkSize records blocks)
    (hchunk : chunkSize < 2 ^ 32) : ∀ c ∈ blocks.map Block.chunk, c.live.length < 2 ^ 32 := by
  intro c hc
  obtain ⟨b, hb, rfl⟩ := List.mem_map.mp hc
  exact (h.snug b hb).length_live_lt hchunk

/-- All counts fit if the bytes of every chunk and the chunks themselves can be counted. -/
lemma Holds.fits {t : Table} {blocks : List (Block types)} (h : t.Holds blocks)
    (hcount : t.chunks.length < 2 ^ 32) (hlive : ∀ c ∈ t.chunks, c.live.length < 2 ^ 32) :
    t.Fits := by
  refine ⟨hcount, hlive, fun c hc => ?_⟩
  have hlt := hlive c hc
  rw [h.chunks_eq] at hc
  obtain ⟨b, -, rfl⟩ := List.mem_map.mp hc
  exact (length_le_length_flatMap b.records).trans_lt hlt

/-- Packed chunks are at least half full in the mean, so there are fewer than `2 ^ 32` of them as
long as there are fewer than `2 ^ 37` bytes. -/
lemma Packed.length_lt {chunkSize : Nat} {records : List (Stored types)}
    {blocks : List (Block types)} (h : Packed chunkSize records blocks)
    (hchunk : Config.minChunkSize ≤ chunkSize)
    (hbytes : (records.map Stored.size).sum < 2 ^ 37) : blocks.length < 2 ^ 32 := by
  have hcount := h.count_le
  rcases Nat.eq_zero_or_pos blocks.length with hzero | hpos
  · rw [hzero]
    decide
  · obtain ⟨n, hn⟩ := Nat.exists_eq_succ_of_ne_zero hpos.ne'
    have hmin : 65 * n ≤ (chunkSize + 1) * n :=
      Nat.mul_le_mul_right n (Nat.succ_le_succ hchunk)
    rw [hn, Nat.mul_succ] at hcount
    omega

/-! ### Reading back -/

/-- A block as it is read back. -/
def Block.tighten (b : Block types) : Block types := fill b.live.length b.records b.occupied le_rfl

lemma contents_tighten (blocks : List (Block types)) :
    contents (blocks.map Block.tighten) = contents blocks := by
  rw [contents, contents, List.flatMap_map]
  rfl

lemma chunkBytes_ofRecords (c : Chunk) :
    chunkBytes (.ofRecords c.live c.numRecords) = chunkBytes c := rfl

lemma Holds.dense_iff {t : Table} {blocks : List (Block types)} (h : t.Holds blocks) :
    t.Dense ↔ ∀ r ∈ contents blocks, r.Legible ∧ r.slack = [] := by
  rw [Dense, h.chunks_eq, h.types_eq]
  constructor
  · intro hdense r hr
    obtain ⟨b, hb, hr⟩ := List.mem_flatMap.mp hr
    have hsize := hdense b.chunk (List.mem_map_of_mem hb) _ b.records_chunk r.bytes
      (List.mem_map_of_mem hr)
    rcases r.dataSize_bytes_cases with ⟨hlegible, hdata⟩ | ⟨-, hgarbled⟩
    · rw [hdata, r.length_bytes] at hsize
      exact ⟨hlegible, r.dataSize_eq_size_iff.mp (Except.ok.inj hsize)⟩
    · exact absurd hsize (hgarbled.ne_ok _)
  · intro hdense c hc records hrecords record hrecord
    obtain ⟨b, hb, rfl⟩ := List.mem_map.mp hc
    rw [b.records_chunk] at hrecords
    cases hrecords
    obtain ⟨r, hr, rfl⟩ := List.mem_map.mp hrecord
    obtain ⟨hlegible, hslack⟩ := hdense r (List.mem_flatMap.mpr ⟨b, hb, hr⟩)
    rw [Stored.dataSize_bytes hlegible, r.length_bytes, r.dataSize_eq_size_iff.mpr hslack]

/-- A sound table with a valid schema of named columns and with legible records is read back from
its bytes, and nothing behind them is touched. -/
theorem Holds.read_bytes {t : Table} {blocks : List (Block types)} (h : t.Holds blocks)
    (hschema : t.schema.Valid) (hnamed : t.schema.Named)
    (legible : ∀ r ∈ contents blocks, r.Legible) (hfits : t.Fits) {config : Config}
    (hconfig : config.validate = .ok ()) (x : Bytes) :
    ∃ copy, readWithConfig config (t.bytes ++ x) = .ok (copy, x) ∧ t.IsCopy copy ∧
      (copy.compact = true ↔ t.Dense) := by
  obtain rfl := h.types_eq
  have htight : ∀ b ∈ blocks.map Block.tighten, b.Tight := by
    intro b hb
    obtain ⟨b', hb', rfl⟩ := List.mem_map.mp hb
    have hmem : b'.chunk ∈ t.chunks := by
      rw [h.chunks_eq]
      exact List.mem_map_of_mem hb'
    refine ⟨fun r hr => ?_, rfl, hfits.numRecords _ hmem, hfits.live _ hmem⟩
    exact legible r (List.mem_flatMap.mpr ⟨b', hb', hr⟩)
  have hfew : (blocks.map Block.tighten).length < 256 ^ 4 := by
    rw [List.length_map, ← h.length_chunks]
    exact hfits.chunks
  have hread := asRead_build hconfig hschema hnamed htight hfew
  have hchunks : (blocks.map Block.tighten).map Block.chunk =
      t.chunks.map fun c => .ofRecords c.live c.numRecords := by
    rw [h.chunks_eq, List.map_map, List.map_map]
    rfl
  refine ⟨_, readWithConfig_eq_ok.mpr ⟨⟨_, hread⟩, ?_⟩,
    ⟨rfl, hchunks, ?_, _, h.values_eq legible, ?_⟩, ?_⟩
  · simp only [bytes, build, hchunks, List.length_map, List.flatMap_map, chunkBytes_ofRecords]
  · change (contents (blocks.map Block.tighten)).length = _
    rw [contents_tighten, h.count_eq]
  · rw [hread.holds.values_eq (legible_of_tight htight)]
    exact congrArg (fun records => Except.ok (records.map Stored.values)) (contents_tighten blocks)
  · change ((contents (blocks.map Block.tighten)).all fun r => r.slack.isEmpty) = true ↔ _
    rw [contents_tighten, h.dense_iff, List.all_eq_true]
    exact forall₂_congr fun r hr => List.isEmpty_iff.trans (and_iff_right (legible r hr)).symm

/-- Only named columns and legible records are read back. -/
lemma Holds.named_and_legible_of_copy {t : Table} {blocks : List (Block types)} (h : t.Holds blocks)
    {config : Config} {input rest : Bytes} {copy : Table}
    (hread : readWithConfig config input = .ok (copy, rest)) (hcopy : t.IsCopy copy) :
    t.schema.Named ∧ ∀ r ∈ contents blocks, r.Legible := by
  obtain ⟨⟨blocks', hread⟩, -⟩ := readWithConfig_eq_ok.mp hread
  have hlive : t.chunks.flatMap Chunk.live = copy.chunks.flatMap Chunk.live := by
    rw [hcopy.chunks_eq, List.flatMap_map]
    rfl
  rw [h.chunks_eq, hread.holds.chunks_eq, Block.flatMap_live, Block.flatMap_live] at hlive
  have hrecords : (contents blocks).map Stored.bytes = (contents blocks').map Stored.bytes := by
    have hsplit := congrArg Record.split hlive
    rw [Stored.split_flatMap, Stored.split_flatMap] at hsplit
    exact Except.ok.inj hsplit
  refine ⟨hcopy.schema_eq ▸ hread.named, ?_⟩
  intro r hr
  obtain ⟨r', hr', hsame⟩ := List.mem_map.mp (hrecords ▸ List.mem_map_of_mem hr)
  have htypes : types = copy.schema.types := by rw [hcopy.schema_eq, h.types_eq]
  have hsize : dataSize types r'.bytes = .ok r'.dataSize :=
    (congrArg (dataSize · r'.bytes) htypes).trans
      (Stored.dataSize_bytes (legible_of_tight hread.tight r' hr'))
  rw [hsame] at hsize
  rcases r.dataSize_bytes_cases with ⟨hlegible, -⟩ | ⟨-, hgarbled⟩
  · exact hlegible
  · exact absurd hsize (hgarbled.ne_ok _)

/-! ### Writing and packing -/

/-- The bytes of a table reach a sink that has room for everything. -/
lemma writeAsIs_eq {t : Table} (h : t.schema.Valid) (written : Bytes) :
    t.writeAsIs ⟨none, written⟩ = (.ok (), ⟨none, written ++ t.bytes⟩) :=
  (emits_writeAsIs h).eq_of_unbounded written

/-- What packing leaves of a sound table that is not compact, if its records are legible. -/
theorem Holds.exists_packed {t : Table} {blocks : List (Block types)} (h : t.Holds blocks)
    (legible : ∀ r ∈ contents blocks, r.Legible) (hcompact : t.compact = false)
    (hchunk : t.config.chunkSize < 2 ^ 32) :
    ∃ packed, t.optimize = .ok packed ∧ packed.schema = t.schema ∧ packed.config = t.config ∧
      ∃ blocks' : List (Block types), packed.Holds blocks' ∧ packed.Dense ∧
        packed.values = t.values ∧
        Packed t.config.chunkSize ((contents blocks).map Stored.trim) blocks' ∧
        (packed.chunks.length < 2 ^ 32 → packed.Fits) := by
  obtain ⟨blocks', hrun, hholds, hpacked⟩ := h.optimize_eq legible hcompact
  have legible' : ∀ r ∈ contents blocks', r.Legible := by
    rw [hpacked.contents_eq]
    exact List.forall_mem_map.mpr legible
  refine ⟨_, hrun, rfl, rfl, blocks', hholds, ?_, ?_, hpacked,
    fun hcount => hholds.fits hcount (hpacked.live_lt hchunk)⟩
  · rw [hholds.dense_iff, hpacked.contents_eq]
    exact List.forall_mem_map.mpr fun r hr => ⟨legible r hr, rfl⟩
  · rw [hholds.values_eq legible', h.values_eq legible, hpacked.contents_eq, List.map_map]
    rfl

end RecordStore.Table
