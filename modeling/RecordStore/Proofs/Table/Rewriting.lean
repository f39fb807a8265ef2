import Mathlib
import RecordStore.Proofs.Table.Compaction
import RecordStore.Proofs.Table.RoundTrip

/-!
# Writing what was read

A table that was read is written as the bytes that were read, unless it has to be packed first. What
is written of the packed table is read back as long as its chunks can be counted in four bytes.
Packing may leave more of them. All of them are written, behind a count that has lost its higher
digits, and what is read back are as many chunks as this count says, from the front.
-/

namespace RecordStore.Table

open Record
open Block (contents)

variable {types : List ValueType}

/-! ### Written again -/

/-- The records of a table are a part of its bytes. -/
lemma Holds.sum_size_le {t : Table} {blocks : List (Block types)} (h : t.Holds blocks) :
    ((contents blocks).map Stored.size).sum ≤ t.bytes.length := by
  have hblocks : ((contents blocks).map Stored.size).sum ≤
      ((blocks.map Block.chunk).flatMap chunkBytes).length := by
    clear h
    induction blocks with
    | nil => exact Nat.zero_le _
    | cons b blocks ih =>
      have hlive : b.live.length = (b.records.map Stored.size).sum := by
        rw [Block.live, List.length_flatMap]
        exact congrArg List.sum (List.map_congr_left fun r _ => r.length_bytes)
      have hle : b.live.length ≤ (chunkBytes b.chunk).length := by
        rw [chunkBytes, List.length_append, List.length_append]
        exact (Nat.le_add_left _ _).trans (Nat.le_add_left _ _)
      rw [Block.contents_cons, List.map_append, List.sum_append, ← hlive, List.map_cons,
        List.flatMap_cons, List.length_append]
      exact Nat.add_le_add hle ih
  rw [← h.chunks_eq] at hblocks
  simp only [bytes, List.length_append]
  omega

lemma sum_size_trim_le (records : List (Stored types)) :
    ((records.map Stored.trim).map Stored.size).sum ≤ (records.map Stored.size).sum := by
  rw [List.map_map]
  exact List.sum_le_sum fun r _ => Nat.le_add_right _ _

/-- A table that was read is written as the bytes that were read. If it is compact, it is not
packed again and stays as it is; otherwise what is written is read back to a compact table of the
same rows, as long as the packed chunks can be counted in four bytes. There are too many of them
only if there are at least `2 ^ 37` bytes to read. -/
theorem write_after_read {config : Config} {input rest : Bytes} {t : Table}
    (h : readWithConfig config input = .ok (t, rest)) :
    ∃ p, input = p ++ rest ∧
      (∀ written, t.writeAsIs ⟨none, written⟩ = (.ok (), ⟨none, written ++ p⟩)) ∧
      (t.compact = true → ∀ written,
        t.write ⟨none, written⟩ = .ok (t, .ok (), ⟨none, written ++ p⟩)) ∧
      (t.compact = false → ∃ packed q,
        (∀ written, t.write ⟨none, written⟩ = .ok (packed, .ok (), ⟨none, written ++ q⟩)) ∧
        (input.length < 2 ^ 37 → packed.chunks.length < 2 ^ 32) ∧
        (packed.chunks.length < 2 ^ 32 → ∀ config', config'.validate = .ok () → ∀ x,
          ∃ back, readWithConfig config' (q ++ x) = .ok (back, x) ∧ back.compact = true ∧
            back.schema = t.schema ∧ ∃ rows, t.values = .ok rows ∧ back.values = .ok rows)) := by
  obtain ⟨⟨blocks, hread⟩, rfl⟩ := readWithConfig_eq_ok.mp h
  obtain ⟨hmin, hmax⟩ := validate_eq_ok.mp hread.config_valid
  refine ⟨t.bytes, rfl, writeAsIs_eq hread.schema_valid, ?_, ?_⟩
  · intro hcompact written
    rw [write_eq (Holds.optimize_of_compact hcompact), writeAsIs_eq hread.schema_valid]
  · intro hcompact
    obtain ⟨packed, hrun, hschema, -, blocks', hholds, hdense, hvalues, hpacked, hfits⟩ :=
      hread.holds.exists_packed (legible_of_tight hread.tight) hcompact (hread.config_eq ▸ hmax)
    have hvalid : packed.schema.Valid := hschema ▸ hread.schema_valid
    refine ⟨packed, packed.bytes, ?_, ?_, ?_⟩
    · intro written
      rw [write_eq hrun, writeAsIs_eq hvalid]
    · intro hlength
      rw [hholds.length_chunks]
      refine hpacked.length_lt (hread.config_eq ▸ hmin) ?_
      have hsizes := (sum_size_trim_le (contents blocks)).trans hread.holds.sum_size_le
      rw [List.length_append] at hlength
      omega
    · intro hcount config' hconfig' x
      have hnamed : packed.schema.Named := hschema ▸ hread.named
      have legible : ∀ r ∈ contents blocks', r.Legible :=
        fun r hr => (hholds.dense_iff.mp hdense r hr).1
      obtain ⟨back, hback, hcopy, hslack⟩ :=
        hholds.read_bytes hvalid hnamed legible (hfits hcount) hconfig' x
      obtain ⟨rows, hrows, hrows'⟩ := hcopy.values_eq
      exact ⟨back, hback, hslack.mpr hdense, hcopy.schema_eq.trans hschema, rows,
        hvalues ▸ hrows, hrows'⟩

/-- One column of bytes, one record with a byte of slack. -/
def storedWithSlack : Bytes :=
  [0, 0, 0, 0, 0, 0, 0, 0, 1, 1, 120, 2, 0, 0, 0, 1, 0, 0, 0, 1, 0, 0, 0, 6, 0, 0, 0, 6, 0, 0, 0, 7,
    0]

theorem write_after_read_with_slack :
    ∃ t packed q, readWithConfig .default storedWithSlack = .ok (t, []) ∧
      t.writeAsIs (.empty none) = (.ok (), ⟨none, storedWithSlack⟩) ∧
      t.write (.empty none) = .ok (packed, .ok (), ⟨none, q⟩) ∧
      ∃ back, readWithConfig .default (q ++ []) = .ok (back, []) ∧ back.compact = true := by
  have h : readWithConfig .default storedWithSlack =
      .ok ({ build (.ofColumns [⟨"x", .integer .bits8 false, 0⟩]) .default with
        chunks := [⟨6, 0, [6, 0, 0, 0, 7, 0], 1⟩]
        numRecords := 1
        compact := false }, []) := by cbv
  obtain ⟨p, hp, hasIs, -, hwrite⟩ := write_after_read h
  obtain ⟨packed, q, hq, hfew, hback⟩ := hwrite rfl
  obtain ⟨back, hread, hcompact, -⟩ := hback (hfew (by decide)) .default rfl []
  rw [List.append_nil] at hp
  exact ⟨_, packed, q, h, hp ▸ hasIs [], hq [], back, hread, hcompact⟩

/-! ### The chunks that are counted -/

/-- The table that has only the first chunks. -/
def first (t : Table) (n : Nat) : Table :=
  { t with
    chunks := t.chunks.take n
    numRecords := ((t.chunks.take n).map Chunk.numRecords).sum }

lemma mem_contents_of_take {blocks : List (Block types)} {n : Nat} {r : Stored types}
    (h : r ∈ contents (blocks.take n)) : r ∈ contents blocks := by
  obtain ⟨b, hb, hr⟩ := List.mem_flatMap.mp h
  exact List.mem_flatMap.mpr ⟨b, List.mem_of_mem_take hb, hr⟩

lemma Holds.first {t : Table} {blocks : List (Block types)} (h : t.Holds blocks) (n : Nat) :
    (t.first n).Holds (blocks.take n) where
  types_eq := h.types_eq
  chunks_eq := by
    change t.chunks.take n = _
    rw [h.chunks_eq, List.map_take]
  count_eq := by
    change ((t.chunks.take n).map Chunk.numRecords).sum = _
    rw [h.chunks_eq, ← List.map_take, Block.sum_numRecords]
  checked hcheck r hr := h.checked hcheck r (mem_contents_of_take hr)

/-- A table is written as the table of those chunks that its count tells, and then the others. -/
lemma bytes_eq_first_append (t : Table) :
    t.bytes = (t.first (t.chunks.length % 2 ^ 32)).bytes ++
      (t.chunks.drop (t.chunks.length % 2 ^ 32)).flatMap chunkBytes := by
  have hcount : (t.chunks.take (t.chunks.length % 2 ^ 32)).length = t.chunks.length % 256 ^ 4 :=
    List.length_take_of_le (Nat.mod_le _ _)
  have hchunks : t.chunks.flatMap chunkBytes =
      (t.chunks.take (t.chunks.length % 2 ^ 32)).flatMap chunkBytes ++
        (t.chunks.drop (t.chunks.length % 2 ^ 32)).flatMap chunkBytes := by
    rw [← List.flatMap_append, List.take_append_drop]
  rw [bytes, hchunks]
  simp only [bytes, first, hcount, LittleEndian.encode_mod, List.append_assoc]

/-- However many chunks are written, as many are read back as their count says. -/
theorem Holds.read_first {t : Table} {blocks : List (Block types)} (h : t.Holds blocks)
    (hschema : t.schema.Valid) (hnamed : t.schema.Named)
    (legible : ∀ r ∈ contents blocks, r.Legible) (hlive : ∀ c ∈ t.chunks, c.live.length < 2 ^ 32)
    {config : Config} (hconfig : config.validate = .ok ()) (x : Bytes) :
    ∃ copy rest, readWithConfig config (t.bytes ++ x) = .ok (copy, rest) ∧
      (t.first (t.chunks.length % 2 ^ 32)).IsCopy copy := by
  have hfirst := h.first (t.chunks.length % 2 ^ 32)
  have hfits : (t.first (t.chunks.length % 2 ^ 32)).Fits := by
    refine hfirst.fits ?_ fun c hc => hlive c (List.mem_of_mem_take hc)
    exact (List.length_take_le _ _).trans_lt (Nat.mod_lt _ (by decide))
  obtain ⟨copy, hread, hcopy, -⟩ := hfirst.read_bytes hschema hnamed
    (fun r hr => legible r (mem_contents_of_take hr)) hfits hconfig
    ((t.chunks.drop (t.chunks.length % 2 ^ 32)).flatMap chunkBytes ++ x)
  rw [← List.append_assoc, ← bytes_eq_first_append] at hread
  exact ⟨copy, _, hread, hcopy⟩

/-- Records of which no two go into one chunk are packed one by one. They are all written, and as
many are read back as their number leaves in four bytes. -/
theorem AsRead.read_first_of_heavy {config : Config} {t : Table}
    {blocks : List (Block t.schema.types)} (h : AsRead config t blocks)
    (hcompact : t.compact = false)
    (heavy : ∀ r ∈ contents blocks, config.chunkSize < 2 * r.dataSize) :
    ∃ packed, (∀ written, t.write ⟨none, written⟩ =
        .ok (packed, .ok (), ⟨none, written ++ packed.bytes⟩)) ∧
      ∀ config', config'.validate = .ok () → ∃ back rest,
        readWithConfig config' packed.bytes = .ok (back, rest) ∧
          (packed.first (t.numRecords % 2 ^ 32)).IsCopy back := by
  obtain ⟨-, hmax⟩ := validate_eq_ok.mp h.config_valid
  obtain ⟨packed, hrun, hschema, -, blocks', hholds, hdense, -, hpacked, -⟩ :=
    h.holds.exists_packed (legible_of_tight h.tight) hcompact (h.config_eq ▸ hmax)
  rw [h.config_eq] at hpacked
  have hvalid : packed.schema.Valid := hschema ▸ h.schema_valid
  have hlength : packed.chunks.length = t.numRecords := by
    have heavy' : ∀ r ∈ (contents blocks).map Stored.trim, config.chunkSize < 2 * r.size :=
      List.forall_mem_map.mpr heavy
    rw [hholds.length_chunks, hpacked.length_eq_of_heavy heavy', List.length_map, h.holds.count_eq]
  refine ⟨packed, ?_, ?_⟩
  · intro written
    rw [write_eq hrun, writeAsIs_eq hvalid]
  · intro config' hconfig'
    have legible : ∀ r ∈ contents blocks', r.Legible :=
      fun r hr => (hholds.dense_iff.mp hdense r hr).1
    have hlive : ∀ c ∈ packed.chunks, c.live.length < 2 ^ 32 := by
      rw [hholds.chunks_eq]
      exact hpacked.live_lt hmax
    obtain ⟨back, rest, hback, hcopy⟩ :=
      hholds.read_first hvalid (hschema ▸ h.named) legible hlive hconfig' []
    rw [List.append_nil] at hback
    exact ⟨back, rest, hback, hlength ▸ hcopy⟩

/-! ### A stored table that is not written again -/

def texts : Schema := .ofColumns [⟨"x", .string .bits8, 0⟩]

lemma valid_texts : texts.Valid :=
  (@Schema.Reachable.ofLayout [("x", .string .bits8)] _ rfl).valid

/-- A text of 28 bytes and a byte of slack. Without the slack these are 33 bytes. -/
def paddedText : Stored texts.types where
  fields := [LittleEndian.encode 1 28 ++ List.replicate 28 97]
  slack := [0]
  isField := .cons (@Field.IsField.string .bits8 (List.replicate 28 97) (by decide)) .nil
  small := by decide

def crowdedBlock : Block texts.types :=
  fill _ (List.replicate 65536 paddedText) (mt (List.replicate_eq_nil_iff _).mp (by decide)) le_rfl

def crowdedBlocks : List (Block texts.types) := List.replicate 65536 crowdedBlock

/-- One column of texts, and `2 ^ 16` chunks of `2 ^ 16` padded texts. -/
def crowdedTable : Table :=
  { build texts ⟨64, 8, false⟩ with
    chunks := crowdedBlocks.map Block.chunk
    numRecords := (contents crowdedBlocks).length
    compact := (contents crowdedBlocks).all fun r => r.slack.isEmpty }

lemma contents_crowdedBlocks :
    contents crowdedBlocks = List.replicate (65536 * 65536) paddedText := by
  rw [crowdedBlocks, contents, List.flatMap_replicate]
  exact List.flatten_replicate_replicate

lemma live_crowdedBlock : crowdedBlock.live = (List.replicate 65536 paddedText.bytes).flatten := by
  change (List.replicate 65536 paddedText).flatMap Stored.bytes = _
  rw [List.flatMap_def, List.map_replicate]

lemma length_live_crowdedBlock : crowdedBlock.live.length = 65536 * 34 := by
  rw [live_crowdedBlock, List.length_flatten, List.map_replicate, List.sum_replicate]
  rfl

lemma tight_crowdedBlock : crowdedBlock.Tight where
  legible r hr := by
    rw [List.eq_of_mem_replicate hr]
    exact .cons (Field.legible_of_plain rfl _) .nil
  chunk_eq := rfl
  few := by
    change (List.replicate 65536 paddedText).length < _
    rw [List.length_replicate]
    decide
  short := by
    rw [length_live_crowdedBlock]
    decide

lemma asRead_crowdedTable : AsRead ⟨64, 8, false⟩ crowdedTable crowdedBlocks := by
  refine asRead_build rfl valid_texts (by decide) ?_ ?_
  · intro b hb
    rw [List.eq_of_mem_replicate hb]
    exact tight_crowdedBlock
  · change (List.replicate 65536 crowdedBlock).length < _
    rw [List.length_replicate]
    decide

/-- The bytes of the table. -/
def crowded : Bytes :=
  [0, 0, 0, 0, 0, 0, 0, 0, 1, 1, 120, 5, 0, 0, 0] ++ ([0, 0, 1, 0] ++ (List.replicate 65536
    ([0, 0, 1, 0] ++ ([0, 0, 34, 0] ++ (List.replicate 65536
      ([34, 0, 0, 0, 28] ++ (List.replicate 28 97 ++ [0]))).flatten))).flatten)

lemma bytes_crowdedTable : crowdedTable.bytes = crowded := by
  have hschema : LittleEndian.encode 4 formatVersion ++ texts.bytes =
      [0, 0, 0, 0, 0, 0, 0, 0, 1, 1, 120, 5, 0, 0, 0] := by decide
  have hcount : LittleEndian.encode 4 65536 = [0, 0, 1, 0] := by decide
  have hsize : LittleEndian.encode 4 (65536 * 34) = [0, 0, 34, 0] := by decide
  have hrecord : paddedText.bytes = [34, 0, 0, 0, 28] ++ (List.replicate 28 97 ++ [0]) := by decide
  have hchunk : chunkBytes crowdedBlock.chunk = [0, 0, 1, 0] ++ ([0, 0, 34, 0] ++
      (List.replicate 65536 ([34, 0, 0, 0, 28] ++ (List.replicate 28 97 ++ [0]))).flatten) := by
    have hnumRecords : crowdedBlock.chunk.numRecords = 65536 := List.length_replicate
    have hlive : crowdedBlock.chunk.live = (List.replicate 65536 paddedText.bytes).flatten :=
      live_crowdedBlock
    have hlength : crowdedBlock.chunk.live.length = 65536 * 34 := length_live_crowdedBlock
    rw [chunkBytes, hlength, hnumRecords, hlive, hcount, hsize, hrecord]
  have hchunks : crowdedTable.chunks = List.replicate 65536 crowdedBlock.chunk := List.map_replicate
  rw [bytes, ← List.append_assoc, hchunks, List.length_replicate, List.flatMap_def,
    List.map_replicate, hchunk, hcount]
  change LittleEndian.encode 4 formatVersion ++ texts.bytes ++ _ = _
  rw [hschema, crowded]

/-- The table of padded texts is read, and all its `2 ^ 32` rows are written again, each in a chunk
of its own. Nothing is left of their count, so that a table without rows is read back. -/
theorem crowded_not_read_back :
    ∃ t packed q rows, readWithConfig ⟨64, 8, false⟩ crowded = .ok (t, []) ∧ t.compact = false ∧
      t.values = .ok rows ∧ rows.length = 2 ^ 32 ∧
      t.write (.empty none) = .ok (packed, .ok (), ⟨none, q⟩) ∧
      ∀ config, config.validate = .ok () → ∃ back rest,
        readWithConfig config q = .ok (back, rest) ∧ back.values = .ok [] := by
  have hread := asRead_crowdedTable
  have hcount : crowdedTable.numRecords = 2 ^ 32 :=
    (congrArg List.length contents_crowdedBlocks).trans List.length_replicate
  have hcompact : crowdedTable.compact = false := by
    change ((contents crowdedBlocks).all fun r => r.slack.isEmpty) = false
    rw [contents_crowdedBlocks, List.all_replicate]
    rfl
  have heavy : ∀ r ∈ contents crowdedBlocks, 64 < 2 * r.dataSize := by
    intro r hr
    rw [contents_crowdedBlocks] at hr
    rw [List.eq_of_mem_replicate hr]
    decide
  obtain ⟨packed, hwrite, hback⟩ := hread.read_first_of_heavy hcompact heavy
  refine ⟨crowdedTable, packed, packed.bytes, _, readWithConfig_eq_ok.mpr ⟨⟨_, hread⟩, ?_⟩,
    hcompact, hread.holds.values_eq (legible_of_tight hread.tight), ?_, hwrite [], ?_⟩
  · rw [List.append_nil, bytes_crowdedTable]
  · rw [List.length_map, ← hread.holds.count_eq, hcount]
  · intro config hconfig
    obtain ⟨back, rest, hrun, hcopy⟩ := hback config hconfig
    obtain ⟨rows, hrows, hrows'⟩ := hcopy.values_eq
    refine ⟨back, rest, hrun, ?_⟩
    rw [hcount] at hrows
    rw [hrows', ← hrows]
    rfl

end RecordStore.Table
