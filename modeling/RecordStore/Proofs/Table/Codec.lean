import Mathlib
import RecordStore.Proofs.Schema.Codec
import RecordStore.Proofs.Table.Packing
import RecordStore.Table.Codec

/-!
# Stored tables

The bytes of a table are given in one piece. They are what is written, and a table is read from an
input if and only if it could have been stored and the input starts with its bytes: its schema is
valid, its chunks are filled by whole records of the schema, and all counts fit.
-/

namespace RecordStore.Table

open Record
open Block (contents)

variable {types : List ValueType}

/-! ### Bytes -/

def chunkBytes (c : Chunk) : Bytes :=
  LittleEndian.encode 4 c.numRecords ++ (LittleEndian.encode 4 c.live.length ++ c.live)

def bytes (t : Table) : Bytes :=
  LittleEndian.encode 4 formatVersion ++
    (t.schema.bytes ++ (LittleEndian.encode 4 t.chunks.length ++ t.chunks.flatMap chunkBytes))

/-! ### Writing -/

section Writing

open Encoder

/-- A failing sink is all that can go wrong in a table. -/
lemma emits_stream {encoder : Encoder StreamError Unit} {bytes : Bytes}
    (h : Emits (fun _ => True) encoder bytes) :
    Emits (fun e => Error.isStream e = true) (encoder.within .stream) bytes :=
  h.within _ Error.stream fun _ _ => rfl

lemma emits_writeChunk (c : Chunk) :
    Emits (fun e => Error.isStream e = true) (writeChunk c) (chunkBytes c) := by
  have hcount := emits_stream (emits_word c.numRecords)
  have hsize := emits_stream (emits_word c.live.length)
  have hlive := emits_stream (emits_put c.live)
  exact hcount.bind (hsize.bind hlive)

/-- Packing comes first, and what it leaves is written as it is. -/
lemma write_eq {t packed : Table} (h : t.optimize = .ok packed) (sink : Sink) :
    t.write sink = .ok (packed, packed.writeAsIs sink) := by
  rw [write, h]
  rfl

/-- A table with a valid schema is written as its bytes. -/
theorem emits_writeAsIs {t : Table} (h : t.schema.Valid) :
    Emits (fun e => Error.isStream e = true) t.writeAsIs t.bytes := by
  have hversion := emits_stream (emits_word formatVersion)
  have hschema := (Schema.emits_write h).within (fun e => Error.isStream e = true) Error.schema
    fun e ⟨_, he⟩ => he ▸ rfl
  have hcount := emits_stream (emits_word t.chunks.length)
  exact hversion.bind (hschema.bind (hcount.bind (Emits.forM fun c _ => emits_writeChunk c)))

end Writing

/-! ### Checking records -/

lemma decide_dataSize_eq (r : Stored types) :
    decide (r.dataSize = r.size) = r.slack.isEmpty := by
  rw [Bool.eq_iff_iff, decide_eq_true_eq, r.dataSize_eq_size_iff, List.isEmpty_iff]

/-- Stored records pass the checks if they are legible. -/
lemma checkRecords_flatMap {records : List (Stored types)} (legible : ∀ r ∈ records, r.Legible)
    (offset seen : Nat) :
    checkRecords types offset seen (records.flatMap Stored.bytes) =
      .ok (seen + records.length, records.all fun r => r.slack.isEmpty) := by
  induction records generalizing offset seen with
  | nil =>
    rw [List.flatMap_nil, checkRecords]
    rfl
  | cons r records ih =>
    obtain ⟨hr, hrecords⟩ := List.forall_mem_cons.mp legible
    have hsome : (r.bytes ++ records.flatMap Stored.bytes).isEmpty = false := by
      rw [List.isEmpty_eq_false_iff]
      exact List.append_ne_nil_of_left_ne_nil r.bytes_ne_nil _
    have hgood : ¬ (r.size < headerBytes ∨
        (r.bytes ++ records.flatMap Stored.bytes).length < r.size) := by
      rw [List.length_append, r.length_bytes, not_or]
      exact ⟨Nat.not_lt.mpr r.headerBytes_le_size, Nat.not_lt.mpr (Nat.le_add_right _ _)⟩
    rw [List.flatMap_cons, checkRecords, hsome]
    simp only [Bool.false_eq_true, if_false, r.number?_bytes_append, dif_neg hgood,
      List.take_left' r.length_bytes, List.drop_left' r.length_bytes,
      Stored.dataSize?_bytes hr, ih hrecords, ok_bind, decide_dataSize_eq]
    rw [List.length_cons, List.all_cons, Nat.add_assoc, Nat.add_comm 1]
    rfl

/-- The records of a chunk pass the checks if and only if they are legible stored records. -/
lemma checkRecords_eq_ok {offset seen found : Nat} {bytes : Bytes} {dense : Bool} :
    checkRecords types offset seen bytes = .ok (found, dense) ↔
      ∃ records : List (Stored types), (∀ r ∈ records, r.Legible) ∧
        bytes = records.flatMap Stored.bytes ∧ found = seen + records.length ∧
        dense = records.all fun r => r.slack.isEmpty := by
  constructor
  · intro h
    fun_induction checkRecords types offset seen bytes generalizing found dense with
    | case1 offset seen bytes hempty =>
      cases h
      exact ⟨[], nofun, List.isEmpty_iff.mp hempty, rfl, rfl⟩
    | case2 => cases h
    | case3 => cases h
    | case4 => cases h
    | case5 offset seen bytes hempty size hsize hbad used hused ih =>
      have hle : headerBytes ≤ size := Nat.not_lt.mp (not_or.mp hbad).1
      have hlen : size ≤ bytes.length := Nat.not_lt.mp (not_or.mp hbad).2
      cases hrest : checkRecords types (offset + size) (seen + 1) (bytes.drop size) with
      | error reason =>
        rw [hrest] at h
        cases h
      | ok p =>
        obtain ⟨found', dense'⟩ := p
        rw [hrest] at h
        cases h
        obtain ⟨r, hbytes, rfl, hlegible⟩ :=
          Stored.exists_of_dataSize? (number?_take hsize hle hlen) hused
        obtain ⟨records, hlegibles, hrecords, rfl, rfl⟩ := ih hrest
        have hr : r.size = size := by
          rw [← r.length_bytes, hbytes, List.length_take_of_le hlen]
        refine ⟨r :: records, List.forall_mem_cons.mpr ⟨hlegible, hlegibles⟩, ?_, ?_, ?_⟩
        · rw [List.flatMap_cons, hbytes, ← hrecords, List.take_append_drop]
        · rw [List.length_cons]
          omega
        · rw [List.all_cons, ← hr, decide_dataSize_eq]
  · rintro ⟨records, legible, rfl, rfl, rfl⟩
    exact checkRecords_flatMap legible offset seen

/-- The bytes of a chunk pass the checks if and only if they are as many legible records as stated,
at least one. -/
lemma checkStored_eq_ok {count : Nat} {bytes : Bytes} {dense : Bool} :
    checkStored types count bytes = .ok dense ↔
      ∃ records : List (Stored types), records ≠ [] ∧ (∀ r ∈ records, r.Legible) ∧
        bytes = records.flatMap Stored.bytes ∧ count = records.length ∧
        dense = records.all fun r => r.slack.isEmpty := by
  constructor
  · intro h
    unfold checkStored at h
    split_ifs at h with hempty
    · cases h
    · obtain ⟨hcount, -⟩ := not_or.mp hempty
      cases hcheck : checkRecords types 0 0 bytes with
      | error reason =>
        rw [hcheck] at h
        cases h
      | ok p =>
        obtain ⟨found, dense'⟩ := p
        rw [hcheck] at h
        change (if found ≠ count then _ else _) = _ at h
        split_ifs at h with hfound
        · cases h
        · cases h
          obtain ⟨records, legible, rfl, rfl, rfl⟩ := checkRecords_eq_ok.mp hcheck
          rw [Nat.zero_add, not_ne_iff] at hfound
          refine ⟨records, ?_, legible, rfl, hfound.symm, rfl⟩
          rintro rfl
          exact hcount hfound.symm
  · rintro ⟨records, hne, legible, rfl, rfl, rfl⟩
    have hsome : ¬ (records.length = 0 ∨ (records.flatMap Stored.bytes).isEmpty = true) := by
      rw [not_or, List.length_eq_zero_iff, List.isEmpty_iff]
      refine ⟨hne, ?_⟩
      intro hnil
      refine hne (eq_nil_of_length_flatMap ?_)
      rw [hnil]
      rfl
    rw [checkStored, if_neg hsome, checkRecords_flatMap legible, Nat.zero_add]
    change (if records.length ≠ records.length then _ else _) = _
    rw [if_neg (fun hne => hne rfl)]
    rfl

/-! ### Reading -/

namespace Block

/-- A block as a chunk is read: legible records, no free space, and counts that fit into four
bytes. -/
structure Tight (b : Block types) : Prop where
  legible : ∀ r ∈ b.records, r.Legible
  chunk_eq : b.chunk = .ofRecords b.live b.records.length
  few : b.records.length < 256 ^ 4
  short : b.live.length < 256 ^ 4

end Block

lemma readChunk_eq_ok {index : Nat} {input rest : Bytes} {c : Chunk} {dense : Bool} :
    readChunk types index input = .ok ((c, dense), rest) ↔
      ∃ b : Block types, b.Tight ∧ b.chunk = c ∧ dense = (b.records.all fun r => r.slack.isEmpty) ∧
        input = chunkBytes c ++ rest := by
  rw [readChunk, Decoder.bind_eq_ok]
  constructor
  · rintro ⟨count, left, hcount, hrun⟩
    obtain ⟨hfew, rfl⟩ := Decoder.word_eq_ok.mp (Decoder.within_eq_ok.mp hcount)
    obtain ⟨size, left', hsize, hrun'⟩ := Decoder.bind_eq_ok.mp hrun
    obtain ⟨hshort, rfl⟩ := Decoder.word_eq_ok.mp (Decoder.within_eq_ok.mp hsize)
    obtain ⟨bytes, left'', hblob, hrun''⟩ := Decoder.bind_eq_ok.mp hrun'
    obtain ⟨rfl, rfl⟩ := Decoder.blob_eq_ok.mp (Decoder.within_eq_ok.mp hblob)
    cases hcheck : checkStored types count bytes with
    | error reason =>
      rw [hcheck] at hrun''
      exact absurd hrun'' Decoder.throw_ne_ok
    | ok dense' =>
      rw [hcheck] at hrun''
      obtain ⟨hpair, rfl⟩ := Decoder.pure_eq_ok.mp hrun''
      obtain ⟨rfl, rfl⟩ := Prod.mk.inj hpair
      obtain ⟨records, hne, legible, rfl, rfl, hdense⟩ := checkStored_eq_ok.mp hcheck
      refine ⟨fill _ records hne le_rfl, ⟨legible, rfl, hfew, hshort⟩, rfl, hdense, ?_⟩
      rw [chunkBytes, List.append_assoc, List.append_assoc]
      rfl
  · rintro ⟨b, htight, rfl, rfl, rfl⟩
    have hcheck : checkStored types b.records.length b.live =
        .ok (b.records.all fun r => r.slack.isEmpty) :=
      checkStored_eq_ok.mpr ⟨b.records, b.occupied, htight.legible, rfl, rfl, rfl⟩
    rw [chunkBytes, List.append_assoc, List.append_assoc]
    refine ⟨b.records.length, _,
      Decoder.within_eq_ok.mpr (Decoder.word_eq_ok.mpr ⟨htight.few, rfl⟩), ?_⟩
    refine Decoder.bind_eq_ok.mpr ⟨b.live.length, _,
      Decoder.within_eq_ok.mpr (Decoder.word_eq_ok.mpr ⟨htight.short, rfl⟩), ?_⟩
    refine Decoder.bind_eq_ok.mpr ⟨b.live, _,
      Decoder.within_eq_ok.mpr (Decoder.blob_eq_ok.mpr ⟨rfl, rfl⟩), ?_⟩
    rw [hcheck, htight.chunk_eq]
    rfl

lemma readChunks_eq_ok {count index : Nat} {input rest : Bytes} {l : List (Chunk × Bool)} :
    readChunks types count index input = .ok (l, rest) ↔
      ∃ blocks : List (Block types), blocks.length = count ∧ (∀ b ∈ blocks, b.Tight) ∧
        l = (blocks.map fun b => (b.chunk, b.records.all fun r => r.slack.isEmpty)) ∧
        input = (blocks.map Block.chunk).flatMap chunkBytes ++ rest := by
  induction count generalizing index input rest l with
  | zero =>
    rw [readChunks, Decoder.pure_eq_ok]
    constructor
    · rintro ⟨rfl, rfl⟩
      exact ⟨[], rfl, nofun, rfl, rfl⟩
    · rintro ⟨blocks, hlength, -, rfl, rfl⟩
      rw [List.length_eq_zero_iff.mp hlength]
      exact ⟨rfl, rfl⟩
  | succ count ih =>
    rw [readChunks, Decoder.bind_eq_ok]
    constructor
    · rintro ⟨⟨c, dense⟩, left, hchunk, hrun⟩
      obtain ⟨b, htight, rfl, rfl, rfl⟩ := readChunk_eq_ok.mp hchunk
      obtain ⟨others, left', hothers, hrun'⟩ := Decoder.bind_eq_ok.mp hrun
      obtain ⟨blocks, rfl, htights, rfl, rfl⟩ := ih.mp hothers
      obtain ⟨rfl, rfl⟩ := Decoder.pure_eq_ok.mp hrun'
      refine ⟨b :: blocks, rfl, List.forall_mem_cons.mpr ⟨htight, htights⟩, rfl, ?_⟩
      rw [List.map_cons, List.flatMap_cons, List.append_assoc]
    · rintro ⟨blocks, hlength, htights, rfl, rfl⟩
      cases blocks with
      | nil => cases hlength
      | cons b blocks =>
        obtain ⟨htight, htights⟩ := List.forall_mem_cons.mp htights
        rw [List.map_cons, List.flatMap_cons, List.append_assoc]
        refine ⟨_, _, readChunk_eq_ok.mpr ⟨b, htight, rfl, rfl, rfl⟩, ?_⟩
        exact Decoder.bind_eq_ok.mpr ⟨_, _,
          ih.mpr ⟨blocks, Nat.succ.inj hlength, htights, rfl, rfl⟩, rfl⟩

/-- What a table is that has been read under a configuration. -/
structure AsRead (config : Config) (t : Table) (blocks : List (Block t.schema.types)) : Prop where
  config_valid : config.validate = .ok ()
  config_eq : t.config = config
  generation_eq : t.generation = 0
  schema_valid : t.schema.Valid
  named : t.schema.Named
  holds : t.Holds blocks
  tight : ∀ b ∈ blocks, b.Tight
  few : blocks.length < 256 ^ 4
  compact_eq : t.compact = (contents blocks).all fun r => r.slack.isEmpty

/-- All records that have been read are legible. -/
lemma legible_of_tight {blocks : List (Block types)} (h : ∀ b ∈ blocks, b.Tight) :
    ∀ r ∈ contents blocks, r.Legible := by
  intro r hr
  obtain ⟨b, hb, hr⟩ := List.mem_flatMap.mp hr
  exact (h b hb).legible r hr

lemma all_contents (blocks : List (Block types)) (p : Stored types → Bool) :
    (blocks.all fun b => b.records.all p) = (contents blocks).all p := by
  induction blocks with
  | nil => rfl
  | cons b blocks ih => rw [List.all_cons, ih, Block.contents_cons, List.all_append]

/-- The table that is put together from the chunks that have been read. -/
lemma asRead_build {config : Config} {schema : Schema} (hconfig : config.validate = .ok ())
    (hvalid : schema.Valid) (hnamed : schema.Named) {blocks : List (Block schema.types)}
    (htight : ∀ b ∈ blocks, b.Tight) (hfew : blocks.length < 256 ^ 4) :
    AsRead config { build schema config with
      chunks := blocks.map Block.chunk
      numRecords := (contents blocks).length
      compact := (contents blocks).all fun r => r.slack.isEmpty } blocks where
  config_valid := hconfig
  config_eq := rfl
  generation_eq := rfl
  schema_valid := hvalid
  named := hnamed
  holds := ⟨⟨rfl, rfl, rfl⟩, fun _ => legible_of_tight htight⟩
  tight := htight
  few := hfew
  compact_eq := rfl

lemma build_read {config : Config} {schema : Schema} (blocks : List (Block schema.types)) :
    ({ build schema config with
        chunks := (blocks.map fun b => (b.chunk, b.records.all fun r => r.slack.isEmpty)).map
          Prod.fst
        numRecords := ((blocks.map fun b =>
          (b.chunk, b.records.all fun r => r.slack.isEmpty)).map fun p => p.1.numRecords).sum
        compact := (blocks.map fun b =>
          (b.chunk, b.records.all fun r => r.slack.isEmpty)).all Prod.snd } : Table) =
      { build schema config with
        chunks := blocks.map Block.chunk
        numRecords := (contents blocks).length
        compact := (contents blocks).all fun r => r.slack.isEmpty } := by
  rw [List.map_map, List.map_map, List.all_map, ← all_contents, contents, List.length_flatMap]
  rfl

/-- What is read is a table that can be stored in front of the rest, and every such table is
read. -/
theorem readWithConfig_eq_ok {config : Config} {t : Table} {input rest : Bytes} :
    readWithConfig config input = .ok (t, rest) ↔
      (∃ blocks, AsRead config t blocks) ∧ input = t.bytes ++ rest := by
  constructor
  · intro h
    unfold readWithConfig at h
    cases hconfig : config.validate with
    | error reason =>
      rw [hconfig] at h
      cases h
    | ok u =>
      rw [hconfig] at h
      obtain ⟨version, left₁, hversion, h₁⟩ := Decoder.bind_eq_ok.mp h
      obtain ⟨-, rfl⟩ := Decoder.word_eq_ok.mp (Decoder.within_eq_ok.mp hversion)
      by_cases hformat : version ≠ formatVersion
      · rw [if_pos hformat] at h₁
        cases h₁
      · rw [if_neg hformat] at h₁
        obtain ⟨schema, left₂, hschema, h₂⟩ := Decoder.bind_eq_ok.mp h₁
        obtain ⟨hvalid, hnamed, rfl⟩ := Schema.read_eq_ok.mp (Decoder.within_eq_ok.mp hschema)
        obtain ⟨count, left₃, hcount, h₃⟩ := Decoder.bind_eq_ok.mp h₂
        obtain ⟨hfew, rfl⟩ := Decoder.word_eq_ok.mp (Decoder.within_eq_ok.mp hcount)
        obtain ⟨chunks, left₄, hchunks, h₄⟩ := Decoder.bind_eq_ok.mp h₃
        obtain ⟨blocks, rfl, htight, rfl, rfl⟩ := readChunks_eq_ok.mp hchunks
        obtain ⟨ht, rfl⟩ := Decoder.pure_eq_ok.mp h₄
        obtain rfl := (build_read blocks).symm.trans ht
        refine ⟨⟨blocks, asRead_build hconfig hvalid hnamed htight hfew⟩, ?_⟩
        simp only [bytes, build, List.length_map, not_ne_iff.mp hformat, List.append_assoc]
  · rintro ⟨⟨blocks, hread⟩, rfl⟩
    have ht : t = { build t.schema config with
        chunks := blocks.map Block.chunk
        numRecords := (contents blocks).length
        compact := (contents blocks).all fun r => r.slack.isEmpty } := by
      rw [← hread.holds.chunks_eq, ← hread.holds.count_eq, ← hread.compact_eq, build,
        ← hread.generation_eq, ← hread.config_eq]
    have hcount : t.chunks.length < 256 ^ 4 := by
      rw [hread.holds.length_chunks]
      exact hread.few
    have hchunks : readChunks t.schema.types t.chunks.length 0
        (t.chunks.flatMap chunkBytes ++ rest) = .ok (blocks.map fun b =>
          (b.chunk, b.records.all fun r => r.slack.isEmpty), rest) := by
      refine readChunks_eq_ok.mpr ⟨blocks, hread.holds.length_chunks.symm, hread.tight, rfl, ?_⟩
      rw [hread.holds.chunks_eq]
    unfold readWithConfig
    rw [hread.config_valid, bytes, List.append_assoc, List.append_assoc, List.append_assoc]
    refine Decoder.bind_eq_ok.mpr ⟨formatVersion, _,
      Decoder.within_eq_ok.mpr (Decoder.word_eq_ok.mpr ⟨by decide, rfl⟩), ?_⟩
    rw [if_neg (fun hne => hne rfl)]
    refine Decoder.bind_eq_ok.mpr ⟨t.schema, _,
      Decoder.within_eq_ok.mpr (Schema.read_eq_ok.mpr ⟨hread.schema_valid, hread.named, rfl⟩), ?_⟩
    refine Decoder.bind_eq_ok.mpr ⟨t.chunks.length, _,
      Decoder.within_eq_ok.mpr (Decoder.word_eq_ok.mpr ⟨hcount, rfl⟩), ?_⟩
    refine Decoder.bind_eq_ok.mpr ⟨_, _, hchunks, ?_⟩
    refine Decoder.pure_eq_ok.mpr ⟨?_, rfl⟩
    exact (build_read blocks).trans ht.symm

end RecordStore.Table
