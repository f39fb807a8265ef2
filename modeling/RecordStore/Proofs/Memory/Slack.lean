import Mathlib
import RecordStore.Proofs.Memory.Session
import RecordStore.Proofs.Session.Storage

/-!
# Nothing is left in the slack

Buffers are not cleared when records move or go. Still the slack of every record that a run has
made is zero: growth clears what it takes in, and a field that gets shorter clears what it leaves.
So what is written of a table are its headers and fields, and zeros.
-/

namespace RecordStore

open Encoder (Writes)
open Table (Block Buffer)
open Table.Block (contents)
open Record (Stored headerBytes)

variable {types : List ValueType}

/-! ### Clear records -/

namespace Record

/-- A record of this size with these fields, and zeros behind them. -/
def plainBytes (size : Nat) (fields : List Bytes) : Bytes :=
  LittleEndian.encode headerBytes size ++
    (fields.flatten ++ Bytes.zeros (size - (headerBytes + fields.flatten.length)))

namespace Stored

variable {r r' : Stored types}

/-- The slack is all zeros. -/
def IsClear (r : Stored types) : Prop := ∀ byte ∈ r.slack, byte = 0

lemma eq_zero_of_mem_zeros {byte : UInt8} {n : Nat} (h : byte ∈ Bytes.zeros n) : byte = 0 :=
  List.eq_of_mem_replicate h

lemma IsFresh.isClear {values : List Value} {floor : Nat} (h : r.IsFresh values floor) :
    r.IsClear := by
  intro byte hbyte
  rw [h.slack_eq] at hbyte
  exact eq_zero_of_mem_zeros hbyte

lemma isClear_trim (r : Stored types) : r.trim.IsClear := fun _ => nofun

/-- What a shorter field leaves is clear, and so is what a record grows by. -/
lemma IsChanged.isClear {column : Nat} {field : Bytes} (h : r.IsChanged column field r')
    (hclear : r.IsClear) : r'.IsClear := by
  intro byte hbyte
  rw [h.slack_eq, List.mem_append] at hbyte
  rcases hbyte with hleft | hkept
  · exact eq_zero_of_mem_zeros hleft
  · rcases List.mem_append.mp (List.mem_of_mem_drop hkept) with hslack | hgrown
    · exact hclear byte hslack
    · exact eq_zero_of_mem_zeros hgrown

/-- A clear record is given by its size and its fields. -/
lemma IsClear.bytes_eq (h : r.IsClear) : r.bytes = plainBytes r.size r.fields := by
  have hslack : r.slack = Bytes.zeros r.slack.length := List.eq_replicate_iff.mpr ⟨rfl, h⟩
  have hlength : r.slack.length = r.size - (headerBytes + r.fields.flatten.length) := by
    rw [size, dataSize, Nat.add_sub_cancel_left]
  rw [plainBytes, ← hlength, ← hslack, bytes]

end Stored

end Record

/-! ### Runs -/

/-- Every request leaves clear records. -/
lemma Effect.isClear {t : Table} {records : List (Stored types)} {request : Request}
    {types' : List ValueType} {records' : List (Stored types')}
    (h : Effect t records request types' records') (hclear : ∀ r ∈ records, r.IsClear) :
    ∀ r ∈ records', r.IsClear := by
  cases h with
  | look | stale | setFieldNone | packed | rename => exact hclear
  | insert _ _ _ hfresh =>
    intro r hr
    rcases List.eq_or_mem_of_mem_insertIdx hr with rfl | hr
    · exact hfresh.isClear
    · exact hclear r hr
  | push _ hfresh =>
    intro r hr
    rcases List.mem_append.mp hr with hr | hr
    · exact hclear r hr
    · exact List.mem_singleton.mp hr ▸ hfresh.isClear
  | remove => exact fun r hr => hclear r (List.mem_of_mem_eraseIdx hr)
  | setField _ hr _ _ hchanged =>
    intro r' hr'
    rcases List.mem_or_eq_of_mem_set hr' with hr' | rfl
    · exact hclear r' hr'
    · exact hchanged.isClear (hclear _ (List.mem_of_getElem? hr))
  | clear => exact fun _ => nofun
  | pack =>
    intro r hr
    obtain ⟨r, -, rfl⟩ := List.mem_map.mp hr
    exact r.isClear_trim
  | @migrate schema _ _ hfresh =>
    generalize Table.migrate types schema.types (records.map Stored.values) = rows at hfresh
    induction hfresh with
    | nil => exact fun _ => nofun
    | cons hrow _ ih => exact List.forall_mem_cons.mpr ⟨hrow.isClear, ih⟩

/-- Whatever the run from an empty table, its records are clear. -/
theorem Session.Built.isClear {s : Session} (h : s.Built) :
    ∃ (types : List ValueType) (blocks : List (Block types)), s.Sound blocks ∧
      ∀ r ∈ contents blocks, r.IsClear := by
  induction h with
  | new hschema => exact ⟨_, [], Session.sound_build hschema.valid rfl, fun _ => nofun⟩
  | withConfig hschema h =>
    obtain ⟨hconfig, rfl⟩ := Session.withConfig_eq_ok.mp h
    exact ⟨_, [], Session.sound_build hschema.valid hconfig, fun _ => nofun⟩
  | step _ hadmits h ih =>
    obtain ⟨types, blocks, hsound, hclear⟩ := ih
    obtain ⟨types', blocks', hsound', heffect⟩ := (hsound.step_yields hadmits).post_of_ok h
    exact ⟨types', blocks', hsound', heffect.isClear hclear⟩

/-! ### What is written -/

namespace Table

/-- The bytes of a chunk of clear records, given by their sizes and fields. -/
def plainChunk (records : List (Nat × List Bytes)) : Bytes :=
  chunkBytes (.ofRecords (records.flatMap fun (size, fields) => Record.plainBytes size fields)
    records.length)

/-- The bytes of a table of clear records, chunk by chunk. -/
def plainBytes (schema : Schema) (layout : List (List (Nat × List Bytes))) : Bytes :=
  LittleEndian.encode 4 formatVersion ++
    (schema.bytes ++ (LittleEndian.encode 4 layout.length ++ layout.flatMap plainChunk))

/-- A table of clear records is written as their headers and fields, and zeros. -/
lemma Holds.bytes_eq_plain {t : Table} {blocks : List (Block types)} (h : t.Holds blocks)
    (hclear : ∀ r ∈ contents blocks, r.IsClear) :
    t.bytes = plainBytes t.schema
      (blocks.map fun b => b.records.map fun r => (r.size, r.fields)) := by
  have hchunk : ∀ b ∈ blocks, chunkBytes b.chunk =
      plainChunk (b.records.map fun r => (r.size, r.fields)) := by
    intro b hb
    have hlive : b.chunk.live = (b.records.map fun r => (r.size, r.fields)).flatMap
        fun (size, fields) => Record.plainBytes size fields := by
      change b.records.flatMap Stored.bytes = _
      rw [List.flatMap_map]
      refine List.flatMap_congr fun r hr => ?_
      exact (hclear r (List.mem_flatMap.mpr ⟨b, hb, hr⟩)).bytes_eq
    rw [plainChunk, ← hlive, List.length_map]
    rfl
  rw [bytes, plainBytes, h.chunks_eq, List.flatMap_map, List.flatMap_map, List.length_map,
    List.length_map, List.flatMap_congr hchunk]

end Table

namespace Resident

/-- In every record of every buffer, what is behind the last field is zero. -/
lemma Built.clear_slack {r : Resident} (h : r.Built) :
    ∀ b ∈ r.memory.buffers, ∃ records, Record.split b.live = .ok records ∧
      ∀ record ∈ records, ∃ fields slack,
        Record.IsRecord r.memory.schema.types record fields slack ∧ (∀ byte ∈ slack, byte = 0) ∧
          (r.memory.table.check = .ok () → Record.dataSize r.memory.schema.types record =
            .ok (record.length - slack.length)) := by
  obtain ⟨types, blocks, hsound, hclear⟩ := h.session.isClear
  have hchunks : r.memory.buffers.map Buffer.chunk = blocks.map Block.chunk :=
    hsound.holds.chunks_eq
  have htypes : r.memory.schema.types = types := hsound.holds.types_eq
  intro b hb
  have hseen : b.chunk ∈ blocks.map Block.chunk := hchunks ▸ List.mem_map_of_mem hb
  obtain ⟨block, hblock, hblock'⟩ := List.mem_map.mp hseen
  have hlive : block.records.flatMap Stored.bytes = b.live := congrArg Table.Chunk.live hblock'
  refine ⟨block.records.map Stored.bytes, hlive ▸ Stored.split_flatMap _, ?_⟩
  intro record hrecord
  obtain ⟨stored, hstored, rfl⟩ := List.mem_map.mp hrecord
  have hmem := List.mem_flatMap.mpr ⟨block, hblock, hstored⟩
  rw [htypes]
  refine ⟨stored.fields, stored.slack, stored.isRecord, hclear stored hmem, fun hcheck => ?_⟩
  have legible := hsound.check_iff.mp hcheck stored hmem
  rw [Stored.dataSize_bytes legible, stored.length_bytes, Stored.size, Nat.add_sub_cancel]

/-- What is written of a table, with its slack, is given by its rows and the sizes of its
records. -/
lemma Built.exists_layout {r : Resident} (h : r.Built) :
    ∃ layout : List (List (Nat × List Bytes)),
      (∀ row ∈ layout.flatten, List.Forall₂ Field.IsField r.memory.schema.types row.2) ∧
      (r.memory.table.check = .ok () →
        r.memory.table.storedRows = .ok (layout.flatten.map Prod.snd)) ∧
      Writes (fun e => Table.Error.isStream e = true) r.memory.table.writeAsIs
        (Table.plainBytes r.memory.schema layout) := by
  obtain ⟨types, blocks, hsound, hclear⟩ := h.session.isClear
  have hlayout : (blocks.map fun b => b.records.map fun r => (r.size, r.fields)).flatten =
      (contents blocks).map fun r => (r.size, r.fields) := by
    rw [contents, List.map_flatMap, ← List.flatMap_def]
  refine ⟨blocks.map fun b => b.records.map fun r => (r.size, r.fields), ?_, ?_, ?_⟩
  · have htypes : r.memory.schema.types = types := hsound.holds.types_eq
    rw [hlayout, htypes]
    exact List.forall_mem_map.mpr fun r _ => r.isField
  · intro hcheck
    have legible := hsound.check_iff.mp hcheck
    refine (hsound.holds.storedRows_eq legible).trans (congrArg Except.ok ?_)
    rw [hlayout, List.map_map]
    rfl
  · have hbytes := hsound.holds.bytes_eq_plain hclear
    exact hbytes ▸ (Table.emits_writeAsIs hsound.schema_valid).writes

/-- The runs in memory that start from an empty table are those of sessions. In every record of
every buffer that such a run has made, all bytes from the end of the last field to the end of the
record are zero, whatever lay there before. So the table is written as it is as nothing but the
headers and the present fields of its records, and zeros. Where the table passes its check,
these are the fields that are found in it. -/
theorem no_residue :
    (∀ s : Session, s.Built → ∃ r : Resident, r.Built ∧ r.session = s) ∧
    ∀ r : Resident, r.Built → r.session.Built ∧
      (∀ b ∈ r.memory.buffers, ∃ records, Record.split b.live = .ok records ∧
        ∀ record ∈ records, ∃ fields slack,
          Record.IsRecord r.memory.schema.types record fields slack ∧ (∀ byte ∈ slack, byte = 0) ∧
            (r.memory.table.check = .ok () → Record.dataSize r.memory.schema.types record =
              .ok (record.length - slack.length))) ∧
      ∃ layout : List (List (Nat × List Bytes)),
        (∀ row ∈ layout.flatten, List.Forall₂ Field.IsField r.memory.schema.types row.2) ∧
        (r.memory.table.check = .ok () →
          r.memory.table.storedRows = .ok (layout.flatten.map Prod.snd)) ∧
        Writes (fun e => Table.Error.isStream e = true) r.memory.table.writeAsIs
          (Table.plainBytes r.memory.schema layout) :=
  ⟨fun _ hs => hs.exists_resident, fun _ hr => ⟨hr.session, hr.clear_slack, hr.exists_layout⟩⟩

open Session (textColumn reachable_textColumn pushedText)

/-- Two texts, the first of which was put where a longer one had been. Bytes of this one are still
in front of it. -/
def reused : Resident :=
  ⟨⟨textColumn, [⟨[13, 0, 0, 0, 8, 97] ++ ([7, 0, 0, 0, 0, 0, 0] ++ [7, 0, 0, 0, 2, 120, 121]) ++
    Bytes.zeros 44, 6, 20, 2, by decide, by decide⟩], 2, ⟨64, 2, false⟩, 4, false⟩,
    [⟨0, 0, 0, 6, 4⟩, ⟨0, 0, 0, 13, 3⟩, ⟨0, 0, 0, 0, 2⟩, ⟨1, 0, 1, 13, 2⟩, ⟨0, 0, 0, 0, 1⟩]⟩

lemma built_reused : reused.Built := by
  have hlong : ∀ v ∈ [Value.string .bits8 [97, 98, 99, 100, 101, 102, 103, 104]], v.Proper := by
    decide
  have hshort : ∀ v ∈ [Value.string .bits8 [120, 121]], v.Proper := by decide
  have hempty : ∀ v ∈ [Value.string .bits8 []], v.Proper := by decide
  have hbuild : Built ⟨.build textColumn ⟨64, 2, false⟩, []⟩ := .build reachable_textColumn rfl
  have hfirst := Built.step hbuild (show Session.Admits _ (.push _) from hlong) rfl
  have hsecond := Built.step hfirst (show Session.Admits _ (.push _) from hshort) rfl
  have hstart := Built.step hsecond (show Session.Admits _ .start from trivial) rfl
  have hremoved := Built.step hstart
    (show Session.Admits _ (.remove ⟨0, 0, 0, 0, 2⟩) from List.mem_cons_self) rfl
  exact Built.step hremoved
    (show Session.Admits _ (.insert ⟨0, 0, 0, 13, 3⟩ _) from ⟨List.mem_cons_self, hempty⟩) rfl

theorem no_residue_where_text_was :
    (∃ b ∈ reused.memory.buffers, b.data.take b.head = [13, 0, 0, 0, 8, 97]) ∧
      (∃ s : Session, s.Built ∧ s = reused.session) ∧
      (∀ b ∈ reused.memory.buffers, ∃ records, Record.split b.live = .ok records ∧
        ∀ record ∈ records, ∃ slack : Bytes,
          Record.dataSize textColumn.types record = .ok (record.length - slack.length) ∧
            ∀ byte ∈ slack, byte = 0) ∧
      ∃ r : Resident, r.Built ∧ r.session = pushedText := by
  obtain ⟨hresident, hclear⟩ := no_residue
  obtain ⟨hbuilt, hslack, -⟩ := hclear reused built_reused
  have hcheck : reused.memory.table.check = .ok () := by decide +kernel
  refine ⟨⟨_, List.mem_cons_self, rfl⟩, ⟨_, hbuilt, rfl⟩, fun b hb => ?_,
    hresident _ Session.built_pushedText⟩
  obtain ⟨records, hsplit, hrecords⟩ := hslack b hb
  refine ⟨records, hsplit, fun record hrecord => ?_⟩
  obtain ⟨fields, slack, -, hzero, hsize⟩ := hrecords record hrecord
  exact ⟨slack, hsize hcheck, hzero⟩

end Resident

end RecordStore
