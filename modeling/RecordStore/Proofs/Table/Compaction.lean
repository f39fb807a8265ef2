import Mathlib
import RecordStore.Proofs.Table.Canonical

/-!
# As few chunks as can be

Rows are cut into groups, and a group may be as heavy as a chunk is large, or else is a single row.
Packing goes through the rows once and closes a chunk only when the next row does not fit. No way of
cutting has fewer groups: its first group holds no more than the first chunk does, and what is left
when rows are dropped in front can be cut into as few groups as before.
-/

namespace RecordStore.Table

open Record
open Block (contents)

/-! ### Cutting into groups -/

/-- The groups are the rows in their order, none of them empty, and each of them weighs no more than
the limit or is a single row. -/
structure Cut {α : Type} (weight : α → Nat) (limit : Nat) (rows : List α)
    (groups : List (List α)) : Prop where
  flatten_eq : groups.flatten = rows
  occupied : ∀ group ∈ groups, group ≠ []
  light : ∀ group ∈ groups, (group.map weight).sum ≤ limit ∨ group.length = 1

namespace Cut

variable {α β : Type} {weight : α → Nat} {limit : Nat} {rows : List α} {groups : List (List α)}

lemma tail {group : List α} (h : Cut weight limit rows (group :: groups)) :
    Cut weight limit groups.flatten groups where
  flatten_eq := rfl
  occupied := (List.forall_mem_cons.mp h.occupied).2
  light := (List.forall_mem_cons.mp h.light).2

/-- Rows that weigh as much are cut in the same way. -/
lemma map {weight' : β → Nat} (f : α → β) (hweight : ∀ a ∈ rows, weight' (f a) = weight a)
    (h : Cut weight limit rows groups) :
    Cut weight' limit (rows.map f) (groups.map (List.map f)) where
  flatten_eq := by rw [← List.map_flatten, h.flatten_eq]
  occupied := by
    rintro _ hmem
    obtain ⟨group, hgroup, rfl⟩ := List.mem_map.mp hmem
    exact mt List.map_eq_nil_iff.mp (h.occupied group hgroup)
  light := by
    rintro _ hmem
    obtain ⟨group, hgroup, rfl⟩ := List.mem_map.mp hmem
    have hsame : ∀ a ∈ group, (weight' ∘ f) a = weight a := by
      intro a ha
      exact hweight a (h.flatten_eq ▸ List.mem_flatten_of_mem hgroup ha)
    rw [List.map_map, List.map_congr_left hsame, List.length_map]
    exact h.light group hgroup

/-- Without its first row what is left is cut into no more groups. -/
lemma drop_one {a : α} (h : Cut weight limit (a :: rows) groups) :
    ∃ groups', Cut weight limit rows groups' ∧ groups'.length ≤ groups.length := by
  cases groups with
  | nil => cases h.flatten_eq
  | cons group groups =>
    have hflatten := h.flatten_eq
    cases group with
    | nil => exact absurd rfl (h.occupied [] List.mem_cons_self)
    | cons b group =>
      rw [List.flatten_cons, List.cons_append, List.cons.injEq] at hflatten
      obtain ⟨rfl, rfl⟩ := hflatten
      have htail := h.tail
      cases group with
      | nil => exact ⟨groups, htail, Nat.le_succ _⟩
      | cons c group =>
        have hlight : ((c :: group).map weight).sum ≤ limit := by
          rcases h.light _ List.mem_cons_self with hsum | hone
          · rw [List.map_cons, List.sum_cons] at hsum
            omega
          · cases hone
        refine ⟨(c :: group) :: groups, ⟨rfl, ?_, ?_⟩, le_rfl⟩
        · exact List.forall_mem_cons.mpr ⟨List.cons_ne_nil _ _, htail.occupied⟩
        · exact List.forall_mem_cons.mpr ⟨.inl hlight, htail.light⟩

/-- Without some rows in front what is left is cut into no more groups. -/
lemma drop {front : List α} (h : Cut weight limit (front ++ rows) groups) :
    ∃ groups', Cut weight limit rows groups' ∧ groups'.length ≤ groups.length := by
  induction front generalizing groups with
  | nil => exact ⟨groups, h, le_rfl⟩
  | cons a front ih =>
    obtain ⟨groups', h', hle⟩ := h.drop_one
    obtain ⟨groups'', h'', hle'⟩ := ih h'
    exact ⟨groups'', h'', hle'.trans hle⟩

/-- Rows that together with the next one weigh more than the limit are the end of no group that goes
on. So the next row and those behind it are cut into fewer groups. -/
lemma exists_behind {taken : List α} {a : α} (h : Cut weight limit (taken ++ a :: rows) groups)
    (htaken : taken ≠ []) (hheavy : limit < (taken.map weight).sum + weight a) :
    ∃ groups', Cut weight limit (a :: rows) groups' ∧ groups'.length + 1 ≤ groups.length := by
  cases groups with
  | nil => exact absurd h.flatten_eq.symm (by simp)
  | cons group groups =>
    have hsplit : group ++ groups.flatten = taken ++ a :: rows := h.flatten_eq
    rcases List.append_eq_append_iff.mp hsplit with ⟨extra, rfl, hrest⟩ | ⟨extra, rfl, hrest⟩
    · -- The first group is a part of what was taken.
      obtain ⟨groups', h', hle⟩ := (hrest ▸ h.tail).drop
      exact ⟨groups', h', Nat.succ_le_succ hle⟩
    · cases extra with
      | nil => exact ⟨groups, hrest ▸ h.tail, le_rfl⟩
      | cons b extra =>
        -- The first group has the next row as well, so it is too heavy.
        rw [List.cons_append, List.cons.injEq] at hrest
        obtain ⟨rfl, -⟩ := hrest
        have hlength := List.length_pos_of_ne_nil htaken
        rcases h.light _ List.mem_cons_self with hsum | hone
        · rw [List.map_append, List.sum_append, List.map_cons, List.sum_cons] at hsum
          omega
        · rw [List.length_append, List.length_cons] at hone
          omega

/-- Rows of which no two weigh as little as the limit are cut into single rows. -/
lemma length_eq_of_heavy (h : Cut weight limit rows groups)
    (heavy : ∀ a ∈ rows, limit < 2 * weight a) : groups.length = rows.length := by
  induction groups generalizing rows with
  | nil =>
    rw [← h.flatten_eq]
    rfl
  | cons group groups ih =>
    have hflatten := h.flatten_eq
    rw [List.flatten_cons] at hflatten
    have hone : group.length = 1 := by
      rcases h.light group List.mem_cons_self with hsum | hone
      · match group, h.occupied group List.mem_cons_self with
        | [_], _ => rfl
        | a :: b :: others, _ =>
          have ha := heavy a (hflatten ▸ by simp)
          have hb := heavy b (hflatten ▸ by simp)
          rw [List.map_cons, List.map_cons, List.sum_cons, List.sum_cons] at hsum
          omega
      · exact hone
    have hrest := ih h.tail fun a ha => heavy a (hflatten ▸ List.mem_append_right _ ha)
    rw [← hflatten, List.length_append, hone, List.length_cons, hrest, Nat.add_comm]

end Cut

/-! ### Packing cuts into the fewest groups -/

/-- Records that are packed behind others get no more chunks than there are groups in any cut. -/
theorem length_packFrom_le_of_cut {chunkSize : Nat} {current : Chunk} {taken : List Bytes}
    (records : List Bytes) {groups : List (List Bytes)} (hhead : current.head = 0)
    (hcapacity : chunkSize ≤ current.capacity)
    (hused : current.live.length = (taken.map List.length).sum)
    (hcount : current.numRecords = taken.length)
    (h : Cut List.length chunkSize (taken ++ records) groups) :
    (packFrom chunkSize current records).length ≤ groups.length := by
  induction records generalizing current taken groups with
  | nil =>
    rw [packFrom]
    split_ifs with hnone
    · exact Nat.zero_le _
    · cases groups with
      | nil =>
        rw [hcount, (List.append_eq_nil_iff.mp h.flatten_eq.symm).1] at hnone
        exact absurd rfl hnone
      | cons group groups => exact Nat.succ_le_succ (Nat.zero_le _)
  | cons record records ih =>
    have htail : current.spaceTail = current.capacity - (taken.map List.length).sum := by
      rw [Chunk.spaceTail, Chunk.tail, hhead, Nat.zero_add, hused]
    -- the next chunk, should the record not fit
    have hnext : ∀ {groups' : List (List Bytes)},
        Cut List.length chunkSize (record :: records) groups' →
        (packFrom chunkSize ((Chunk.empty (max chunkSize record.length)).push record)
          records).length ≤ groups'.length := by
      intro groups' h'
      exact @ih _ [record] groups' rfl (Nat.le_max_left _ _) (by simp [Chunk.push, Chunk.empty])
        rfl h'
    rw [packFrom, htail]
    split_ifs with hfull hnone
    · -- Nothing was taken, and the record gets a chunk of its own size.
      rw [hcount, List.length_eq_zero_iff] at hnone
      subst hnone
      exact hnext h
    · -- The current chunk is closed: no group has all that was taken and the record.
      rw [hcount] at hnone
      have htaken : taken ≠ [] := List.ne_nil_of_length_pos (Nat.pos_of_ne_zero hnone)
      obtain ⟨groups', h', hle⟩ := h.exists_behind htaken (by omega)
      exact (Nat.succ_le_succ (hnext h')).trans hle
    · -- The record is taken.
      have hused' : (current.push record).live.length =
          ((taken ++ [record]).map List.length).sum := by
        simp only [Chunk.push, List.length_append, hused, List.map_append, List.sum_append,
          List.map_singleton, List.sum_singleton]
      have hcount' : (current.push record).numRecords = (taken ++ [record]).length := by
        simp only [Chunk.push, hcount, List.length_append, List.length_singleton]
      have hrows : taken ++ record :: records = (taken ++ [record]) ++ records := by
        rw [List.append_assoc, List.singleton_append]
      exact ih hhead hcapacity hused' hcount' (hrows ▸ h)

/-- Packed records are in no more chunks than there are groups in any cut. -/
lemma length_pack_le_of_cut {chunkSize : Nat} {records : List Bytes} {groups : List (List Bytes)}
    (h : Cut List.length chunkSize records groups) :
    (pack chunkSize records).length ≤ groups.length :=
  @length_packFrom_le_of_cut chunkSize (.empty chunkSize) [] records groups rfl le_rfl rfl rfl h

variable {types : List ValueType}

/-! ### The groups that packing makes -/

/-- Records in no more room than one of them takes are this one. -/
lemma length_eq_one_of_size_le {records : List (Stored types)} {r : Stored types}
    (hr : r ∈ records) (h : (records.flatMap Stored.bytes).length ≤ r.size) :
    records.length = 1 := by
  obtain ⟨before, after, rfl⟩ := List.append_of_mem hr
  rw [List.flatMap_append, List.flatMap_cons, List.length_append, List.length_append,
    Stored.length_bytes] at h
  have hbefore : before = [] := eq_nil_of_length_flatMap (by omega)
  have hafter : after = [] := eq_nil_of_length_flatMap (by omega)
  rw [hbefore, hafter]
  rfl

/-- The records of a snug chunk weigh no more than the size of a chunk, or are a single record. -/
lemma Snug.light {chunkSize : Nat} {b : Block types} (h : Snug chunkSize b) :
    (b.records.flatMap Stored.bytes).length ≤ chunkSize ∨ b.records.length = 1 := by
  have hroom := b.room
  rw [h.head_eq, Nat.zero_add] at hroom
  rcases h.capacity_eq with hcapacity | ⟨r, hr, hcapacity⟩
  · exact .inl (hcapacity ▸ hroom)
  · exact .inr (length_eq_one_of_size_le hr (hcapacity ▸ hroom))

/-- The records of packed chunks, chunk by chunk, are a cut. -/
lemma Packed.cut {chunkSize : Nat} {records : List (Stored types)} {blocks : List (Block types)}
    (h : Packed chunkSize records blocks) :
    Cut Stored.size chunkSize records (blocks.map Block.records) where
  flatten_eq := by rw [← List.flatMap_def, ← h.contents_eq, contents]
  occupied := by
    intro group hgroup
    obtain ⟨b, -, rfl⟩ := List.mem_map.mp hgroup
    exact b.occupied
  light := by
    intro group hgroup
    obtain ⟨b, hb, rfl⟩ := List.mem_map.mp hgroup
    have hsize : (b.records.map Stored.size).sum = (b.records.flatMap Stored.bytes).length := by
      simp only [List.length_flatMap, Stored.length_bytes]
    rw [hsize]
    exact (h.snug b hb).light

/-- Packing gives each record a chunk of its own if no two of them go into one. -/
lemma Packed.length_eq_of_heavy {chunkSize : Nat} {records : List (Stored types)}
    {blocks : List (Block types)} (h : Packed chunkSize records blocks)
    (heavy : ∀ r ∈ records, chunkSize < 2 * r.size) : blocks.length = records.length := by
  rw [← h.cut.length_eq_of_heavy heavy, List.length_map]

/-! ### Compacted tables -/

/-- The bytes of a row without slack: the header and the fields. -/
def rowSize (fields : List Bytes) : Nat := headerBytes + fields.flatten.length

/-- The stored size of every record of the chunk is that of its header and its fields. -/
def Chunk.IsDense (types : List ValueType) (c : Chunk) : Prop :=
  ∃ records, c.records = .ok records ∧
    ∀ record ∈ records, Record.dataSize types record = .ok record.length

/-- The table is a compact form of another one: the same schema and the same rows, value by value
and byte by byte, in chunks without free space in front and without slack, as few as there can be.
Packing it again changes nothing, the generation included. -/
structure Compacts (t packed : Table) : Prop where
  schema_eq : packed.schema = t.schema
  count_eq : packed.numRecords = t.numRecords
  cell_eq : ∀ index column, ∃ v, (do t.cell (← t.cursorAt index) column) = .ok v ∧
    (do packed.cell (← packed.cursorAt index) column) = .ok v
  storedRows_eq : packed.storedRows = t.storedRows
  head_eq : ∀ c ∈ packed.chunks, c.head = 0
  isDense : ∀ c ∈ packed.chunks, c.IsDense t.schema.types
  compact_eq : packed.compact = true
  isLeast : ∃ rows, t.storedRows = .ok rows ∧
    IsLeast {n | ∃ groups, Cut rowSize t.config.chunkSize rows groups ∧ groups.length = n}
      packed.chunks.length
  optimize_eq : packed.optimize = .ok packed

/-- A chunk of legible records without slack is dense. -/
lemma Block.isDense_chunk {b : Block types} (legible : ∀ r ∈ b.records, r.Legible)
    (h : ∀ r ∈ b.records, r.slack = []) : b.chunk.IsDense types := by
  refine ⟨_, b.records_chunk, ?_⟩
  intro record hrecord
  obtain ⟨r, hr, rfl⟩ := List.mem_map.mp hrecord
  rw [Stored.dataSize_bytes (legible r hr), r.length_bytes, r.dataSize_eq_size_iff.mpr (h r hr)]

/-- The bytes of a record without slack, by its fields. -/
def denseBytes (fields : List Bytes) : Bytes :=
  LittleEndian.encode headerBytes (rowSize fields) ++ fields.flatten

lemma length_denseBytes (fields : List Bytes) : (denseBytes fields).length = rowSize fields := by
  rw [denseBytes, List.length_append, LittleEndian.length_encode, rowSize]

/-- The packed chunks are as few as the rows can be cut into. -/
lemma Packed.isLeast {chunkSize : Nat} {records : List (Stored types)} {blocks : List (Block types)}
    (h : Packed chunkSize (records.map Stored.trim) blocks)
    (hpack : pack chunkSize (records.map fun r => r.trim.bytes) = blocks.map Block.chunk) :
    IsLeast {n | ∃ groups, Cut rowSize chunkSize (records.map Stored.fields) groups ∧
      groups.length = n} blocks.length := by
  constructor
  · refine ⟨(blocks.map Block.records).map (List.map Stored.fields), ?_, by simp⟩
    have hweight : ∀ r ∈ records.map Stored.trim, rowSize r.fields = r.size := by
      intro r hr
      obtain ⟨r, -, rfl⟩ := List.mem_map.mp hr
      exact r.size_trim.symm
    have hcut := h.cut.map Stored.fields hweight
    rw [List.map_map] at hcut
    exact hcut
  · rintro n ⟨groups, hcut, rfl⟩
    have hdense := hcut.map denseBytes fun fields _ => length_denseBytes fields
    have hbytes : (records.map Stored.fields).map denseBytes =
        records.map fun r => r.trim.bytes := by
      rw [List.map_map]
      exact List.map_congr_left fun r _ => r.bytes_trim.symm
    rw [hbytes] at hdense
    have hle := length_pack_le_of_cut hdense
    rwa [hpack, List.length_map, List.length_map] at hle

end RecordStore.Table
