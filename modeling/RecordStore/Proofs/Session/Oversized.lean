import Mathlib
import RecordStore.Proofs.Session.Canonical
import RecordStore.Proofs.Session.Segments
import RecordStore.Proofs.Table.Tailored

/-!
# Records that are larger than a chunk

A record that is larger than a usual chunk should have a chunk of its own. Appending and packing see
to that. An insertion and a field that grows may split a chunk, and the new chunk then takes in the
smaller side of the old one along with the record. So large records are alone as long as all that
moves along fits into a usual chunk, and a large record that takes others along is not alone.
-/

namespace RecordStore

open Table (Block Cursor Opening Resizing Writes)
open Table.Block (contents)
open Record (Stored)

variable {types : List ValueType}

namespace Table

/-- Every record that is larger than a usual chunk is alone in its chunk. -/
def LargeAlone (t : Table) : Prop :=
  ∀ c ∈ t.chunks, ∃ records, c.records = .ok records ∧
    ∀ record ∈ records, t.config.chunkSize < record.length → records = [record]

variable {t t' : Table} {blocks : List (Block types)}

lemma Holds.largeAlone (h : t.Holds blocks) (htailored : t.Tailored) : t.LargeAlone := by
  intro c hc
  have htailored' := htailored c hc
  rw [h.chunks_eq] at hc
  obtain ⟨b, -, rfl⟩ := List.mem_map.mp hc
  refine ⟨_, b.records_chunk, fun record hrecord hlarge => ?_⟩
  obtain ⟨r, hr, rfl⟩ := List.mem_map.mp hrecord
  rw [r.length_bytes] at hlarge
  rw [Block.records_eq_singleton htailored' hr hlarge]
  rfl

/-- A packed table is tailored. -/
lemma Holds.tailored_of_isPacked (h : t.Holds blocks) (hpacked : t.IsPacked) : t.Tailored := by
  obtain ⟨blocks', hchunks, hpacked'⟩ := pack_eq t.config.chunkSize (contents blocks)
  refine tailored_of_chunks_eq ?_ fun b hb => (hpacked'.snug b hb).tailored
  rw [h.isPacked_iff.mp hpacked, hchunks]

/-- A large record that takes others along is not alone. -/
lemma Writes.not_largeAlone {z : Resizing} {o o' : Opening types} {r : Stored types}
    (h : Writes t z o o' r t') {taken : Nat} (htaken : z.taken = .ok taken) (hpos : 0 < taken)
    (hlarge : t.config.chunkSize < z.new) : ¬ t'.LargeAlone := by
  intro halone
  obtain ⟨b, hb, hr, hcrowded⟩ := h.exists_crowded htaken hpos
  obtain ⟨records, hrecords, honly⟩ := halone _ hb
  obtain rfl := Except.ok.inj (b.records_chunk.symm.trans hrecords)
  have hsize : t'.config.chunkSize < r.bytes.length := by
    rw [h.config_eq, r.length_bytes, ← h.size_eq]
    exact hlarge
  have hone := congrArg List.length (honly _ (List.mem_map_of_mem hr) hsize)
  rw [List.length_map, List.length_singleton] at hone
  omega

end Table

/-- Requests that may split a chunk between two of its records. -/
def Request.splits : Request → Bool
  | .insert _ _ | .setField _ _ _ => true
  | _ => false

namespace Session

variable {s s' : Session} {blocks : List (Block types)} {request : Request}

/-- All that moves along with the records that the request makes or changes fits. -/
def Fits (s : Session) (request : Request) : Prop := ∀ z, s.Resizes request z → z.Fits

/-- The sessions of runs that start from an empty table and move along only what fits. -/
inductive Orderly : Session → Prop
  | new {schema : Schema} (hschema : schema.Reachable) : Orderly ⟨.new schema, []⟩
  | withConfig {schema : Schema} {config : Table.Config} {t : Table} (hschema : schema.Reachable)
      (h : Table.withConfig schema config = .ok t) : Orderly ⟨t, []⟩
  | step {s s' : Session} {request : Request} (hs : Orderly s) (hadmits : s.Admits request)
      (hfits : s.Fits request) (h : s.step request = .ok s') : Orderly s'

lemma Orderly.built (h : s.Orderly) : s.Built := by
  induction h with
  | new hschema => exact .new hschema
  | withConfig hschema h => exact .withConfig hschema h
  | step _ hadmits _ h ih => exact .step ih hadmits h

/-! ### One request -/

namespace Sound

/-- A request that may split a chunk makes room once, and writes its record there. -/
lemma exists_writes (h : s.Sound blocks) (hadmits : s.Admits request)
    (hsplits : request.splits = true) (hchanges : s.Changes request)
    (hrun : s.step request = .ok s') :
    ∃ (z : Resizing) (o o' : Opening types) (r : Stored types), s.Resizes request z ∧
      (∀ z', s.Resizes request z' → z' = z) ∧ Writes s.table z o o' r s'.table := by
  cases request with
  | insert c values =>
    obtain ⟨result, hresult, rfl⟩ := exists_of_map_ok hrun
    obtain ⟨hcurrent, hseated⟩ := (h.holds.isPosition_iff (h.seated c hadmits.1)).mp hchanges
    obtain ⟨z, o, o', r, hroom, hwrites⟩ :=
      h.holds.exists_insert_writes hcurrent hseated hadmits.2 hresult
    rw [← h.holds.types_eq] at hroom
    refine ⟨z, o, o', r, .insert hchanges hroom, ?_, hwrites⟩
    rintro z' (⟨-, hroom'⟩ | _)
    exact Except.ok.inj (hroom'.symm.trans hroom)
  | setField c column value =>
    obtain ⟨result, hresult, rfl⟩ := exists_of_map_ok hrun
    obtain ⟨hvalid, hcolumn⟩ := hchanges
    obtain ⟨hcurrent, hseated, -⟩ := (h.holds.isValid_iff (h.seated c hadmits.1)).mp hvalid
    obtain ⟨-, r, hr⟩ := h.exists_record_of_isValid hadmits.1 hvalid
    rw [← Schema.length_types, h.holds.types_eq] at hcolumn
    have htype : types[column]? = some types[column] := List.getElem?_eq_getElem hcolumn
    have hnull := h.isNull_eq_false _ (List.getElem_mem hcolumn)
    obtain ⟨z, o, o', r', hroom, hwrites⟩ :=
      h.holds.exists_setField_writes hcurrent hseated hr htype hnull hadmits.2 hresult
    have htype' : s.table.schema.type? column = some types[column] :=
      (h.holds.type?_eq column).trans htype
    refine ⟨z, o, o', r', .setField hvalid htype' hroom, ?_, hwrites⟩
    rintro z' (_ | _ | _ | ⟨-, htype'', hroom'⟩)
    obtain rfl := Option.some.inj (htype'.symm.trans htype'')
    exact Except.ok.inj (hroom'.symm.trans hroom)
  | start | finish | seek | advance | advanceBy | rows | push | remove | clear | optimize | write
    | configure => cases hsplits

/-- Nothing moves along in a request that does not split chunks. -/
lemma taken_eq_zero (h : s.Sound blocks) (hadmits : s.Admits request)
    (hsplits : request.splits = false) {z : Resizing} (hz : s.Resizes request z) :
    z.taken = .ok 0 := by
  cases hz with
  | insert | setField => cases hsplits
  | push hroom => exact h.holds.taken_of_roomFor_endCursor hroom
  | remove hvalid hrun =>
    obtain ⟨hseated, r, hr⟩ := h.exists_record_of_isValid hadmits hvalid
    obtain rfl := Except.ok.inj (hrun.symm.trans (h.holds.record_eq hseated hr))
    rw [r.length_bytes]
    exact h.holds.taken_of_remove hseated hr
  | configure hdiffers hkept hrows hpushed hroom =>
    obtain ⟨blocks', hholds⟩ := h.exists_holds_of_pushAll hrows hpushed
    exact hholds.taken_of_roomFor_endCursor hroom

/-- A request that moves along only what fits keeps a table tailored. -/
theorem step_tailored (h : s.Sound blocks) (hadmits : s.Admits request)
    (htailored : s.table.Tailored) (hfits : s.Fits request) (hrun : s.step request = .ok s') :
    s'.table.Tailored := by
  by_cases hchanges : s.Changes request
  · cases hsplits : request.splits with
    | true =>
      obtain ⟨z, o, o', r, hz, -, hwrites⟩ := h.exists_writes hadmits hsplits hchanges hrun
      exact hwrites.tailored htailored (hfits z hz)
    | false =>
      cases request with
      | insert | setField => cases hsplits
      | start | finish | seek | advance | advanceBy | rows => cases hchanges
      | push values =>
        obtain ⟨result, hresult, rfl⟩ := exists_of_map_ok hrun
        exact h.holds.push_tailored htailored hadmits hresult
      | remove c =>
        obtain ⟨result, hresult, rfl⟩ := exists_of_map_ok hrun
        obtain ⟨hcurrent, hseated, hlt⟩ :=
          (h.holds.isValid_iff (h.seated c hadmits)).mp hchanges
        exact h.holds.remove_tailored htailored hcurrent hseated hlt hresult
      | clear =>
        rw [step, Table.clear_eq] at hrun
        cases hrun
        exact Table.tailored_of_chunks_eq_nil rfl
      | optimize | write =>
        exact h.holds.optimize_tailored hchanges (optimize_of_packs rfl hrun)
      | configure schema =>
        obtain ⟨⟨changed, t⟩, hresult, rfl⟩ := exists_of_map_ok hrun
        exact h.holds.configure_tailored htailored hresult
  · obtain ⟨kept, hrun', hkeeps, -⟩ := h.step_idle hadmits hchanges
    obtain rfl := Except.ok.inj (hrun.symm.trans hrun')
    rw [hkeeps.eq]
    exact htailored

/-- A large record that a request moves together with others is not alone. -/
lemma not_largeAlone (h : s.Sound blocks) (hadmits : s.Admits request)
    (hrun : s.step request = .ok s') {z : Resizing} (hz : s.Resizes request z) {taken : Nat}
    (htaken : z.taken = .ok taken) (hpos : 0 < taken)
    (hlarge : s.table.config.chunkSize < z.new) : ¬ s'.table.LargeAlone := by
  cases hsplits : request.splits with
  | true =>
    have hchanges : s.Changes request := by
      cases hz with
      | insert hposition => exact hposition
      | setField hvalid htype =>
        rw [Schema.type?_eq] at htype
        exact ⟨hvalid, Schema.length_types _ ▸ (List.getElem?_eq_some_iff.mp htype).1⟩
      | push | remove | configure => cases hsplits
    obtain ⟨z', o, o', r, -, honly, hwrites⟩ := h.exists_writes hadmits hsplits hchanges hrun
    obtain rfl := honly z hz
    exact hwrites.not_largeAlone htaken hpos hlarge
  | false =>
    obtain rfl := Except.ok.inj (htaken.symm.trans (h.taken_eq_zero hadmits hsplits hz))
    exact absurd hpos (Nat.lt_irrefl 0)

end Sound

/-! ### Runs -/

lemma Orderly.tailored (h : s.Orderly) : s.table.Tailored := by
  induction h with
  | new hschema => exact Table.tailored_of_chunks_eq_nil rfl
  | withConfig hschema h =>
    obtain ⟨-, rfl⟩ := withConfig_eq_ok.mp h
    exact Table.tailored_of_chunks_eq_nil rfl
  | step hs hadmits hfits hrun ih =>
    obtain ⟨types, blocks, hsound⟩ := hs.built.reachable.sound
    exact hsound.step_tailored hadmits ih hfits hrun

/-- Requests that do not split chunks keep a run orderly. -/
lemma Orderly.step_of_splits_eq_false (h : s.Orderly) (hadmits : s.Admits request)
    (hsplits : request.splits = false) (hrun : s.step request = .ok s') : s'.Orderly := by
  obtain ⟨types, blocks, hsound⟩ := h.built.reachable.sound
  exact .step h hadmits (fun z hz => .of_taken (hsound.taken_eq_zero hadmits hsplits hz)) hrun

/-- A table that was not read is tailored when it has been packed. -/
lemma Built.tailored_of_packs (h : s.Built) (hpacks : request.packs = true)
    (hrun : s.step request = .ok s') : s'.table.Tailored := by
  obtain ⟨types, blocks, hsound⟩ := h.reachable.sound
  have hresult := optimize_of_packs hpacks hrun
  cases hcompact : s.table.compact with
  | true =>
    rw [Table.Holds.optimize_of_compact hcompact] at hresult
    rw [← Except.ok.inj hresult]
    exact hsound.holds.tailored_of_isPacked (h.isPacked hcompact)
  | false => exact hsound.holds.optimize_tailored hcompact hresult

lemma Reachable.largeAlone (h : s.Reachable) (htailored : s.table.Tailored) :
    s.table.LargeAlone := by
  obtain ⟨types, blocks, hsound⟩ := h.sound
  exact hsound.holds.largeAlone htailored

/-- In a run from an empty table the records that are larger than a usual chunk are alone in their
chunks, as long as all that moves along fits, and again when the table has been packed. Only an
insertion and a change of a field can move others along. Where one of them does so for a record that
is larger than a usual chunk, the record is not alone. -/
theorem Built.large_records (h : s.Built) :
    (s.Orderly → s.table.LargeAlone) ∧
      ∀ request s', s.Admits request → s.step request = .ok s' →
        (request.packs = true → s'.table.LargeAlone) ∧
        (request.splits = false → s.Fits request) ∧
        ∀ z taken, s.Resizes request z → z.taken = .ok taken → 0 < taken →
          s.table.config.chunkSize < z.new → ¬ s'.table.LargeAlone := by
  obtain ⟨types, blocks, hsound⟩ := h.reachable.sound
  refine ⟨fun horderly => h.reachable.largeAlone horderly.tailored,
    fun request s' hadmits hrun => ⟨?_, ?_, ?_⟩⟩
  · intro hpacks
    have hreachable : s'.Reachable := .step h.reachable hadmits hrun
    exact hreachable.largeAlone (h.tailored_of_packs hpacks hrun)
  · intro hsplits z hz
    exact .of_taken (hsound.taken_eq_zero hadmits hsplits hz)
  · intro z taken hz htaken hpos hlarge
    exact hsound.not_largeAlone hadmits hrun hz htaken hpos hlarge

/-- Two short texts in one chunk. -/
def twoTexts : Session :=
  ⟨⟨textColumn, [⟨64, 0, [6, 0, 0, 0, 1, 97, 6, 0, 0, 0, 1, 98], 2⟩], 2, ⟨64, 0, false⟩, 2, false⟩,
    [⟨1, 0, 1, 6, 2⟩, ⟨0, 0, 0, 0, 1⟩]⟩

lemma orderly_twoTexts : twoTexts.Orderly := by
  have hfirst : ∀ v ∈ [Value.string .bits8 [97]], v.Proper := by decide
  have hsecond : ∀ v ∈ [Value.string .bits8 [98]], v.Proper := by decide
  have hnone : Orderly ⟨⟨textColumn, [], 0, ⟨64, 0, false⟩, 0, true⟩, []⟩ :=
    .withConfig reachable_textColumn (withConfig_eq_ok.mpr ⟨rfl, rfl⟩)
  have hone : Orderly ⟨⟨textColumn, [⟨64, 0, [6, 0, 0, 0, 1, 97], 1⟩], 1, ⟨64, 0, false⟩, 1, false⟩,
      [⟨0, 0, 0, 0, 1⟩]⟩ :=
    hnone.step_of_splits_eq_false (show Admits _ (.push [.string .bits8 [97]]) from hfirst) rfl rfl
  exact hone.step_of_splits_eq_false (show Admits _ (.push [.string .bits8 [98]]) from hsecond) rfl
    rfl

/-- A text that is larger than a chunk together with its header. -/
def largeText : Value := .string .bits8 (List.replicate 60 120)

/-- The record of the large text. -/
def largeRecord : Bytes := [69, 0, 0, 0, 60] ++ List.replicate 60 120 ++ List.replicate 4 0

/-- The large text goes in front of the second of the two short ones. -/
def insertLarge : Request := .insert ⟨1, 0, 1, 6, 2⟩ [largeText]

lemma admits_insertLarge : twoTexts.Admits insertLarge := by
  have hproper : ∀ v ∈ [largeText], v.Proper := by decide
  exact ⟨List.mem_cons_self, hproper⟩

/-- The large text has moved to a new chunk, and the second short one along with it. -/
def crowdedText : Session :=
  ⟨⟨textColumn, [⟨64, 0, [6, 0, 0, 0, 1, 97], 1⟩, ⟨75, 0, largeRecord ++ [6, 0, 0, 0, 1, 98], 2⟩],
      3, ⟨64, 0, false⟩, 3, false⟩, [⟨1, 1, 0, 0, 3⟩, ⟨1, 0, 1, 6, 2⟩, ⟨0, 0, 0, 0, 1⟩]⟩

lemma step_insertLarge : twoTexts.step insertLarge = .ok crowdedText := by rfl

lemma built_crowdedText : crowdedText.Built :=
  .step orderly_twoTexts.built admits_insertLarge step_insertLarge

theorem large_records_of_two_texts :
    twoTexts.table.LargeAlone ∧ ¬ crowdedText.table.LargeAlone ∧
      ∃ s', crowdedText.step .optimize = .ok s' ∧ s'.table.LargeAlone := by
  obtain ⟨halone, hrequests⟩ := orderly_twoTexts.built.large_records
  obtain ⟨-, -, hcrowds⟩ := hrequests _ _ admits_insertLarge step_insertLarge
  obtain ⟨types, blocks, hsound⟩ := built_crowdedText.reachable.sound
  have hcheck : crowdedText.table.check = .ok () := by decide +kernel
  obtain ⟨t, -, hpack, -⟩ := hsound.optimize_sound fun _ => hsound.check_iff.mp hcheck
  have hrun : crowdedText.step .optimize = .ok (crowdedText.become t) := by
    rw [step, hpack]
    rfl
  have hpacked := (built_crowdedText.large_records.2 .optimize _ trivial hrun).1
  have hcrowded := hcrowds _ 6 (.insert rfl rfl) rfl (by decide) (by decide)
  exact ⟨halone orderly_twoTexts, hcrowded, _, hrun, hpacked rfl⟩

/-- The record of a text that is larger than a usual chunk can share its chunk with another one. -/
theorem large_text_not_alone :
    ∃ (s : Session) (c : Table.Chunk) (other : Bytes), s.Built ∧ c ∈ s.table.chunks ∧
      c.records = .ok [largeRecord, other] ∧ s.table.config.chunkSize < largeRecord.length ∧
      ¬ s.table.LargeAlone := by
  have hrecords : Table.Chunk.records ⟨75, 0, largeRecord ++ [6, 0, 0, 0, 1, 98], 2⟩ =
      .ok [largeRecord, [6, 0, 0, 0, 1, 98]] := by decide +kernel
  have hmem : ⟨75, 0, largeRecord ++ [6, 0, 0, 0, 1, 98], 2⟩ ∈ crowdedText.table.chunks :=
    List.mem_cons_of_mem _ List.mem_cons_self
  have hlarge : crowdedText.table.config.chunkSize < largeRecord.length := by decide
  refine ⟨crowdedText, _, _, built_crowdedText, hmem, hrecords, hlarge, fun halone => ?_⟩
  obtain ⟨records, hrecords', honly⟩ := halone _ hmem
  obtain rfl := Except.ok.inj (hrecords.symm.trans hrecords')
  cases honly largeRecord List.mem_cons_self hlarge

end Session

end RecordStore
