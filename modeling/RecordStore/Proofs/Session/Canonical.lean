import Mathlib
import RecordStore.Proofs.Session.Changes
import RecordStore.Proofs.Table.Canonical

/-!
# Writing without a history

A table that was not read is packed whenever it says that it is compact. So what is written of a
table tells its columns, its stored rows and the size of its chunks, and nothing of the requests
that have led to it.
-/

namespace RecordStore.Session

open Table (Block)
open Table.Block (contents)
open Record (Stored)

variable {types : List ValueType} {s s' : Session} {blocks : List (Block types)}
  {request : Request}

/-- The sessions of runs that start from an empty table. -/
inductive Built : Session → Prop
  | new {schema : Schema} (hschema : schema.Reachable) : Built ⟨.new schema, []⟩
  | withConfig {schema : Schema} {config : Table.Config} {t : Table} (hschema : schema.Reachable)
      (h : Table.withConfig schema config = .ok t) : Built ⟨t, []⟩
  | step {s s' : Session} {request : Request} (hs : Built s) (hadmits : s.Admits request)
      (h : s.step request = .ok s') : Built s'

lemma Built.reachable (h : s.Built) : s.Reachable := by
  induction h with
  | new hschema => exact .new hschema
  | withConfig hschema h => exact .withConfig hschema h
  | step _ hadmits h ih => exact .step ih hadmits h

/-! ### Packed when compact -/

namespace Sound

/-- A request that changes the table leaves it packed, or not compact. -/
lemma isPacked_of_changes (h : s.Sound blocks) (hadmits : s.Admits request)
    (hchanges : s.Changes request) (hrun : s.step request = .ok s')
    (hcompact : s'.table.compact = true) : s'.table.IsPacked := by
  cases hedits : request.edits with
  | true =>
    obtain ⟨c, records, result, hedited, rfl⟩ :=
      h.exists_edited_of_edits hadmits hedits hchanges hrun
    exact absurd (hcompact.symm.trans hedited.compact_eq) (by decide)
  | false =>
    cases request with
    | insert | push | remove | setField => cases hedits
    | start | finish | seek | advance | advanceBy | rows => cases hchanges
    | clear =>
      rw [step, Table.clear_eq] at hrun
      cases hrun
      exact Table.isPacked_of_chunks_eq_nil rfl
    | optimize | write =>
      exact h.holds.isPacked_optimize hchanges (optimize_of_packs rfl hrun)
    | configure schema =>
      obtain ⟨⟨changed, t⟩, hresult, rfl⟩ := exists_of_map_ok hrun
      obtain ⟨-, blocks', hmigrated⟩ := (h.configure_yields hchanges).post_of_ok hresult
      have hrows := List.isEmpty_iff.mp (hmigrated.compact_eq.symm.trans hcompact)
      have hnone := List.forall₂_nil_left_iff.mp (hrows ▸ hmigrated.fresh)
      exact Table.isPacked_of_chunks_eq_nil (hmigrated.holds.chunks_eq_nil hnone)

/-- A request that changes nothing leaves a packed table packed. -/
lemma isPacked_of_idle (h : s.Sound blocks) (hadmits : s.Admits request)
    (hidle : ¬ s.Changes request) (hrun : s.step request = .ok s')
    (hpacked : s.table.compact = true → s.table.IsPacked) (hcompact : s'.table.compact = true) :
    s'.table.IsPacked := by
  obtain ⟨kept, hrun', hkeeps, -⟩ := h.step_idle hadmits hidle
  obtain rfl := Except.ok.inj (hrun.symm.trans hrun')
  rw [hkeeps.eq] at hcompact ⊢
  exact hpacked hcompact

end Sound

/-- A table that was not read is packed whenever it is compact. -/
theorem Built.isPacked (h : s.Built) (hcompact : s.table.compact = true) : s.table.IsPacked := by
  induction h with
  | new hschema => exact Table.isPacked_of_chunks_eq_nil rfl
  | withConfig hschema h =>
    obtain ⟨-, rfl⟩ := withConfig_eq_ok.mp h
    exact Table.isPacked_of_chunks_eq_nil rfl
  | @step s s' request hs hadmits hrun ih =>
    obtain ⟨types, blocks, hsound⟩ := hs.reachable.sound
    by_cases hchanges : s.Changes request
    · exact hsound.isPacked_of_changes hadmits hchanges hrun hcompact
    · exact hsound.isPacked_of_idle hadmits hchanges hrun ih hcompact

/-! ### A text in more room and in less -/

/-- One column of short texts. -/
def textColumn : Schema := .ofColumns [⟨"x", .string .bits8, 0⟩]

lemma reachable_textColumn : textColumn.Reachable :=
  @Schema.Reachable.ofLayout [("x", .string .bits8)] _ rfl

/-- No texts yet. -/
lemma built_noTexts {config : Table.Config} (h : config.validate = .ok ()) :
    Built ⟨⟨textColumn, [], 0, config, 0, true⟩, []⟩ :=
  .withConfig reachable_textColumn (withConfig_eq_ok.mpr ⟨h, rfl⟩)

/-- A text that was pushed with room to grow. -/
def pushedText : Session :=
  ⟨⟨textColumn, [⟨8192, 0, [13, 0, 0, 0, 2, 97, 98, 0, 0, 0, 0, 0, 0], 1⟩], 1, .default, 1, false⟩,
    [⟨0, 0, 0, 0, 1⟩]⟩

lemma built_pushedText : pushedText.Built := by
  have hproper : ∀ v ∈ [Value.string .bits8 [97, 98]], v.Proper := by decide
  exact .step (.new reachable_textColumn)
    (show Admits _ (.push [.string .bits8 [97, 98]]) from hproper) rfl

/-- The same text in little room, cut short from a longer one. -/
def cutText : Session :=
  ⟨⟨textColumn, [⟨8192, 0, [9, 0, 0, 0, 2, 97, 98, 0, 0], 1⟩], 1, ⟨8192, 2, false⟩, 2, false⟩,
    [⟨0, 0, 0, 0, 2⟩, ⟨0, 0, 0, 0, 1⟩]⟩

lemma built_cutText : cutText.Built := by
  have hproper : ∀ v ∈ [Value.string .bits8 [97, 98, 99, 100]], v.Proper := by decide
  have hproper' : (Value.string .bits8 [97, 98]).Proper := by decide
  have hempty : Built ⟨⟨textColumn, [], 0, ⟨8192, 2, false⟩, 0, true⟩, []⟩ := built_noTexts rfl
  have hlonger : Built ⟨⟨textColumn, [⟨8192, 0, [9, 0, 0, 0, 4, 97, 98, 99, 100], 1⟩], 1,
      ⟨8192, 2, false⟩, 1, false⟩, [⟨0, 0, 0, 0, 1⟩]⟩ :=
    .step hempty (show Admits _ (.push [.string .bits8 [97, 98, 99, 100]]) from hproper) rfl
  exact .step hlonger (show Admits _ (.setField ⟨0, 0, 0, 0, 1⟩ 0 (.string .bits8 [97, 98])) from
    ⟨List.mem_cons_self, hproper'⟩) rfl

/-! ### What is written -/

/-- A schema that is made is given by its names and types. -/
lemma schema_eq_of_layout {schema schema' : Schema} (h : schema.Valid) (h' : schema'.Valid)
    (hlayout : schema.layout = schema'.layout) : schema = schema' := by
  rw [← h.fresh, ← h'.fresh]
  exact Schema.ofColumns_congr hlayout

/-- Writing a table that was not read, or is not compact, writes its schema and its records packed
without slack, if they are legible. -/
lemma Sound.exists_write (h : s.Sound blocks) (hbuilt : s.Built ∨ s.table.compact = false)
    (legible : ∀ r ∈ contents blocks, r.Legible) :
    ∃ packed, (∀ sink, s.table.write sink = .ok (packed, packed.writeAsIs sink)) ∧
      packed.schema = s.table.schema ∧
      packed.chunks =
        Table.pack s.table.config.chunkSize ((contents blocks).map fun r => r.trim.bytes) := by
  refine h.holds.exists_write legible h.dense fun hcompact => ?_
  rcases hbuilt with hbuilt | hloose
  · exact hbuilt.isPacked hcompact
  · exact absurd (hcompact.symm.trans hloose) (by decide)

/-- Writing a table with a record that is not legible fails before anything is written. -/
lemma Sound.illegible_write (h : s.Sound blocks) (illegible : ¬ ∀ r ∈ contents blocks, r.Legible)
    (sink : Sink) : s.Illegible (.write sink) := by
  have hloose : s.table.compact = false := by
    by_contra hcompact
    exact illegible fun r hr => (h.packed (Bool.eq_true_of_not_eq_false hcompact) r hr).1
  refine ⟨fun hboth => illegible (h.check_iff.mp hboth.1), ?_⟩
  exact ((h.holds.garbled_optimize hloose illegible).bind _).map _

/-- Two tables have the same columns, the same size of chunks and the same stored rows. Each of them
was not read, or is not compact. Then writing them has the same outcome and leaves the same bytes in
every sink, and in a sink without bounds it succeeds. Where the rows are not told, neither table is
written. -/
theorem Reachable.write_of_same_rows (h : s.Reachable) (h' : s'.Reachable)
    (hbuilt : s.Built ∨ s.table.compact = false) (hbuilt' : s'.Built ∨ s'.table.compact = false)
    (hlayout : s.table.schema.layout = s'.table.schema.layout)
    (hchunk : s.table.config.chunkSize = s'.table.config.chunkSize)
    (hrows : s.table.storedRows = s'.table.storedRows) :
    (∃ packed packed',
      (∀ sink, ∃ outcome, s.table.write sink = .ok (packed, outcome) ∧
        s'.table.write sink = .ok (packed', outcome)) ∧
      ∃ w, ∀ written,
        s.table.write ⟨none, written⟩ = .ok (packed, .ok (), ⟨none, written ++ w⟩) ∧
        s'.table.write ⟨none, written⟩ = .ok (packed', .ok (), ⟨none, written ++ w⟩)) ∨
    (∃ type, s.table.storedRows = .error (.corruptField type)) ∧
      ∀ sink, s.Illegible (.write sink) ∧ s'.Illegible (.write sink) := by
  obtain ⟨types, blocks, hsound⟩ := h.sound
  obtain ⟨types', blocks', hsound'⟩ := h'.sound
  have hschema := schema_eq_of_layout hsound.schema_valid hsound'.schema_valid hlayout
  obtain rfl : types = types' := by
    rw [← hsound.holds.types_eq, hschema, hsound'.holds.types_eq]
  rcases hsound.holds.storedRows_cases with ⟨legible, hfields⟩ | ⟨illegible, hgarbled⟩
  · obtain ⟨legible', hcongr⟩ := hsound'.holds.eq_of_storedRows (hrows.symm.trans hfields)
    obtain ⟨packed, hwrite, hschema₁, hchunks₁⟩ := hsound.exists_write hbuilt legible
    obtain ⟨packed', hwrite', hschema₂, hchunks₂⟩ := hsound'.exists_write hbuilt' legible'
    -- both packed tables have the same schema and the same chunks
    have hsame : packed.writeAsIs = packed'.writeAsIs := by
      refine Table.writeAsIs_congr ?_ ?_
      · rw [hschema₁, hschema₂, hschema]
      · rw [hchunks₁, hchunks₂, hchunk, Table.map_bytes_trim_congr hcongr]
    have hemits := Table.emits_writeAsIs (hschema₁ ▸ hsound.schema_valid : packed.schema.Valid)
    refine .inl ⟨packed, packed', fun sink => ⟨packed.writeAsIs sink, hwrite sink, ?_⟩,
      packed.bytes, fun written => ⟨?_, ?_⟩⟩
    · rw [hwrite', ← hsame]
    · rw [hwrite, hemits.eq_of_unbounded]
    · rw [hwrite', ← hsame, hemits.eq_of_unbounded]
  · refine .inr ⟨hgarbled, fun sink => ⟨hsound.illegible_write illegible sink,
      hsound'.illegible_write (fun legible' => ?_) sink⟩⟩
    exact hgarbled.ne_ok _ (hrows.trans (hsound'.holds.storedRows_eq legible'))

theorem write_of_same_rows_cut_short :
    pushedText.table.storedRows = .ok [[[2, 97, 98]]] ∧
      cutText.table.storedRows = .ok [[[2, 97, 98]]] ∧
      ∃ w, (∃ packed, pushedText.table.write (.empty none) = .ok (packed, .ok (), ⟨none, w⟩)) ∧
        ∃ packed, cutText.table.write (.empty none) = .ok (packed, .ok (), ⟨none, w⟩) := by
  have hpushed : pushedText.table.storedRows = .ok [[[2, 97, 98]]] := rfl
  have hcut : cutText.table.storedRows = .ok [[[2, 97, 98]]] := rfl
  rcases built_pushedText.reachable.write_of_same_rows built_cutText.reachable
    (.inl built_pushedText) (.inl built_cutText) rfl rfl (hpushed.trans hcut.symm) with
    ⟨packed, packed', -, w, hwrite⟩ | ⟨⟨type, hrows⟩, -⟩
  · obtain ⟨hfirst, hsecond⟩ := hwrite []
    exact ⟨hpushed, hcut, w, ⟨packed, hfirst⟩, packed', hsecond⟩
  · cases hpushed.symm.trans hrows

end RecordStore.Session
