import Mathlib
import RecordStore.Proofs.Session.Basic
import RecordStore.Proofs.Table.Codec
import RecordStore.Proofs.Table.Migration

/-!
# Runs of requests

A session is sound if its table is, and if every cursor of the current generation is seated. Each
request that is admitted has one effect on the records, leaves a sound session, and fails only
where a record would get too large or a field is not legible. So every session of a run is sound. As
long as the columns tell the types of all values, every record stays legible, and only the first way
to fail is left.
-/

namespace RecordStore

open Table (Block Cursor Edited Seated seat)
open Table.Block (contents)
open Record (Stored)

variable {types : List ValueType}

/-! ### Effects -/

namespace Request

/-- Requests that only look. -/
def looks : Request → Bool
  | .start | .finish | .seek _ | .advance _ | .advanceBy _ _ | .rows => true
  | _ => false

/-- Requests that pack the records first. -/
def packs : Request → Bool
  | .optimize | .write _ => true
  | _ => false

/-- Requests that change the records at one place. -/
def edits : Request → Bool
  | .insert _ _ | .push _ | .remove _ | .setField _ _ _ => true
  | _ => false

/-- The cursor through which a request changes the records. -/
def cursor? : Request → Option Cursor
  | .insert c _ | .remove c | .setField c _ _ => some c
  | _ => none

end Request

/-- What a request makes of the records of a table. -/
inductive Effect (t : Table) (records : List (Stored types)) :
    Request → (types' : List ValueType) → List (Stored types') → Prop
  | look {request : Request} (h : request.looks = true) : Effect t records request types records
  | stale {request : Request} {c : Cursor} (h : request.cursor? = some c)
      (hstale : t.isCurrent c = false) : Effect t records request types records
  | insert {c : Cursor} {values : List Value} {r : Stored types} (hcurrent : t.isCurrent c = true)
      (hle : c.index ≤ records.length) (hvalues : ∀ v ∈ values, v.Proper)
      (hfresh : r.IsFresh values t.config.minStringReserve) :
      Effect t records (.insert c values) types (records.insertIdx c.index r)
  | push {values : List Value} {r : Stored types} (hvalues : ∀ v ∈ values, v.Proper)
      (hfresh : r.IsFresh values t.config.minStringReserve) :
      Effect t records (.push values) types (records ++ [r])
  | remove {c : Cursor} (hcurrent : t.isCurrent c = true) :
      Effect t records (.remove c) types (records.eraseIdx c.index)
  | setField {c : Cursor} {column : Nat} {value : Value} {type : ValueType} {r r' : Stored types}
      (hcurrent : t.isCurrent c = true) (hr : records[c.index]? = some r)
      (htype : types[column]? = some type) (hvalue : value.Proper)
      (hchanged : r.IsChanged column (Field.encode type (value.convertTo type)) r') :
      Effect t records (.setField c column value) types (records.set c.index r')
  | setFieldNone {c : Cursor} {column : Nat} {value : Value} (hcurrent : t.isCurrent c = true)
      (h : records.length ≤ c.index ∨ types.length ≤ column) :
      Effect t records (.setField c column value) types records
  | clear : Effect t records .clear types []
  | packed {request : Request} (h : request.packs = true) (hcompact : t.compact = true) :
      Effect t records request types records
  | pack {request : Request} (h : request.packs = true) (hcompact : t.compact = false) :
      Effect t records request types (records.map Stored.trim)
  | rename {schema : Schema} (h : types = schema.types) :
      Effect t records (.configure schema) types records
  | migrate {schema : Schema} {records' : List (Stored schema.types)} (h : types ≠ schema.types)
      (hfresh : List.Forall₂ (fun row (r : Stored schema.types) =>
        r.IsFresh row t.config.minStringReserve)
        (Table.migrate types schema.types (records.map Stored.values)) records') :
      Effect t records (.configure schema) schema.types records'

section OneMore

variable {records : List (Stored types)} {index : Nat} {r : Stored types}
  (legible : ∀ r ∈ records, r.Legible)
include legible

/-- Legible records with another one between them. -/
lemma legible_insertIdx_iff (hle : index ≤ records.length) :
    (∀ r' ∈ records.insertIdx index r, r'.Legible) ↔ r.Legible := by
  simp only [List.mem_insertIdx hle, forall_eq_or_imp, and_iff_left legible]

/-- Legible records with another one in place of one of them. -/
lemma legible_set_iff (hlt : index < records.length) :
    (∀ r' ∈ records.set index r, r'.Legible) ↔ r.Legible := by
  refine ⟨fun hall => hall r (List.mem_set hlt r), fun hr r' hr' => ?_⟩
  rcases List.mem_or_eq_of_mem_set hr' with hmem | rfl
  · exact legible r' hmem
  · exact hr

end OneMore

namespace Session

/-- A request that packs leaves what packing makes of the table. -/
lemma optimize_of_packs {s s' : Session} {request : Request} (hpacks : request.packs = true)
    (hrun : s.step request = .ok s') : s.table.optimize = .ok s'.table := by
  cases request with
  | optimize =>
    obtain ⟨t, hresult, rfl⟩ := exists_of_map_ok hrun
    exact hresult
  | write sink =>
    obtain ⟨⟨t, outcome⟩, hresult, rfl⟩ := exists_of_map_ok hrun
    obtain ⟨t', hpacked, hpair⟩ := exists_of_bind_ok hresult
    cases hpair
    exact hpacked
  | start | finish | seek | advance | advanceBy | rows | insert | push | remove | setField | clear
    | configure => cases hpacks

/-! ### Sound sessions -/

/-- The table is sound, its records are legible and without slack if it says that it is compact, and
cursors that are current are seated. -/
structure Sound (s : Session) (blocks : List (Block types)) : Prop where
  schema_valid : s.table.schema.Valid
  config_valid : s.table.config.validate = .ok ()
  holds : s.table.Holds blocks
  packed : s.table.compact = true → ∀ r ∈ contents blocks, r.Legible ∧ r.slack = []
  past : ∀ c ∈ s.cursors, c.generation ≤ s.table.generation
  seated : ∀ c ∈ s.cursors, s.table.isCurrent c = true → Seated blocks c

/-- A record is not legible, or the request puts in a value of a type that its column does not
tell. -/
def Damaged (s : Session) (blocks : List (Block types)) (request : Request) : Prop :=
  ¬ ((∀ r ∈ contents blocks, r.Legible) ∧ s.table.Tells request)

/-- A cursor that can be handed out: one that has been, or one that is current and seated. -/
def Offers (s : Session) (blocks : List (Block types)) (c : Cursor) : Prop :=
  c ∈ s.cursors ∨ c.generation = s.table.generation ∧ Seated blocks c

namespace Sound

variable {s : Session} {blocks : List (Block types)} {c : Cursor}

lemma dense (h : s.Sound blocks) (hcompact : s.table.compact = true) :
    ∀ r ∈ contents blocks, r.slack = [] := fun r hr => (h.packed hcompact r hr).2

lemma look (h : s.Sound blocks) {cursors : List Cursor}
    (hcursors : ∀ c ∈ cursors, Offers s blocks c) :
    Sound ⟨s.table, cursors ++ s.cursors⟩ blocks := by
  refine ⟨h.schema_valid, h.config_valid, h.holds, h.packed, ?_, ?_⟩
  · intro c hc
    rcases List.mem_append.mp hc with hc | hc
    · rcases hcursors c hc with hold | ⟨hgeneration, -⟩
      · exact h.past c hold
      · exact hgeneration.le
    · exact h.past c hc
  · intro c hc hcurrent
    rcases List.mem_append.mp hc with hc | hc
    · rcases hcursors c hc with hold | ⟨-, hseated⟩
      · exact h.seated c hold hcurrent
      · exact hseated
    · exact h.seated c hc hcurrent

lemma hold (h : s.Sound blocks) (hc : Offers s blocks c) : (s.hold c).Sound blocks :=
  have hcursors : ∀ d ∈ [c], Offers s blocks d := fun _ hd => List.mem_singleton.mp hd ▸ hc
  h.look hcursors

/-- In a later generation the cursors that were handed out are not current. -/
lemma become {types' : List ValueType} {blocks' : List (Block types')} (h : s.Sound blocks)
    {t : Table} (hschema : t.schema.Valid) (hconfig : t.config = s.table.config)
    (hholds : t.Holds blocks')
    (hpacked : t.compact = true → ∀ r ∈ contents blocks', r.Legible ∧ r.slack = [])
    (hlater : s.table.generation < t.generation) : (s.become t).Sound blocks' := by
  refine ⟨hschema, ?_, hholds, hpacked, ?_, ?_⟩
  · exact (congrArg Table.Config.validate hconfig).trans h.config_valid
  · intro c hc
    exact (h.past c hc).trans hlater.le
  · intro c hc hcurrent
    have hgeneration : c.generation = t.generation := Table.isCurrent_iff.mp hcurrent
    have := h.past c hc
    omega

/-- After a change its cursor is the only one that is current. -/
lemma follow (h : s.Sound blocks) {records : List (Stored types)} {result : Table × Cursor}
    (hedited : Edited s.table c records result) :
    ∃ blocks' : List (Block types),
      (s.follow result).Sound blocks' ∧ contents blocks' = records := by
  obtain ⟨blocks', hholds, hcontents, hseated⟩ := hedited.layout
  have hlater : s.table.generation < result.1.generation := by
    rw [hedited.generation_eq]
    exact Nat.lt_succ_self _
  have hgeneration : result.2.generation = result.1.generation := by
    simpa [Table.isCurrent] using hedited.current
  have hbecome : (s.become result.1).Sound blocks' := by
    refine h.become ?_ hedited.config_eq hholds ?_ hlater
    · rw [hedited.schema_eq]
      exact h.schema_valid
    · intro hcompact
      rw [hedited.compact_eq] at hcompact
      cases hcompact
  exact ⟨blocks', hbecome.hold (.inr ⟨hgeneration, hseated⟩), hcontents⟩

/-- No column of a sound session is of the null type. -/
lemma isNull_eq_false (h : s.Sound blocks) : ∀ type ∈ types, type.isNull = false := by
  rw [← h.holds.types_eq]
  exact h.schema_valid.isNull_eq_false

/-! ### Legible records -/

/-- New columns tell what becomes of the rows if they tell the old columns, or if no row is kept. -/
lemma tells_configure_iff (h : s.Sound blocks) {schema : Schema} :
    s.table.Tells (.configure schema) ↔
      ∀ row ∈ Table.migrate types schema.types ((contents blocks).map Stored.values),
        Record.LegibleRow schema.types row := by
  rw [Table.legibleRow_migrate_iff, Table.Tells, h.holds.count_eq, h.holds.size_eq,
    h.holds.types_eq, Schema.length_types, ne_eq, List.length_eq_zero_iff]

/-- Where all records are legible, they are so after a request if and only if the columns tell what
it puts into them. -/
theorem legible_iff_tells (h : s.Sound blocks) {request : Request} (hadmits : s.Admits request)
    {types' : List ValueType} {records' : List (Stored types')}
    (heffect : Effect s.table (contents blocks) request types' records')
    (legible : ∀ r ∈ contents blocks, r.Legible) :
    (∀ r ∈ records', r.Legible) ↔ s.table.Tells request := by
  have hnew : ∀ {values : List Value} {floor : Nat} {r : Stored types}, r.IsFresh values floor →
      (r.Legible ↔ ValueType.TellsAll s.table.schema.types (values.map Value.type)) := by
    intro values floor r hfresh
    rw [hfresh.legible_iff, Record.legibleRow_iff, h.holds.types_eq]
  cases heffect with
  | look hlooks => exact iff_of_true legible (by cases request <;> trivial)
  | stale hcursor hstale =>
    refine iff_of_true legible ?_
    cases request with
    | insert c values =>
      cases hcursor
      exact fun hcurrent => absurd (hstale.symm.trans hcurrent) (by decide)
    | setField c column value =>
      cases hcursor
      exact fun hvalid => absurd ((Table.isValid_of_stale hstale).symm.trans hvalid) (by decide)
    | remove c => trivial
    | start | finish | seek | advance | advanceBy | rows | push | clear | optimize | write
      | configure => cases hcursor
  | insert hcurrent hle _ hfresh =>
    rw [legible_insertIdx_iff legible hle, hnew hfresh]
    exact ⟨fun htells _ => htells, fun htells => htells hcurrent⟩
  | push _ hfresh =>
    rw [List.forall_mem_append, List.forall_mem_singleton, hnew hfresh]
    exact and_iff_right legible
  | remove => exact iff_of_true (fun r hr => legible r (List.mem_of_mem_eraseIdx hr)) trivial
  | @setField c column value type r r' hcurrent hr htype _ hchanged =>
    have hlt := (List.getElem?_eq_some_iff.mp hr).1
    have hvalid := (h.holds.isValid_iff (h.seated c hadmits.1)).mpr
      ⟨hcurrent, h.seated c hadmits.1 hcurrent, hlt⟩
    have hcolumn := (h.holds.type?_eq column).trans htype
    rw [legible_set_iff legible hlt,
      hchanged.legible_iff htype (legible r (List.mem_of_getElem? hr)), Field.legible_convertTo_iff]
    refine ⟨fun htells _ type' htype' => ?_, fun htells => htells hvalid type hcolumn⟩
    exact Option.some.inj (hcolumn.symm.trans htype') ▸ htells
  | @setFieldNone c column value hcurrent hnone =>
    refine iff_of_true legible fun hvalid type htype => ?_
    obtain ⟨-, -, hlt⟩ := (h.holds.isValid_iff (h.seated c hadmits.1)).mp hvalid
    rw [h.holds.type?_eq] at htype
    have hcolumn := (List.getElem?_eq_some_iff.mp htype).1
    omega
  | clear => exact iff_of_true nofun trivial
  | packed hpacks _ => exact iff_of_true legible (by cases request <;> trivial)
  | pack hpacks _ =>
    exact iff_of_true (List.forall_mem_map.mpr legible) (by cases request <;> trivial)
  | @rename schema hsame =>
    refine iff_of_true legible fun _ _ => ?_
    rw [h.holds.types_eq, hsame]
    exact ValueType.tellsAll_self _
  | migrate _ hfresh => exact (Table.legible_iff_of_fresh hfresh).trans h.tells_configure_iff.symm

/-! ### Looking -/

/-- A request that looks hands out cursors that are in their places. -/
theorem step_look (h : s.Sound blocks) {request : Request} (hadmits : s.Admits request)
    (hlooks : request.looks = true) :
    ∃ cursors, s.step request = .ok ⟨s.table, cursors ++ s.cursors⟩ ∧
      ∀ c ∈ cursors, Offers s blocks c := by
  have hseat : ∀ index ≤ (contents blocks).length,
      ∀ c ∈ [seat blocks s.table.generation index], Offers s blocks c := by
    intro index hle c hc
    obtain rfl := List.mem_singleton.mp hc
    exact .inr ⟨rfl, Table.seated_seat _ hle⟩
  cases request with
  | start =>
    refine ⟨[seat blocks s.table.generation 0], ?_, hseat _ (Nat.zero_le _)⟩
    rw [step, h.holds.startCursor_eq]
    rfl
  | finish =>
    refine ⟨[seat blocks s.table.generation (contents blocks).length], ?_, hseat _ le_rfl⟩
    rw [step, h.holds.endCursor_eq]
    rfl
  | seek index =>
    refine ⟨[seat blocks s.table.generation (min index (contents blocks).length)], ?_,
      hseat _ (Nat.min_le_right _ _)⟩
    rw [step, h.holds.cursorAt_eq]
    rfl
  | advance c =>
    cases hvalid : s.table.isValid c with
    | false =>
      refine ⟨[], ?_, nofun⟩
      rw [step, Table.Holds.advance?_eq_none hvalid]
      rfl
    | true =>
      obtain ⟨hcurrent, hc, hlt⟩ := (h.holds.isValid_iff (h.seated c hadmits)).mp hvalid
      have hgeneration := Table.isCurrent_iff.mp hcurrent
      refine ⟨[seat blocks s.table.generation (c.index + 1)], ?_, hseat _ hlt⟩
      rw [step, h.holds.advance?_eq hcurrent hc hlt, hgeneration]
      rfl
  | advanceBy n c =>
    cases hcurrent : s.table.isCurrent c with
    | false =>
      refine ⟨[c], ?_, fun d hd => .inl (List.mem_singleton.mp hd ▸ hadmits)⟩
      rw [step, Table.Holds.advanceBy_eq_self (Table.isValid_of_stale hcurrent)]
      rfl
    | true =>
      have hc := h.seated c hadmits hcurrent
      have hgeneration := Table.isCurrent_iff.mp hcurrent
      have hle := hc.2
      refine ⟨[seat blocks s.table.generation
        (c.index + min n ((contents blocks).length - c.index))], ?_, hseat _ (by omega)⟩
      rw [step, h.holds.advanceBy_eq hcurrent hc, hgeneration]
      rfl
  | rows =>
    refine ⟨(List.range (contents blocks).length).map (seat blocks s.table.generation), ?_, ?_⟩
    · rw [step, h.holds.cursors_eq]
      rfl
    · intro c hc
      obtain ⟨index, hindex, rfl⟩ := List.mem_map.mp hc
      exact hseat index (List.mem_range.mp hindex).le _ (List.mem_singleton_self _)
  | insert | push | remove | setField | clear | optimize | write | configure => cases hlooks

/-! ### Changing -/

/-- What a request can lead to: the session is sound, and the records are what they should be. -/
def Leads (s : Session) (blocks : List (Block types)) (request : Request) (s' : Session) : Prop :=
  ∃ (types' : List ValueType) (blocks' : List (Block types')),
    s'.Sound blocks' ∧ Effect s.table (contents blocks) request types' (contents blocks')

/-- A change in place of the records. -/
lemma leads_follow (h : s.Sound blocks) {records : List (Stored types)} {request : Request}
    (heffect : Effect s.table (contents blocks) request types records) {result : Table × Cursor}
    (hedited : Edited s.table c records result) : Leads s blocks request (s.follow result) := by
  obtain ⟨blocks', hsound, hcontents⟩ := h.follow hedited
  exact ⟨types, blocks', hsound, hcontents ▸ heffect⟩

/-- A change that finds nothing to change hands its cursor out again. -/
lemma leads_self (h : s.Sound blocks) {request : Request}
    (heffect : Effect s.table (contents blocks) request types (contents blocks))
    (hc : c ∈ s.cursors) : Leads s blocks request (s.follow (s.table, c)) :=
  ⟨types, blocks, h.hold (.inl hc), heffect⟩

/-- A record goes in front of the one at the cursor, unless it is too large. -/
lemma insert_yields (h : s.Sound blocks) {values : List Value}
    (hadmits : s.Admits (.insert c values)) (hcurrent : s.table.isCurrent c = true) :
    Yields (s.Asks · (.insert c values))
      (Damaged s blocks (.insert c values))
      (fun result => ∃ r : Stored types, r.IsFresh values s.table.config.minStringReserve ∧
        Edited s.table c ((contents blocks).insertIdx c.index r) result)
      (s.table.insert c values) := by
  obtain ⟨hc, hvalues⟩ := hadmits
  refine (h.holds.insert_yields hcurrent (h.seated c hc hcurrent) hvalues).widen ?_ fun hbad => ?_
  swap
  · rw [Record.legibleRow_iff, ← h.holds.types_eq] at hbad
    exact mt (fun hboth => hboth.2 hcurrent) hbad.2
  rintro size rfl
  exact congrArg (Record.reserveSize · values _) h.holds.types_eq.symm

/-- A record goes behind all others, unless it is too large. -/
lemma push_yields (h : s.Sound blocks) {values : List Value} (hvalues : ∀ v ∈ values, v.Proper) :
    Yields (s.Asks · (.push values))
      (Damaged s blocks (.push values))
      (fun result => ∃ r : Stored types, r.IsFresh values s.table.config.minStringReserve ∧
        Edited s.table s.table.endCursor (contents blocks ++ [r]) result)
      (s.table.push values) := by
  refine (h.holds.push_yields hvalues).widen ?_ fun hbad => ?_
  swap
  · rw [Record.legibleRow_iff, ← h.holds.types_eq] at hbad
    exact mt And.right hbad.2
  rintro size rfl
  exact congrArg (Record.reserveSize · values _) h.holds.types_eq.symm

/-- What is asked for by another field in a column of a legible record. -/
lemma asks_setField (h : s.Sound blocks) (hseated : Seated blocks c) {column : Nat} {value : Value}
    {r : Stored types} (hr : (contents blocks)[c.index]? = some r) (legible : r.Legible)
    {type : ValueType} (htype : types[column]? = some type) :
    s.Asks (r.size - ((r.fields[column]?).getD []).length +
      (Field.encode type (value.convertTo type)).length) (.setField c column value) := by
  obtain ⟨old, hold, -⟩ := r.exists_field htype
  refine ⟨type, r.bytes, _, old.length, (h.holds.type?_eq column).trans htype,
    h.holds.record_eq hseated hr, ?_, Stored.fieldSize_bytes legible htype hold, ?_⟩
  · rw [h.holds.types_eq, Stored.fieldOffset_bytes legible]
  · rw [r.length_bytes, hold]
    rfl

/-- The record at the cursor gets another field, unless it gets too large. -/
lemma setField_yields (h : s.Sound blocks) {column : Nat} {value : Value}
    (hadmits : s.Admits (.setField c column value)) (hcurrent : s.table.isCurrent c = true)
    {r : Stored types} (hr : (contents blocks)[c.index]? = some r) {type : ValueType}
    (htype : types[column]? = some type) :
    Yields (s.Asks · (.setField c column value))
      (Damaged s blocks (.setField c column value))
      (fun result => r.Legible ∧ ∃ r' : Stored types,
        r.IsChanged column (Field.encode type (value.convertTo type)) r' ∧
          Edited s.table c ((contents blocks).set c.index r') result)
      (s.table.setField c column value) := by
  obtain ⟨hc, hvalue⟩ := hadmits
  have hseated := h.seated c hc hcurrent
  have hnull := h.isNull_eq_false type (List.mem_of_getElem? htype)
  refine (h.holds.setField_yields hcurrent hseated hr htype hnull hvalue).widen ?_ ?_
  swap
  · have hlt := (List.getElem?_eq_some_iff.mp hr).1
    have hvalid := (h.holds.isValid_iff fun _ => hseated).mpr ⟨hcurrent, hseated, hlt⟩
    rintro (hillegible | ⟨-, hillegible⟩) ⟨legible, htells⟩
    · exact hillegible (legible r (List.mem_of_getElem? hr))
    · refine hillegible (Field.legible_convertTo_iff.mpr (htells hvalid type ?_))
      exact (h.holds.type?_eq column).trans htype
  rintro size ⟨hlegible, rfl⟩
  exact h.asks_setField hseated hr hlegible htype

/-- Other types are adopted, unless a record gets too large under them. -/
lemma configure_yields (h : s.Sound blocks) {schema : Schema}
    (hdiffers : s.table.schema.types ≠ schema.types) :
    Yields (s.Asks · (.configure schema)) (Damaged s blocks (.configure schema))
      (fun p => p.1 = true ∧ ∃ blocks', Table.Migrated s.table schema
        (Table.migrate types schema.types ((contents blocks).map Stored.values)) p.2 blocks')
      (s.table.configure schema) := by
  refine (h.holds.configure_yields hdiffers).widen ?_ (mt (And.imp_right h.tells_configure_iff.mp))
  rintro size ⟨rows, hrows, hsize⟩
  refine ⟨rows, hrows, ?_⟩
  rw [h.holds.types_eq]
  exact hsize

lemma step_insert (h : s.Sound blocks) {values : List Value}
    (hadmits : s.Admits (.insert c values)) :
    Yields (s.Asks · (.insert c values)) (Damaged s blocks (.insert c values))
      (Leads s blocks (.insert c values)) (s.step (.insert c values)) := by
  have ⟨hc, hvalues⟩ := hadmits
  rw [step]
  cases hcurrent : s.table.isCurrent c with
  | false =>
    rw [Table.insert_eq_self (Table.isPosition_of_stale hcurrent)]
    exact .ok (h.leads_self (.stale rfl hcurrent) hc)
  | true =>
    refine (h.insert_yields hadmits hcurrent).map ?_
    rintro result ⟨r, hfresh, hedited⟩
    exact h.leads_follow (.insert hcurrent (h.seated c hc hcurrent).2 hvalues hfresh) hedited

lemma step_push (h : s.Sound blocks) {values : List Value} (hvalues : ∀ v ∈ values, v.Proper) :
    Yields (s.Asks · (.push values)) (Damaged s blocks (.push values))
      (Leads s blocks (.push values)) (s.step (.push values)) := by
  refine (h.push_yields hvalues).map ?_
  rintro result ⟨r, hfresh, hedited⟩
  exact h.leads_follow (.push hvalues hfresh) hedited

lemma step_remove (h : s.Sound blocks) (hc : c ∈ s.cursors) :
    Yields (s.Asks · (.remove c)) (Damaged s blocks (.remove c)) (Leads s blocks (.remove c))
      (s.step (.remove c)) := by
  rw [step]
  cases hcurrent : s.table.isCurrent c with
  | false =>
    rw [Table.remove_eq_self (Table.isValid_of_stale hcurrent)]
    exact .ok (h.leads_self (.stale rfl hcurrent) hc)
  | true =>
    have hseated := h.seated c hc hcurrent
    by_cases hlt : c.index < (contents blocks).length
    · obtain ⟨result, hresult, hedited⟩ := h.holds.remove_eq hcurrent hseated hlt
      rw [hresult]
      exact .ok (h.leads_follow (.remove hcurrent) hedited)
    · have hnone : (contents blocks).eraseIdx c.index = contents blocks :=
        List.eraseIdx_of_length_le (Nat.not_lt.mp hlt)
      have heffect : Effect s.table (contents blocks) (.remove c) types _ := .remove hcurrent
      rw [hnone] at heffect
      rw [Table.remove_eq_self (h.holds.isValid_of_length_le (Nat.not_lt.mp hlt))]
      exact .ok (h.leads_self heffect hc)

lemma step_setField (h : s.Sound blocks) {column : Nat} {value : Value}
    (hadmits : s.Admits (.setField c column value)) :
    Yields (s.Asks · (.setField c column value)) (Damaged s blocks (.setField c column value))
      (Leads s blocks (.setField c column value)) (s.step (.setField c column value)) := by
  have ⟨hc, hvalue⟩ := hadmits
  rw [step]
  cases hcurrent : s.table.isCurrent c with
  | false =>
    rw [Table.setField_eq_self (.inl (Table.isValid_of_stale hcurrent))]
    exact .ok (h.leads_self (.stale rfl hcurrent) hc)
  | true =>
    cases hr : (contents blocks)[c.index]? with
    | none =>
      have hlen := List.getElem?_eq_none_iff.mp hr
      rw [Table.setField_eq_self (.inl (h.holds.isValid_of_length_le hlen))]
      exact .ok (h.leads_self (.setFieldNone hcurrent (.inl hlen)) hc)
    | some r =>
      cases htype : types[column]? with
      | none =>
        have hnone : s.table.schema.type? column = none := by
          rw [h.holds.type?_eq, htype]
        rw [Table.setField_eq_self (.inr hnone)]
        have hlen := List.getElem?_eq_none_iff.mp htype
        exact .ok (h.leads_self (.setFieldNone hcurrent (.inr hlen)) hc)
      | some type =>
        refine (h.setField_yields hadmits hcurrent hr htype).map ?_
        rintro result ⟨-, r', hchanged, hedited⟩
        exact h.leads_follow (.setField hcurrent hr htype hvalue hchanged) hedited

lemma step_clear (h : s.Sound blocks) :
    Yields (s.Asks · .clear) (Damaged s blocks .clear) (Leads s blocks .clear) (s.step .clear) := by
  rw [step, Table.clear_eq]
  refine .ok ⟨types, [], ?_, .clear⟩
  exact h.become h.schema_valid rfl ⟨⟨h.holds.types_eq, rfl, rfl⟩, fun _ => nofun⟩
    (fun _ => nofun) (Nat.lt_succ_self _)

/-- A compact table is left as it is, and any other one is packed into a sound table, if its records
are legible. -/
theorem optimize_sound (h : s.Sound blocks)
    (legible : s.table.compact = false → ∀ r ∈ contents blocks, r.Legible) :
    ∃ (t : Table) (blocks' : List (Block types)), s.table.optimize = .ok t ∧
      t.schema = s.table.schema ∧ t.config = s.table.config ∧ (s.become t).Sound blocks' ∧
      (s.table.compact = true ∧ t = s.table ∧ blocks' = blocks ∨ s.table.compact = false ∧
        Table.Packed s.table.config.chunkSize ((contents blocks).map Stored.trim) blocks') := by
  cases hcompact : s.table.compact with
  | true =>
    exact ⟨s.table, blocks, Table.Holds.optimize_of_compact hcompact, rfl, rfl, h,
      .inl ⟨rfl, rfl, rfl⟩⟩
  | false =>
    obtain ⟨blocks', hrun, hholds, hpacked⟩ := h.holds.optimize_eq (legible hcompact) hcompact
    refine ⟨_, blocks', hrun, rfl, rfl, ?_, .inr ⟨rfl, hpacked⟩⟩
    refine h.become h.schema_valid rfl hholds (fun _ r hr => ?_) (Nat.lt_succ_self _)
    rw [hpacked.contents_eq] at hr
    obtain ⟨r', hr', rfl⟩ := List.mem_map.mp hr
    exact ⟨legible hcompact r' hr', rfl⟩

/-- Packing leads where it should, whichever request packs, or meets a record that is not
legible. -/
lemma leads_optimize (h : s.Sound blocks) (request : Request) (hpacks : request.packs = true) :
    (∃ t, s.table.optimize = .ok t ∧ Leads s blocks request (s.become t)) ∨
      (¬ ∀ r ∈ contents blocks, r.Legible) ∧ Garbled s.table.optimize := by
  by_cases hbad : s.table.compact = false ∧ ¬ ∀ r ∈ contents blocks, r.Legible
  · exact .inr ⟨hbad.2, h.holds.garbled_optimize hbad.1 hbad.2⟩
  · obtain ⟨t, blocks', hrun, -, -, hsound, ⟨hcompact, rfl, rfl⟩ | ⟨hcompact, hpacked⟩⟩ :=
      h.optimize_sound fun hcompact => not_not.mp fun hillegible => hbad ⟨hcompact, hillegible⟩
    · exact .inl ⟨_, hrun, types, blocks', hsound, .packed hpacks hcompact⟩
    · exact .inl ⟨t, hrun, types, blocks', hsound, hpacked.contents_eq ▸ .pack hpacks hcompact⟩

lemma step_optimize (h : s.Sound blocks) :
    Yields (s.Asks · .optimize) (Damaged s blocks .optimize) (Leads s blocks .optimize)
      (s.step .optimize) := by
  rw [step]
  rcases h.leads_optimize .optimize rfl with ⟨t, hrun, hleads⟩ | ⟨hillegible, hgarbled⟩
  · rw [hrun]
    exact .ok hleads
  · exact .of_garbled (hgarbled.map _) fun hboth => hillegible hboth.1

lemma step_write (h : s.Sound blocks) (sink : Sink) :
    Yields (s.Asks · (.write sink)) (Damaged s blocks (.write sink)) (Leads s blocks (.write sink))
      (s.step (.write sink)) := by
  rw [step]
  rcases h.leads_optimize (.write sink) rfl with ⟨t, hrun, hleads⟩ | ⟨hillegible, hgarbled⟩
  · rw [Table.write_eq hrun]
    exact .ok hleads
  · exact .of_garbled ((hgarbled.bind _).map _) fun hboth => hillegible hboth.1

lemma step_configure (h : s.Sound blocks) {schema : Schema} (hschema : schema.Valid) :
    Yields (s.Asks · (.configure schema)) (Damaged s blocks (.configure schema))
      (Leads s blocks (.configure schema))
      (s.step (.configure schema)) := by
  rw [step]
  by_cases hsame : s.table.schema.types = schema.types
  · rw [Table.configure_of_same hsame, hschema.fresh]
    refine .ok ⟨types, blocks, ?_, .rename (h.holds.types_eq.symm.trans hsame)⟩
    have hholds : Table.Holds { s.table with schema } blocks :=
      ⟨⟨hsame.symm.trans h.holds.types_eq, h.holds.chunks_eq, h.holds.count_eq⟩, h.holds.checked⟩
    exact ⟨hschema, h.config_valid, hholds, h.packed, h.past, h.seated⟩
  · refine (h.configure_yields hsame).map ?_
    rintro ⟨changed, t⟩ ⟨-, blocks', hmigrated⟩
    refine ⟨schema.types, blocks', ?_, ?_⟩
    · refine h.become ?_ hmigrated.config_eq hmigrated.holds ?_ hmigrated.later
      · rw [hmigrated.schema_eq, hschema.fresh]
        exact hschema
      · intro hcompact
        have hempty := List.isEmpty_iff.mp (hmigrated.compact_eq.symm.trans hcompact)
        have hnone : contents blocks' = [] :=
          List.forall₂_nil_left_iff.mp (hempty ▸ hmigrated.fresh)
        rw [hnone]
        exact nofun
    · rw [h.holds.types_eq] at hsame
      exact .migrate hsame hmigrated.fresh

/-- Every request that is admitted leads where it should, asks for a record that is too large, or
meets damage. -/
theorem step_yields (h : s.Sound blocks) {request : Request} (hadmits : s.Admits request) :
    Yields (s.Asks · request) (Damaged s blocks request) (Leads s blocks request)
      (s.step request) := by
  cases hlooks : request.looks with
  | true =>
    obtain ⟨cursors, hrun, hcursors⟩ := h.step_look hadmits hlooks
    exact .of_eq hrun ⟨types, blocks, h.look hcursors, .look hlooks⟩
  | false =>
    cases request with
    | start | finish | seek | advance | advanceBy | rows => cases hlooks
    | insert c values => exact h.step_insert hadmits
    | push values => exact h.step_push hadmits
    | remove c => exact h.step_remove hadmits
    | setField c column value => exact h.step_setField hadmits
    | clear => exact h.step_clear
    | optimize => exact h.step_optimize
    | write sink => exact h.step_write sink
    | configure schema => exact h.step_configure hadmits.valid

end Sound

/-! ### Runs -/

/-- An empty table is sound. -/
lemma sound_build {schema : Schema} {config : Table.Config} (hschema : schema.Valid)
    (hconfig : config.validate = .ok ()) :
    Sound ⟨Table.build schema config, []⟩ ([] : List (Block schema.types)) :=
  ⟨hschema, hconfig, ⟨⟨rfl, rfl, rfl⟩, fun _ => nofun⟩, fun _ => nofun, nofun, nofun⟩

lemma withConfig_eq_ok {schema : Schema} {config : Table.Config} {t : Table} :
    Table.withConfig schema config = .ok t ↔
      config.validate = .ok () ∧ t = Table.build schema config := by
  rw [Table.withConfig]
  cases config.validate with
  | error reason => exact ⟨nofun, nofun⟩
  | ok u => exact ⟨fun h => ⟨rfl, (Except.ok.inj h).symm⟩, fun h => h.2 ▸ rfl⟩

/-- A table that has been read is sound. -/
lemma sound_read {config : Table.Config} {t : Table} {blocks : List (Block t.schema.types)}
    (h : Table.AsRead config t blocks) : Sound ⟨t, []⟩ blocks := by
  refine ⟨h.schema_valid, ?_, h.holds, ?_, nofun, nofun⟩
  · rw [h.config_eq]
    exact h.config_valid
  · intro hcompact r hr
    rw [h.compact_eq, List.all_eq_true] at hcompact
    exact ⟨Table.legible_of_tight h.tight r hr, List.isEmpty_iff.mp (hcompact r hr)⟩

/-- Every session of a run is sound. -/
theorem Reachable.sound {s : Session} (h : s.Reachable) :
    ∃ (types : List ValueType) (blocks : List (Block types)), s.Sound blocks := by
  induction h with
  | new hschema => exact ⟨_, [], sound_build hschema.valid rfl⟩
  | withConfig hschema h =>
    obtain ⟨hconfig, rfl⟩ := withConfig_eq_ok.mp h
    exact ⟨_, [], sound_build hschema.valid hconfig⟩
  | read h =>
    obtain ⟨⟨blocks, hread⟩, -⟩ := Table.readWithConfig_eq_ok.mp h
    exact ⟨_, blocks, sound_read hread⟩
  | step _ hadmits h ih =>
    obtain ⟨types, blocks, hsound⟩ := ih
    obtain ⟨types', blocks', hsound', -⟩ := (hsound.step_yields hadmits).post_of_ok h
    exact ⟨types', blocks', hsound'⟩

/-- In a run in which the columns tell all types all records are legible as well. -/
theorem Told.sound {s : Session} (h : s.Told) :
    ∃ (types : List ValueType) (blocks : List (Block types)),
      s.Sound blocks ∧ ∀ r ∈ contents blocks, r.Legible := by
  induction h with
  | new hschema => exact ⟨_, [], sound_build hschema.valid rfl, nofun⟩
  | withConfig hschema h =>
    obtain ⟨hconfig, rfl⟩ := withConfig_eq_ok.mp h
    exact ⟨_, [], sound_build hschema.valid hconfig, nofun⟩
  | read h =>
    obtain ⟨⟨blocks, hread⟩, -⟩ := Table.readWithConfig_eq_ok.mp h
    exact ⟨_, blocks, sound_read hread, Table.legible_of_tight hread.tight⟩
  | step _ hadmits htells h ih =>
    obtain ⟨types, blocks, hsound, legible⟩ := ih
    obtain ⟨types', blocks', hsound', heffect⟩ := (hsound.step_yields hadmits).post_of_ok h
    exact ⟨types', blocks', hsound', (hsound.legible_iff_tells hadmits heffect legible).mpr htells⟩

namespace Sound

variable {s : Session} {blocks : List (Block types)}

/-- The table passes its check if its records are legible. -/
lemma check_iff (h : s.Sound blocks) :
    s.table.check = .ok () ↔ ∀ r ∈ contents blocks, r.Legible := by
  refine ⟨fun hcheck => ?_, h.holds.check_eq⟩
  by_contra hillegible
  exact (h.holds.garbled_check hillegible).ne_ok () hcheck

/-- A call has its result, or its request fails. -/
lemma exists_or_fails (h : s.Sound blocks) {request : Request} {α : Type} {run : Except Fault α}
    {post : α → Prop} (hrun : Yields (s.Asks · request) (Damaged s blocks request) post run)
    {f : α → Session} (hstep : s.step request = f <$> run) :
    (∃ a, run = .ok a ∧ post a) ∨ s.Fails request := by
  rcases hrun.ok_or_fails with hok | ⟨size, hasks, hlarge, hrun⟩ | ⟨hdamaged, type, hrun⟩
  · exact .inl hok
  · refine .inr (.inl ⟨size, hasks, hlarge, ?_⟩)
    rw [hstep, hrun]
    rfl
  · refine .inr (.inr ⟨mt (And.imp_left h.check_iff.mp) hdamaged, type, ?_⟩)
    rw [hstep, hrun]
    rfl

/-- A request that is admitted is carried out or fails. -/
lemma step_ok_or_fails (h : s.Sound blocks) {request : Request} (hadmits : s.Admits request) :
    (∃ s', s.step request = .ok s') ∨ s.Fails request := by
  rcases h.exists_or_fails (h.step_yields hadmits) (id_map _).symm with ⟨s', hrun, -⟩ | hfails
  · exact .inl ⟨s', hrun⟩
  · exact .inr hfails

/-- A table that passes its check and tells what is put into it can fail in one way only. -/
lemma step_ok_or_tooLarge (h : s.Sound blocks) {request : Request} (hadmits : s.Admits request)
    (hcheck : s.table.check = .ok ()) (htells : s.table.Tells request) :
    (∃ s', s.step request = .ok s') ∨ s.TooLarge request := by
  rcases h.step_ok_or_fails hadmits with hok | htooLarge | ⟨hdamaged, -⟩
  · exact .inl hok
  · exact .inr htooLarge
  · exact absurd ⟨hcheck, htells⟩ hdamaged

end Sound

/-- The table of such a run passes its check. -/
theorem Told.check_eq {s : Session} (hs : s.Told) : s.table.check = .ok () := by
  obtain ⟨types, blocks, hsound, legible⟩ := hs.sound
  exact hsound.check_iff.mpr legible

end Session

end RecordStore
