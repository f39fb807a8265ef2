import Mathlib
import RecordStore.Proofs.Outcome
import RecordStore.Proofs.Schema.Valid
import RecordStore.Proofs.Stream.Decoder
import RecordStore.Proofs.Stream.Encoder

/-!
# Stored schemas

The bytes of a schema are given in one piece. They are what is written, and a schema is read from
an input if and only if it is valid, its types are named and the input starts with its bytes. With
this every reachable schema is valid, those read from arbitrary bytes included.
-/

namespace RecordStore.Schema

/-- The type of every column is a named one. -/
def Named (s : Schema) : Prop := ∀ c ∈ s.layout, c.2.Named

instance (s : Schema) : Decidable s.Named :=
  inferInstanceAs (Decidable (∀ c ∈ s.layout, c.2.Named))

/-! ### Bytes -/

def columnBytes (c : String × ValueType) : Bytes :=
  LittleEndian.encode 1 c.1.utf8ByteSize ++ (Utf8.encode c.1 ++ LittleEndian.encode 4 c.2.tag)

def bytes (s : Schema) : Bytes :=
  LittleEndian.encode 4 formatVersion ++
    (LittleEndian.encode 1 s.size ++ s.layout.flatMap columnBytes)

/-! ### Writing -/

/-- The sink has failed. -/
def IsStream (e : Error) : Prop := ∃ reason, e = .stream reason

/-- A failing sink is all that can go wrong in a schema. -/
lemma emits_stream {encoder : Encoder StreamError Unit} {bytes : Bytes}
    (h : Encoder.Emits (fun _ => True) encoder bytes) :
    Encoder.Emits IsStream (encoder.within .stream) bytes :=
  h.within IsStream .stream fun e _ => ⟨e, rfl⟩

open Encoder in
lemma emits_writeColumn {c : Column} (h : c.name.utf8ByteSize ≤ maxNameLength) :
    Emits IsStream (writeColumn c) (columnBytes (c.name, c.type)) := by
  have hbyte := emits_stream (emits_byte c.name.utf8ByteSize)
  have hname := emits_stream (emits_put (Utf8.encode c.name))
  have htag := emits_stream (emits_word c.type.tag)
  rw [writeColumn, if_neg (Nat.not_lt.mpr h)]
  exact hbyte.bind (hname.bind htag)

open Encoder in
/-- A valid schema is written as its bytes. -/
theorem emits_write {s : Schema} (h : s.Valid) : Emits IsStream s.write s.bytes := by
  have hversion := emits_stream (emits_word formatVersion)
  have hcount := emits_stream (emits_byte s.size)
  have hcolumns : Emits IsStream (s.columns.forM writeColumn) (s.layout.flatMap columnBytes) := by
    rw [layout, List.flatMap_map]
    refine Emits.forM fun c hc => emits_writeColumn ?_
    exact h.layout.short _ (List.mem_map.mpr ⟨c, hc, rfl⟩)
  have hsize : ¬ maxColumns < s.size := by
    have := h.layout.fits
    rw [layout, List.length_map] at this
    exact Nat.not_lt.mpr this
  rw [write, if_neg hsize]
  exact hversion.bind (hcount.bind hcolumns)

/-! ### Reading -/

/-- A column is read from its bytes, if it may be pushed on those of before and its type is
named. -/
lemma readColumn_eq_ok {columns columns' : List Column} {input rest : Bytes} :
    readColumn columns input = .ok (columns', rest) ↔
      ∃ name type, pushColumn columns name type = .ok columns' ∧ type.Named ∧
        input = columnBytes (name, type) ++ rest := by
  rw [readColumn, Decoder.bind_eq_ok]
  constructor
  · rintro ⟨length, left, hlength, hrun⟩
    obtain ⟨hlt, rfl⟩ := Decoder.byte_eq_ok.mp (Decoder.within_eq_ok.mp hlength)
    obtain ⟨nameBytes, left', hblob, hrun'⟩ := Decoder.bind_eq_ok.mp hrun
    obtain ⟨rfl, rfl⟩ := Decoder.blob_eq_ok.mp (Decoder.within_eq_ok.mp hblob)
    cases hname : Utf8.toText? nameBytes with
    | none =>
      rw [hname] at hrun'
      exact absurd hrun' Decoder.throw_ne_ok
    | some name =>
      rw [hname] at hrun'
      obtain ⟨tag, left'', hword, hrun''⟩ := Decoder.bind_eq_ok.mp hrun'
      obtain ⟨-, rfl⟩ := Decoder.word_eq_ok.mp (Decoder.within_eq_ok.mp hword)
      cases htype : ValueType.ofTag tag with
      | error reason =>
        rw [htype] at hrun''
        exact absurd hrun'' Decoder.throw_ne_ok
      | ok type =>
        simp only [htype] at hrun''
        cases hpush : pushColumn columns name type with
        | error reason =>
          rw [hpush] at hrun''
          exact absurd hrun'' Decoder.throw_ne_ok
        | ok next =>
          rw [hpush] at hrun''
          obtain ⟨rfl, rfl⟩ := Decoder.pure_eq_ok.mp hrun''
          obtain ⟨hnamed, rfl⟩ := ValueType.ofTag_eq_ok_iff.mp htype
          refine ⟨name, type, hpush, hnamed, ?_⟩
          rw [columnBytes, ← Utf8.length_encode,
            Utf8.encode_of_toText? hname, List.append_assoc, List.append_assoc]
  · rintro ⟨name, type, hpush, hnamed, rfl⟩
    obtain ⟨-, -, -, -, hshort, -, -⟩ := insertColumn_eq_ok.mp hpush
    have hlt : name.utf8ByteSize < 256 ^ 1 := Nat.lt_succ_of_le hshort
    rw [columnBytes, List.append_assoc, List.append_assoc]
    refine ⟨name.utf8ByteSize, _, Decoder.within_eq_ok.mpr (Decoder.byte_eq_ok.mpr ⟨hlt, rfl⟩), ?_⟩
    refine Decoder.bind_eq_ok.mpr ⟨Utf8.encode name, _,
      Decoder.within_eq_ok.mpr (Decoder.blob_eq_ok.mpr ⟨Utf8.length_encode name, rfl⟩), ?_⟩
    rw [Utf8.toText?_encode]
    refine Decoder.bind_eq_ok.mpr ⟨type.tag, _,
      Decoder.within_eq_ok.mpr (Decoder.word_eq_ok.mpr ⟨type.tag_lt, rfl⟩), ?_⟩
    simp only [ValueType.ofTag_tag hnamed, hpush]
    rfl

lemma readColumns_eq_ok {count : Nat} {columns columns' : List Column} {input rest : Bytes} :
    readColumns count columns input = .ok (columns', rest) ↔
      ∃ layout : List (String × ValueType), layout.length = count ∧
        layout.foldlM (fun columns c => pushColumn columns c.1 c.2) columns = .ok columns' ∧
        (∀ c ∈ layout, c.2.Named) ∧ input = layout.flatMap columnBytes ++ rest := by
  induction count generalizing columns input with
  | zero =>
    rw [readColumns, Decoder.pure_eq_ok]
    constructor
    · rintro ⟨rfl, rfl⟩
      exact ⟨[], rfl, rfl, nofun, rfl⟩
    · rintro ⟨layout, hlength, hfold, -, rfl⟩
      rw [List.length_eq_zero_iff.mp hlength] at hfold ⊢
      cases hfold
      exact ⟨rfl, rfl⟩
  | succ count ih =>
    rw [readColumns, Decoder.bind_eq_ok]
    constructor
    · rintro ⟨next, left, hcolumn, hrest⟩
      obtain ⟨name, type, hpush, hnamed, rfl⟩ := readColumn_eq_ok.mp hcolumn
      obtain ⟨layout, rfl, hfold, hothers, rfl⟩ := ih.mp hrest
      refine ⟨(name, type) :: layout, rfl, ?_, List.forall_mem_cons.mpr ⟨hnamed, hothers⟩, ?_⟩
      · rw [List.foldlM_cons, hpush]
        exact hfold
      · rw [List.flatMap_cons, List.append_assoc]
    · rintro ⟨layout, hlength, hfold, hnamed, rfl⟩
      cases layout with
      | nil => cases hlength
      | cons c layout =>
        obtain ⟨hc, hothers⟩ := List.forall_mem_cons.mp hnamed
        rw [List.foldlM_cons] at hfold
        cases hpush : pushColumn columns c.1 c.2 with
        | error reason =>
          rw [hpush] at hfold
          cases hfold
        | ok next =>
          rw [hpush] at hfold
          rw [List.flatMap_cons, List.append_assoc]
          exact ⟨next, _, readColumn_eq_ok.mpr ⟨c.1, c.2, hpush, hc, rfl⟩,
            ih.mpr ⟨layout, Nat.succ.inj hlength, hfold, hothers, rfl⟩⟩

/-- What is read is a valid schema of named types in front of the rest, and every such schema is
read. -/
theorem read_eq_ok {s : Schema} {input rest : Bytes} :
    read input = .ok (s, rest) ↔ s.Valid ∧ s.Named ∧ input = s.bytes ++ rest := by
  rw [read, Decoder.bind_eq_ok]
  constructor
  · rintro ⟨version, left, hversion, hrun⟩
    obtain ⟨-, rfl⟩ := Decoder.word_eq_ok.mp (Decoder.within_eq_ok.mp hversion)
    by_cases hformat : version ≠ formatVersion
    · rw [if_pos hformat] at hrun
      cases hrun
    · rw [if_neg hformat] at hrun
      obtain ⟨count, left', hcount, hrun'⟩ := Decoder.bind_eq_ok.mp hrun
      obtain ⟨-, rfl⟩ := Decoder.byte_eq_ok.mp (Decoder.within_eq_ok.mp hcount)
      obtain ⟨columns, hcolumns, rfl⟩ := Decoder.map_eq_ok.mp hrun'
      obtain ⟨layout, rfl, hfold, hnamed, rfl⟩ := readColumns_eq_ok.mp hcolumns
      have hlayout : layoutOf columns = layout := layoutOf_foldlM hfold
      have hsize : (ofColumns columns).size = layout.length := by
        rw [← hlayout, layoutOf, List.length_map, size, ofColumns, List.length_mapIdx]
      refine ⟨valid_ofColumns (@validLayout_foldlM _ [] _ .nil hfold), ?_, ?_⟩
      · rwa [Named, layout_ofColumns, hlayout]
      rw [bytes, layout_ofColumns, hlayout, hsize, not_ne_iff.mp hformat, List.append_assoc,
        List.append_assoc]
  · rintro ⟨hvalid, hnamed, rfl⟩
    have hfits : s.size ≤ maxColumns := by
      have := hvalid.layout.fits
      rwa [layout, List.length_map] at this
    have hlt : s.size < 256 ^ 1 := Nat.lt_succ_of_le hfits
    obtain ⟨columns, hfold, hcolumns⟩ :=
      @foldlM_push_of_valid [] s.layout hvalid.layout
    have hsame : ofColumns columns = s := by
      rw [← hvalid.fresh]
      exact ofColumns_congr hcolumns
    rw [bytes, List.append_assoc, List.append_assoc]
    refine ⟨formatVersion, _,
      Decoder.within_eq_ok.mpr (Decoder.word_eq_ok.mpr ⟨by decide, rfl⟩), ?_⟩
    rw [if_neg (fun hne => hne rfl)]
    refine Decoder.bind_eq_ok.mpr ⟨s.size, _,
      Decoder.within_eq_ok.mpr (Decoder.byte_eq_ok.mpr ⟨hlt, rfl⟩), ?_⟩
    refine Decoder.map_eq_ok.mpr ⟨columns, ?_, hsame⟩
    refine readColumns_eq_ok.mpr ⟨s.layout, ?_, hfold, hnamed, rfl⟩
    rw [layout, List.length_map]
    rfl

/-! ### Reading on -/

section ReadingOn

open Decoder (Streams)

lemma streams_stream {α : Type} {decoder : Decoder StreamError α}
    (h : Streams (fun _ => True) decoder) : Streams IsStream (decoder.within .stream) :=
  h.within IsStream fun e _ => ⟨e, rfl⟩

/-- Everything that is checked of a column has been read before. -/
lemma streams_readColumn (columns : List Column) : Streams IsStream (readColumn columns) := by
  refine (streams_stream Decoder.streams_byte).bind fun length => ?_
  refine (streams_stream (Decoder.streams_blob length)).bind fun nameBytes => ?_
  cases Utf8.toText? nameBytes with
  | none => exact Decoder.streams_throw _
  | some name =>
    refine (streams_stream Decoder.streams_word).bind fun tag => ?_
    cases ValueType.ofTag tag with
    | error reason => exact Decoder.streams_throw _
    | ok type =>
      dsimp only
      cases pushColumn columns name type with
      | error reason => exact Decoder.streams_throw _
      | ok columns => exact Decoder.streams_pure columns

lemma streams_readColumns (count : Nat) (columns : List Column) :
    Streams IsStream (readColumns count columns) := by
  induction count generalizing columns with
  | zero => exact Decoder.streams_pure columns
  | succ count ih => exact (streams_readColumn columns).bind ih

/-- A schema is read without looking at what is behind it. -/
theorem streams_read : Streams IsStream read := by
  refine (streams_stream Decoder.streams_word).bind fun version => ?_
  split_ifs
  · exact Decoder.streams_throw _
  · refine (streams_stream Decoder.streams_byte).bind fun count => ?_
    exact (streams_readColumns count []).map ofColumns

end ReadingOn

/-! ### Reachable schemas -/

/-- The schemas that are made, edited or read. -/
inductive Reachable : Schema → Prop
  | empty : Reachable .empty
  | ofLayout {layout : List (String × ValueType)} {s : Schema}
      (h : Schema.ofLayout layout = .ok s) : Reachable s
  | insert {s s' : Schema} {index : Nat} {name : String} {type : ValueType} (hs : Reachable s)
      (h : s.insert index name type = .ok s') : Reachable s'
  | push {s s' : Schema} {name : String} {type : ValueType} (hs : Reachable s)
      (h : s.push name type = .ok s') : Reachable s'
  | remove {s s' : Schema} {index : Nat} {c : Column} (hs : Reachable s)
      (h : s.remove index = .ok (c, s')) : Reachable s'
  | rename {s s' : Schema} {index : Nat} {name : String} (hs : Reachable s)
      (h : s.rename index name = .ok s') : Reachable s'
  | assign {s other : Schema} (hs : Reachable s) (hother : Reachable other) :
      Reachable (s.assign other).2
  | update {s : Schema} (hs : Reachable s) : Reachable s.update
  | read {input rest : Bytes} {s : Schema} (h : Schema.read input = .ok (s, rest)) : Reachable s


/-- Every schema that is made, edited or read is valid. -/
theorem Reachable.valid {s : Schema} (h : Reachable s) : s.Valid := by
  induction h with
  | empty => exact valid_ofColumns .nil
  | ofLayout h =>
    obtain ⟨columns, hcolumns, rfl⟩ := exists_of_map_ok h
    exact valid_ofColumns (@validLayout_foldlM _ [] _ .nil hcolumns)
  | insert _ h ih =>
    obtain ⟨columns, hcolumns, rfl⟩ := exists_of_map_ok h
    exact valid_ofColumns (validLayout_insertColumn ih.layout hcolumns)
  | push _ h ih =>
    obtain ⟨columns, hcolumns, rfl⟩ := exists_of_map_ok h
    exact valid_ofColumns (validLayout_insertColumn ih.layout hcolumns)
  | remove _ h ih =>
    unfold Schema.remove at h
    split at h
    · cases h
    · cases h
      exact valid_ofColumns (ih.layout.sublist ((List.eraseIdx_sublist _ _).map _))
  | rename _ h ih =>
    unfold Schema.rename at h
    split at h
    · cases h
    · rename_i c hc
      cases hcheck : checkName _ _ (some _) with
      | error reason =>
        rw [hcheck] at h
        cases h
      | ok u =>
        rw [hcheck] at h
        cases h
        exact valid_ofColumns (validLayout_rename ih.layout hc hcheck)
  | assign _ _ _ ih => exact valid_ofColumns ih.layout
  | update _ ih => exact valid_ofColumns ih.layout
  | read h => exact (read_eq_ok.mp h).1

end RecordStore.Schema
