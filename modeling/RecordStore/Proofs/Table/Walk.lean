import Mathlib
import RecordStore.Proofs.Table.Layout
import RecordStore.Table.Walk

/-!
# Walking over a sound table

On a sound table the operations on cursors and cells are those on the list of records: a seated
cursor stands for its index, a step adds one, a jump adds as many as there are, and a cell is the
value in the record with that index.
-/

namespace RecordStore.Table

open Record
open Block (contents)

variable {types : List ValueType} {t : Table} {blocks : List (Block types)} {c : Cursor}

/-! ### Records and cells -/

/-- The record behind whole records of a chunk. -/
lemma record_chunk {b : Block types} {before after : List (Stored types)} {r : Stored types}
    (h : b.records = before ++ r :: after) :
    b.chunk.record (b.head + (before.flatMap Stored.bytes).length) = .ok r.bytes := by
  have hlive : b.live =
      before.flatMap Stored.bytes ++ (r.bytes ++ after.flatMap Stored.bytes) := by
    rw [Block.live, h, List.flatMap_append, List.flatMap_cons]
  have hbounds : b.chunk.head ≤ b.head + (before.flatMap Stored.bytes).length ∧
      b.head + (before.flatMap Stored.bytes).length ≤ b.chunk.tail := by
    rw [Block.chunk_tail, hlive, List.length_append]
    simp only [Block.chunk]
    omega
  have hdrop : b.chunk.live.drop (b.head + (before.flatMap Stored.bytes).length - b.chunk.head) =
      r.bytes ++ after.flatMap Stored.bytes := by
    simp only [Block.chunk, Nat.add_sub_cancel_left, hlive, List.drop_left]
  simp only [Chunk.record, Chunk.liveFrom, if_pos hbounds, hdrop, ok_bind, Stored.first?_append]
  rfl

namespace Holds

lemma record_eq (h : t.Holds blocks) (hc : Seated blocks c) {r : Stored types}
    (hr : (contents blocks)[c.index]? = some r) : t.record c = .ok r.bytes := by
  have hlt := (List.getElem?_eq_some_iff.mp hr).1
  obtain ⟨front, b, back, before, r', after, rfl, hrecords, hindex, hchunk, -, hoffset⟩ :=
    hc.exists_block hlt
  have hr' : r' = r := by
    rw [Block.contents_append, Block.contents_cons, hindex, hrecords,
      List.getElem?_append_right (Nat.le_add_right _ _), Nat.add_sub_cancel_left,
      List.append_assoc, List.getElem?_append_right le_rfl, Nat.sub_self] at hr
    exact Option.some.inj hr
  subst hr'
  have hb : (front ++ b :: back)[c.chunkIndex]? = some b := by
    rw [hchunk, getElem?_length_append]
  rw [record, h.chunk_eq hb, hoffset]
  exact record_chunk hrecords

/-- A cell is what is read of the record with the index of the cursor. -/
theorem cell_eq_read (h : t.Holds blocks) (hcurrent : t.isCurrent c = true) (hc : Seated blocks c)
    {r : Stored types} (hr : (contents blocks)[c.index]? = some r) (column : Nat) :
    t.cell c column = r.read column := by
  have hlt := (List.getElem?_eq_some_iff.mp hr).1
  have hvalid : t.isValid c = true := (h.isValid_iff fun _ => hc).mpr ⟨hcurrent, hc, hlt⟩
  rw [cell, hvalid, h.type?_eq, Stored.read]
  cases types[column]? with
  | none => rfl
  | some type =>
    simp only [h.record_eq hc hr, h.types_eq, ok_bind]
    rfl

/-- A cell is the value in the record with the index of the cursor, and null past the last column.
It is not found behind a field that is not legible. -/
theorem cell_cases (h : t.Holds blocks) (hcurrent : t.isCurrent c = true) (hc : Seated blocks c)
    {r : Stored types} (hr : (contents blocks)[c.index]? = some r) (column : Nat) :
    t.cell c column = .ok ((r.values[column]?).getD .plainNull) ∨
      ¬ r.Legible ∧ Garbled (t.cell c column) := by
  rw [h.cell_eq_read hcurrent hc hr]
  exact (r.read_cases column).imp_right (And.imp_left (mt (List.forall₂_take column)))

theorem cell_eq (h : t.Holds blocks) (hcurrent : t.isCurrent c = true) (hc : Seated blocks c)
    {r : Stored types} (hr : (contents blocks)[c.index]? = some r) (legible : r.Legible)
    (column : Nat) : t.cell c column = .ok ((r.values[column]?).getD .plainNull) := by
  rw [h.cell_eq_read hcurrent hc hr, Stored.read_eq legible]

/-- A cursor that is not at a record reads null. -/
lemma cell_eq_null (h : t.isValid c = false) (column : Nat) : t.cell c column = .ok .plainNull := by
  rw [cell, h]
  rfl

lemma cells_cases (h : t.Holds blocks) (hcurrent : t.isCurrent c = true) (hc : Seated blocks c)
    {r : Stored types} (hr : (contents blocks)[c.index]? = some r) :
    t.cells c = .ok r.values ∨ ¬ r.Legible ∧ Garbled (t.cells c) := by
  rw [← r.map_range_values, cells, h.size_eq]
  exact mapM_ok_or_garbled fun column _ => h.cell_cases hcurrent hc hr column

lemma cells_eq (h : t.Holds blocks) (hcurrent : t.isCurrent c = true) (hc : Seated blocks c)
    {r : Stored types} (hr : (contents blocks)[c.index]? = some r) (legible : r.Legible) :
    t.cells c = .ok r.values := by
  rcases h.cells_cases hcurrent hc hr with hcells | ⟨hillegible, -⟩
  · exact hcells
  · exact absurd legible hillegible

/-! ### Steps -/

lemma advance?_eq_none (h : t.isValid c = false) : t.advance? c = .ok none := by
  rw [advance?, h]
  rfl

/-- A jump from a cursor that is at no record goes nowhere. -/
lemma advanceBy_eq_self (h : t.isValid c = false) (n : Nat) : t.advanceBy n c = .ok (0, c) := by
  rw [advanceBy, if_pos (.inr (by rw [h]; rfl))]

/-- A step leads to the next record, or to the end. -/
theorem advance?_eq (h : t.Holds blocks) (hcurrent : t.isCurrent c = true) (hc : Seated blocks c)
    (hlt : c.index < (contents blocks).length) :
    t.advance? c = .ok (some (seat blocks c.generation (c.index + 1))) := by
  have hvalid : t.isValid c = true := (h.isValid_iff fun _ => hc).mpr ⟨hcurrent, hc, hlt⟩
  obtain ⟨front, b, back, before, r, after, rfl, hrecords, hindex, hchunk, hinner, hoffset⟩ :=
    hc.exists_block hlt
  have hb : (front ++ b :: back)[c.chunkIndex]? = some b := by
    rw [hchunk, getElem?_length_append]
  have hlive : b.live.length = (before.flatMap Stored.bytes).length + r.size +
      (after.flatMap Stored.bytes).length := by
    rw [Block.live, hrecords, List.flatMap_append, List.flatMap_cons, List.length_append,
      List.length_append, Stored.length_bytes]
    omega
  rw [advance?, hvalid, h.chunk_eq hb, hoffset]
  change (do let record ← b.chunk.record (b.head + (before.flatMap Stored.bytes).length); _) = _
  rw [record_chunk hrecords]
  change (if b.head + (before.flatMap Stored.bytes).length + r.bytes.length < b.chunk.tail then _
    else _) = _
  rw [Stored.length_bytes, Block.chunk_tail, hlive]
  cases after with
  | cons a after =>
    -- The next record is in the same chunk.
    have hmore : 0 < ((a :: after).flatMap Stored.bytes).length := by
      rw [List.flatMap_cons, List.length_append, Stored.length_bytes]
      exact Nat.add_pos_left a.size_pos _
    rw [if_pos (by omega)]
    have hnext : b.records = (before ++ [r]) ++ a :: after := by
      rw [hrecords, List.append_assoc]
      rfl
    have hplace := place_record front b back hnext
    simp only [List.length_append, List.length_singleton, List.flatMap_append,
      List.flatMap_singleton, Stored.length_bytes, ← Nat.add_assoc] at hplace
    simp only [seat, hindex, hplace, hchunk, hinner]
    rfl
  | nil =>
    -- The next record is the first of the next chunk, if there is one.
    have hcount : b.records.length = before.length + 1 := by
      rw [hrecords, List.length_append]
      rfl
    have hnumber : ¬ (c.innerIndex + 1 ≠ b.chunk.numRecords) := by
      rw [hinner]
      intro hne
      exact hne hcount.symm
    have hcounted : c.index + 1 = (contents front).length + b.records.length := by
      rw [hindex, hcount, Nat.add_assoc]
    rw [List.flatMap_nil, List.length_nil, if_neg (by omega)]
    change (if c.innerIndex + 1 ≠ b.chunk.numRecords then _ else _) = _
    rw [if_neg hnumber, hchunk]
    exact congrArg (fun next => Except.ok (some next)) (h.seatAt_next hcounted)

/-- Steps lead as far as there are records. -/
lemma advanceSteps_eq (h : t.Holds blocks) (hcurrent : t.isCurrent c = true)
    (hc : Seated blocks c) (n : Nat) :
    t.advanceSteps n c =
      .ok (min n ((contents blocks).length - c.index),
        seat blocks c.generation (c.index + min n ((contents blocks).length - c.index))) := by
  induction n generalizing c with
  | zero =>
    rw [advanceSteps, Nat.zero_min, Nat.add_zero, ← hc.1]
  | succ n ih =>
    by_cases hlt : c.index < (contents blocks).length
    · have hnext := ih (c := seat blocks c.generation (c.index + 1)) hcurrent
        (seated_seat _ hlt)
      have hmin : min (n + 1) ((contents blocks).length - c.index) =
          min n ((contents blocks).length - (c.index + 1)) + 1 := by omega
      rw [advanceSteps, h.advance?_eq hcurrent hc hlt, hmin]
      change (do let p ← t.advanceSteps n (seat blocks c.generation (c.index + 1)); _) = _
      rw [hnext]
      change Except.ok (_, seat blocks c.generation (c.index + 1 + _)) = _
      rw [Nat.add_assoc, Nat.add_comm 1]
      rfl
    · have hvalid : t.isValid c = false := by
        rw [Bool.eq_false_iff]
        intro hv
        exact hlt ((h.isValid_iff fun _ => hc).mp hv).2.2
      have hmin : min (n + 1) ((contents blocks).length - c.index) = 0 := by omega
      rw [advanceSteps, advance?_eq_none hvalid, hmin, Nat.add_zero, ← hc.1]
      rfl

/-- The chunk of a record, and where what is left of the chunk ends. -/
lemma exists_left (h : t.Holds blocks) (hc : Seated blocks c)
    (hlt : c.index < (contents blocks).length) :
    ∃ chunk, t.chunks[c.chunkIndex]? = some chunk ∧
      c.index + (chunk.numRecords - c.innerIndex) ≤ (contents blocks).length ∧
      t.seatAt { c with index := c.index + (chunk.numRecords - c.innerIndex) } (c.chunkIndex + 1) =
        seat blocks c.generation (c.index + (chunk.numRecords - c.innerIndex)) := by
  obtain ⟨front, b, back, before, r, after, rfl, hrecords, hindex, hchunk, hinner, -⟩ :=
    hc.exists_block hlt
  have hle : before.length ≤ b.records.length := by
    rw [hrecords, List.length_append]
    exact Nat.le_add_right _ _
  have hcounted : c.index + (b.records.length - c.innerIndex) =
      (contents front).length + b.records.length := by
    rw [hindex, hinner]
    omega
  refine ⟨b.chunk, ?_, ?_, ?_⟩
  · rw [h.chunks_eq, List.getElem?_map, hchunk, getElem?_length_append]
    rfl
  · change c.index + (b.records.length - c.innerIndex) ≤ _
    rw [hcounted, Block.contents_append, Block.contents_cons, List.length_append,
      List.length_append]
    omega
  · rw [hchunk]
    exact h.seatAt_next hcounted

/-- A jump leads as far as there are records. -/
theorem advanceBy_eq (h : t.Holds blocks) (hcurrent : t.isCurrent c = true)
    (hc : Seated blocks c) (n : Nat) :
    t.advanceBy n c =
      .ok (min n ((contents blocks).length - c.index),
        seat blocks c.generation (c.index + min n ((contents blocks).length - c.index))) := by
  induction hbelow : t.chunks.length - c.chunkIndex using Nat.strong_induction_on
    generalizing c n with
  | _ below ih =>
    by_cases hstop : n = 0 ∨ (!t.isValid c) = true
    · have hmin : min n ((contents blocks).length - c.index) = 0 := by
        rcases hstop with rfl | hvalid
        · exact Nat.zero_min _
        · have hlt : ¬ c.index < (contents blocks).length := fun hlt => by
            rw [(h.isValid_iff fun _ => hc).mpr ⟨hcurrent, hc, hlt⟩] at hvalid
            cases hvalid
          omega
      rw [advanceBy, if_pos hstop, hmin, Nat.add_zero, ← hc.1]
    · obtain ⟨-, hvalid⟩ := not_or.mp hstop
      have hlt := ((h.isValid_iff fun _ => hc).mp (by simpa using hvalid)).2.2
      obtain ⟨chunk, hsome, hle, hnext⟩ := h.exists_left hc hlt
      rw [advanceBy, if_neg hstop]
      split
      · rename_i hnone
        rw [hsome] at hnone
        cases hnone
      · rename_i chunk' hsome'
        obtain rfl := Option.some.inj (hsome.symm.trans hsome')
        generalize chunk.numRecords - c.innerIndex = left at hle hnext
        change (if left ≤ n then do
          let p ← t.advanceBy (n - left) (t.seatAt { c with index := c.index + left }
            (c.chunkIndex + 1))
          pure (left + p.1, p.2) else _) = _
        split_ifs with hskip
        · -- The rest of the chunk is skipped.
          have hbelow' : t.chunks.length - (c.chunkIndex + 1) < below := by
            have := (List.getElem?_eq_some_iff.mp hsome).1
            omega
          have hrest := ih _ hbelow' (c := seat blocks c.generation (c.index + left)) hcurrent
            (seated_seat _ hle) (n - left) (by rw [← hnext]; rfl)
          have hmin : left + min (n - left) ((contents blocks).length - (c.index + left)) =
              min n ((contents blocks).length - c.index) := by omega
          rw [hnext, hrest, ok_bind]
          change Except.ok (left + min _ (_ - (c.index + left)),
            seat _ c.generation (c.index + left + min _ (_ - (c.index + left)))) = _
          rw [Nat.add_assoc, hmin]
        · exact h.advanceSteps_eq hcurrent hc n

/-! ### Cursors by index, and rows -/

/-- A cursor is found by the number of records in front of it. -/
theorem cursorAt_eq (h : t.Holds blocks) (index : Nat) :
    t.cursorAt index =
      .ok (seat blocks t.generation (min index (contents blocks).length)) := by
  by_cases hend : t.numRecords ≤ index
  · have hmin : min index (contents blocks).length = (contents blocks).length := by
      rw [h.count_eq] at hend
      omega
    rw [cursorAt, if_pos hend, h.endCursor_eq, hmin]
  · rw [cursorAt, if_neg hend, h.startCursor_eq, h.advanceBy_eq (isCurrent_seat ..)
      (seated_seat _ (Nat.zero_le _))]
    change Except.ok (seat blocks t.generation (0 + min index ((contents blocks).length - 0))) = _
    rw [Nat.zero_add, Nat.sub_zero]

lemma next?_eq (h : t.Holds blocks) {index : Nat} (hlt : index < (contents blocks).length) :
    Rows.next? ⟨t, seat blocks t.generation index⟩ =
      .ok (some (seat blocks t.generation index, ⟨t, seat blocks t.generation (index + 1)⟩)) := by
  have hseated := seated_seat t.generation hlt.le
  have hcurrent := isCurrent_seat t blocks index
  have hvalid : t.isValid (seat blocks t.generation index) = true :=
    (h.isValid_iff fun _ => hseated).mpr ⟨hcurrent, hseated, hlt⟩
  rw [Rows.next?, hvalid]
  change (do let next ← t.advance? (seat blocks t.generation index); _) = _
  rw [h.advance?_eq hcurrent hseated hlt]
  rfl

lemma take_rows_eq (h : t.Holds blocks) (n : Nat) {index : Nat}
    (hle : index + n ≤ (contents blocks).length) :
    Rows.take n ⟨t, seat blocks t.generation index⟩ =
      .ok ((List.range' index n).map (seat blocks t.generation)) := by
  induction n generalizing index with
  | zero => rfl
  | succ n ih =>
    rw [Rows.take, h.next?_eq (by omega)]
    change (do return seat blocks t.generation index ::
      (← Rows.take n ⟨t, seat blocks t.generation (index + 1)⟩)) = _
    rw [ih (by omega), List.range'_succ]
    rfl

/-- The rows are at the records, in order. -/
theorem cursors_eq (h : t.Holds blocks) :
    t.rows.cursors =
      .ok ((List.range (contents blocks).length).map (seat blocks t.generation)) := by
  have hstart : t.rows = ⟨t, seat blocks t.generation 0⟩ := by
    rw [rows, h.startCursor_eq]
  have hremaining : (Rows.mk t (seat blocks t.generation 0)).remaining =
      (contents blocks).length := by
    rw [Rows.remaining, h.count_eq]
    rfl
  rw [hstart, Rows.cursors, hremaining, h.take_rows_eq _ (by rw [Nat.zero_add]),
    List.range_eq_range']

/-- What is done at the rows from one on is done to the records from there on, unless it is
garbled. -/
lemma mapM_seats {α : Type} {f : Cursor → Except Fault α} {g : Stored types → α} {bad : Prop}
    {n index : Nat}
    (hf : ∀ i r, (contents blocks)[i]? = some r →
      f (seat blocks t.generation i) = .ok (g r) ∨ bad ∧ Garbled (f (seat blocks t.generation i)))
    (hn : index + n = (contents blocks).length) :
    ((List.range' index n).map (seat blocks t.generation)).mapM f =
        .ok (((contents blocks).drop index).map g) ∨
      bad ∧ Garbled (((List.range' index n).map (seat blocks t.generation)).mapM f) := by
  induction n generalizing index with
  | zero =>
    rw [List.drop_eq_nil_of_le (by omega)]
    exact .inl rfl
  | succ n ih =>
    have hlt : index < (contents blocks).length := by omega
    rw [List.range'_succ, List.map_cons, List.mapM_cons, List.drop_eq_getElem_cons hlt]
    rcases hf index _ (List.getElem?_eq_getElem hlt) with hrun | ⟨hbad, hgarbled⟩
    · rw [hrun, ok_bind]
      have hnext : index + 1 + n = (contents blocks).length := by omega
      rcases ih hnext with hrest | ⟨hbad, hgarbled⟩
      · rw [hrest]
        exact .inl rfl
      · exact .inr ⟨hbad, hgarbled.bind _⟩
    · exact .inr ⟨hbad, hgarbled.bind _⟩

/-- What is done at every row is done to every record, unless it is garbled at one of them. -/
theorem mapM_rows_cases (h : t.Holds blocks) {α : Type} {f : Cursor → Except Fault α}
    {g : Stored types → α} {bad : Prop}
    (hf : ∀ c r, t.isCurrent c = true → Seated blocks c → (contents blocks)[c.index]? = some r →
      f c = .ok (g r) ∨ bad ∧ Garbled (f c)) :
    (do (← t.rows.cursors).mapM f) = .ok ((contents blocks).map g) ∨
      bad ∧ Garbled (do (← t.rows.cursors).mapM f) := by
  have hseats : ∀ i r, (contents blocks)[i]? = some r →
      f (seat blocks t.generation i) = .ok (g r) ∨
        bad ∧ Garbled (f (seat blocks t.generation i)) := by
    intro i r hr
    have hlt := (List.getElem?_eq_some_iff.mp hr).1
    exact hf _ r (isCurrent_seat t blocks i) (seated_seat _ hlt.le) hr
  rw [h.cursors_eq, ok_bind, List.range_eq_range']
  exact mapM_seats hseats (Nat.zero_add _)

theorem mapM_rows (h : t.Holds blocks) {α : Type} {f : Cursor → Except Fault α}
    {g : Stored types → α}
    (hf : ∀ c r, t.isCurrent c = true → Seated blocks c → (contents blocks)[c.index]? = some r →
      f c = .ok (g r)) :
    (do (← t.rows.cursors).mapM f) = .ok ((contents blocks).map g) := by
  have hcases : ∀ c r, t.isCurrent c = true → Seated blocks c →
      (contents blocks)[c.index]? = some r → f c = .ok (g r) ∨ False ∧ Garbled (f c) :=
    fun c r hcurrent hc hr => .inl (hf c r hcurrent hc hr)
  rcases h.mapM_rows_cases hcases with hrun | ⟨hbad, -⟩
  · exact hrun
  · exact hbad.elim

/-- The values of a table are those of its records, if these are legible. -/
theorem values_cases (h : t.Holds blocks) :
    t.values = .ok ((contents blocks).map Stored.values) ∨
      (¬ ∀ r ∈ contents blocks, r.Legible) ∧ Garbled t.values :=
  h.mapM_rows_cases fun _ r hcurrent hc hr =>
    (h.cells_cases hcurrent hc hr).imp_right fun ⟨hillegible, hgarbled⟩ =>
      ⟨fun hall => hillegible (hall r (List.mem_of_getElem? hr)), hgarbled⟩

/-- Where the values are read they are those of the records. -/
lemma eq_of_values (h : t.Holds blocks) {rows : List (List Value)} (hrows : t.values = .ok rows) :
    rows = (contents blocks).map Stored.values := by
  rcases h.values_cases with hvalues | ⟨-, hgarbled⟩
  · exact Except.ok.inj (hrows.symm.trans hvalues)
  · exact absurd hrows (hgarbled.ne_ok rows)

theorem values_eq (h : t.Holds blocks) (legible : ∀ r ∈ contents blocks, r.Legible) :
    t.values = .ok ((contents blocks).map Stored.values) := by
  rcases h.values_cases with hvalues | ⟨hillegible, -⟩
  · exact hvalues
  · exact absurd legible hillegible

end Holds

end RecordStore.Table
