import Mathlib
import RecordStore.Proofs.Table.Walk

/-!
# Jumps, steps and iteration

From a record on one gets forward by a jump, by as many steps, by the number of the record, and by
asking for one row after the other. On a sound table all of these lead to the same cursor, which is
the one seat of its record, and at the end none of them leads on.
-/

namespace RecordStore.Table

open Record
open Block (contents)

variable {types : List ValueType} {t : Table} {blocks : List (Block types)} {c : Cursor}

/-! ### Steps -/

/-- So many steps, each of which leads on. -/
inductive Steps (t : Table) : Nat → Cursor → Cursor → Prop
  | none (c : Cursor) : Steps t 0 c c
  | step {n : Nat} {c next last : Cursor} (h : t.advance? c = .ok (some next))
      (hrest : Steps t n next last) : Steps t (n + 1) c last

namespace Holds

/-- Steps from seat to seat. -/
lemma steps_seat (h : t.Holds blocks) (n : Nat) {index : Nat}
    (hle : index + n ≤ (contents blocks).length) :
    t.Steps n (seat blocks t.generation index) (seat blocks t.generation (index + n)) := by
  induction n generalizing index with
  | zero => exact .none _
  | succ n ih =>
    have hlt : index < (contents blocks).length := by omega
    have hstep := h.advance?_eq (isCurrent_seat t blocks index) (seated_seat _ hlt.le) hlt
    have hrest := @ih (index + 1) (by omega)
    rw [Nat.add_assoc, Nat.add_comm 1] at hrest
    exact .step hstep hrest

/-- There is no step from the end. -/
lemma advance?_end (h : t.Holds blocks) :
    t.advance? (seat blocks t.generation (contents blocks).length) = .ok none :=
  advance?_eq_none (h.isValid_of_length_le le_rfl)

end Holds

/-! ### Asking for rows -/

namespace Rows

/-- What asking for a row gives, and the rows that are left. Where there is none, nothing
changes. -/
def call (r : Rows) : Except Fault (Option Cursor × Rows) := do
  match ← r.next? with
  | none => return (none, r)
  | some (c, rest) => return (some c, rest)

/-- What asking `n` times gives, and the rows that are left. -/
def calls : Nat → Rows → Except Fault (List (Option Cursor) × Rows)
  | 0, r => .ok ([], r)
  | n + 1, r => do
    let (item, rest) ← r.call
    let (items, last) ← calls n rest
    return (item :: items, last)

end Rows

namespace Holds

lemma call_seat (h : t.Holds blocks) {index : Nat} (hlt : index < (contents blocks).length) :
    Rows.call ⟨t, seat blocks t.generation index⟩ =
      .ok (some (seat blocks t.generation index), ⟨t, seat blocks t.generation (index + 1)⟩) := by
  rw [Rows.call, h.next?_eq hlt]
  rfl

/-- At the end there are no more rows, and it stays the end. -/
lemma call_end (h : t.Holds blocks) :
    Rows.call ⟨t, seat blocks t.generation (contents blocks).length⟩ =
      .ok (none, ⟨t, seat blocks t.generation (contents blocks).length⟩) := by
  have hinvalid : t.isValid (seat blocks t.generation (contents blocks).length) = false :=
    h.isValid_of_length_le le_rfl
  rw [Rows.call, Rows.next?, hinvalid]
  rfl

/-- Asking at the end goes on giving nothing. -/
lemma calls_end (h : t.Holds blocks) (n : Nat) :
    Rows.calls n ⟨t, seat blocks t.generation (contents blocks).length⟩ =
      .ok (List.replicate n none, ⟨t, seat blocks t.generation (contents blocks).length⟩) := by
  induction n with
  | zero => rfl
  | succ n ih =>
    rw [Rows.calls, h.call_end, ok_bind]
    change (do let p ← Rows.calls n _; _) = _
    rw [ih]
    rfl

/-- Asking from a record on gives the rows from there to the end, and then nothing. -/
lemma calls_seat (h : t.Holds blocks) (n : Nat) {index left : Nat}
    (hend : index + left = (contents blocks).length) :
    Rows.calls n ⟨t, seat blocks t.generation index⟩ =
      .ok (((List.range' index (min n left)).map (seat blocks t.generation)).map some ++
          List.replicate (n - left) none,
        ⟨t, seat blocks t.generation (index + min n left)⟩) := by
  induction left generalizing n index with
  | zero =>
    obtain rfl : index = (contents blocks).length := hend
    rw [h.calls_end, Nat.min_zero]
    rfl
  | succ left ih =>
    cases n with
    | zero =>
      rw [Nat.zero_min, Nat.zero_sub]
      rfl
    | succ n =>
      have hlt : index < (contents blocks).length := by omega
      have hrest := @ih n (index + 1) (by omega)
      rw [Rows.calls, h.call_seat hlt, ok_bind]
      change (do let p ← Rows.calls n ⟨t, seat blocks t.generation (index + 1)⟩; _) = _
      rw [hrest, Nat.add_min_add_right, Nat.add_sub_add_right, List.range'_succ, ← Nat.add_assoc,
        Nat.add_right_comm index]
      rfl

lemma calls_rows (h : t.Holds blocks) (n : Nat) :
    t.rows.calls n =
      .ok (((List.range (min n (contents blocks).length)).map (seat blocks t.generation)).map some
          ++ List.replicate (n - (contents blocks).length) none,
        ⟨t, seat blocks t.generation (min n (contents blocks).length)⟩) := by
  have hrows : t.rows = ⟨t, seat blocks t.generation 0⟩ := by rw [rows, h.startCursor_eq]
  rw [hrows, h.calls_seat n (Nat.zero_add _), Nat.zero_add, List.range_eq_range']

end Holds

/-! ### The same place in every way -/

/-- Where a jump of `k` records from record `i` leads, which is as far as there are records: the
steps, the number of the record and the row with this number lead there as well. -/
structure Arrives (t : Table) (i k : Nat) (start last : Cursor) : Prop where
  start_eq : t.cursorAt i = .ok start
  advanceBy_eq : t.advanceBy k start = .ok (min k (t.numRecords - i), last)
  steps : t.Steps (min k (t.numRecords - i)) start last
  advance?_eq : i + min k (t.numRecords - i) = t.numRecords → t.advance? last = .ok none
  cursorAt_eq : t.cursorAt (i + min k (t.numRecords - i)) = .ok last
  row_eq : i + min k (t.numRecords - i) < t.numRecords → ∀ n, i + min k (t.numRecords - i) < n →
    ∃ items rest, t.rows.calls n = .ok (items, rest) ∧
      items[i + min k (t.numRecords - i)]? = some (some last)

/-- What asking for a row `n` times gives: a row for each number in order, as far as there are
records, and nothing from then on. -/
structure Enumerates (t : Table) (n : Nat) (cursors : List Cursor) (rest : Rows) : Prop where
  calls_eq : t.rows.calls n =
    .ok (cursors.map some ++ List.replicate (n - t.numRecords) none, rest)
  indices_eq : cursors.map Cursor.index = List.range (min n t.numRecords)
  cursorAt_eq : ∀ c ∈ cursors, t.cursorAt c.index = .ok c
  remaining_eq : rest.remaining = t.numRecords - n

namespace Holds

lemma arrives (h : t.Holds blocks) {i : Nat} (hi : i ≤ t.numRecords) (k : Nat) :
    ∃ start last, t.Arrives i k start last := by
  rw [h.count_eq] at hi
  have hmin : i + min k ((contents blocks).length - i) ≤ (contents blocks).length := by omega
  have hseated := seated_seat t.generation hi
  refine ⟨seat blocks t.generation i,
    seat blocks t.generation (i + min k ((contents blocks).length - i)), ?_, ?_, ?_, ?_, ?_, ?_⟩
  · rw [h.cursorAt_eq, Nat.min_eq_left hi]
  · rw [h.count_eq]
    exact h.advanceBy_eq (isCurrent_seat t blocks i) hseated k
  · rw [h.count_eq]
    exact h.steps_seat _ hmin
  · rw [h.count_eq]
    intro hend
    rw [hend]
    exact h.advance?_end
  · rw [h.count_eq, h.cursorAt_eq, Nat.min_eq_left hmin]
  · rw [h.count_eq]
    generalize i + min k ((contents blocks).length - i) = j
    intro hlt n hn
    have hj : j < min n (contents blocks).length := lt_min hn hlt
    refine ⟨_, _, h.calls_rows n, ?_⟩
    rw [List.getElem?_append_left (by simpa using hj), List.getElem?_map, List.getElem?_map,
      List.getElem?_range hj]
    rfl

lemma enumerates (h : t.Holds blocks) (n : Nat) :
    ∃ cursors rest, t.Enumerates n cursors rest := by
  refine ⟨(List.range (min n (contents blocks).length)).map (seat blocks t.generation),
    ⟨t, seat blocks t.generation (min n (contents blocks).length)⟩, ?_, ?_, ?_, ?_⟩
  · rw [h.count_eq]
    exact h.calls_rows n
  · have hindex : Cursor.index ∘ seat blocks t.generation = id := rfl
    rw [List.map_map, hindex, List.map_id, h.count_eq]
  · intro c hc
    obtain ⟨j, hj, rfl⟩ := List.mem_map.mp hc
    have hle : j ≤ (contents blocks).length := by
      rw [List.mem_range] at hj
      omega
    change t.cursorAt j = _
    rw [h.cursorAt_eq, Nat.min_eq_left hle]
  · change t.numRecords - min n (contents blocks).length = _
    rw [h.count_eq]
    omega

end Holds

end RecordStore.Table
