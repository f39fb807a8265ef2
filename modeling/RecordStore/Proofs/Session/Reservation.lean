import Mathlib
import RecordStore.Proofs.Session.Sound

/-!
# Room to grow

A new record reserves room for its strings: up to a power of two, and no less than a floor that the
configuration sets. The room is bounded by the row and the floor, and by what the columns can hold,
but not by what a header can state. A row is inserted if all that it reserves fits the header, and
only then, however small the row is without its room.
-/

namespace RecordStore

/-! ### Fields -/

namespace Field

lemma powerOfTwoFor_le (n : Nat) : powerOfTwoFor n ≤ 2 * n + 1 := by
  rw [powerOfTwoFor]
  split_ifs with h
  · omega
  · have hlog : 2 ^ (n - 1).log2 ≤ n - 1 := Nat.log2_self_le (by omega)
    rw [Nat.pow_succ]
    omega

lemma stringRoom_le (w : Width) (length floor : Nat) :
    stringRoom w length floor ≤ 2 * (w.lengthBytes + length) + (2 * floor + 1) := by
  have hpower := powerOfTwoFor_le (max length floor)
  rw [stringRoom]
  omega

/-- Twice the field and twice the floor, and no more than a few bytes beyond. -/
lemma reserveSize_le (t : ValueType) (v : Value) (floor : Nat) :
    reserveSize t v floor ≤ 2 * encodedSize t v + (2 * floor + 4) := by
  cases t with
  | string w =>
    have hroom := stringRoom_le w v.size floor
    rw [reserveSize, encodedSize, plainSize]
    · omega
    · intro w' hdynamic
      cases hdynamic
  | dynamic w =>
    rw [reserveSize, encodedSize]
    split
    · rename_i w' htype
      have hroom := stringRoom_le w' v.size floor
      rw [htype, plainSize]
      omega
    · rw [tagBytes]
      omega
  | null w | integer w signed | decimal w | objectId w =>
    rw [reserveSize, encodedSize, plainSize]
    all_goals first | omega | (intro w' hsame; cases hsame)

/-- The most that a field can take up whose type is not dynamic: a string of the greatest width. -/
def plainLimit : Nat := Width.lengthBytes .bits64 + Width.maxLength .bits64

/-- The most that a field of the type can take up. -/
def sizeLimit : ValueType → Nat
  | .string w => w.lengthBytes + w.maxLength
  | .dynamic _ => tagBytes + plainLimit
  | t => t.fixedSize?.getD 0

lemma stringRoom_le_limit (w : Width) (length floor : Nat) :
    stringRoom w length floor ≤ w.lengthBytes + w.maxLength :=
  Nat.add_le_add_left (Nat.min_le_right _ _) _

lemma lengthBytes_add_maxLength_le (w : Width) : w.lengthBytes + w.maxLength ≤ plainLimit := by
  cases w <;> decide

lemma reserveSize_le_limit (t : ValueType) (v : Value) (floor : Nat) :
    reserveSize t v floor ≤ sizeLimit t := by
  cases t with
  | string w => exact stringRoom_le_limit w v.size floor
  | dynamic w =>
    rw [reserveSize, sizeLimit]
    split
    · rename_i w' htype
      exact Nat.add_le_add_left
        ((stringRoom_le_limit w' v.size floor).trans (lengthBytes_add_maxLength_le w')) _
    · decide
  | null w | integer w signed | decimal w | objectId w => exact le_rfl

lemma fixedSize_le {t : ValueType} {n : Nat} (h : t.fixedSize? = some n) : n ≤ 8 := by
  cases t with
  | integer w signed => cases w <;> cases h <;> decide
  | decimal w => cases w <;> cases h <;> decide
  | null w | objectId w =>
    cases h
    decide
  | dynamic w | string w => cases h

lemma IsField.length_le_plainLimit {t : ValueType} {bytes : Bytes} (h : IsField t bytes)
    (plain : t.isDynamic = false) : bytes.length ≤ plainLimit := by
  cases h with
  | fixed size => exact (fixedSize_le size).trans (by decide)
  | @string w payload fits =>
    rw [List.length_append, LittleEndian.length_encode]
    exact (Nat.add_le_add_left fits _).trans (lengthBytes_add_maxLength_le w)
  | dynamic => cases plain

lemma IsField.length_le_limit {t : ValueType} {bytes : Bytes} (h : IsField t bytes) :
    bytes.length ≤ sizeLimit t := by
  cases h with
  | fixed size => cases t <;> simp_all [sizeLimit, ValueType.fixedSize?]
  | string fits =>
    rw [List.length_append, LittleEndian.length_encode]
    exact Nat.add_le_add_left fits _
  | dynamic plain field =>
    rw [List.length_append, LittleEndian.length_encode]
    exact Nat.add_le_add_left (field.length_le_plainLimit plain) _

/-- What a new cell takes up: its field, or more if it reserves more. -/
def cellSize (t : ValueType) (v : Value) (floor : Nat) : Nat :=
  max (reserveSize t v floor) (encodedSize t v)

lemma cellSize_le (t : ValueType) (v : Value) (floor : Nat) :
    cellSize t v floor ≤ 2 * encodedSize t v + (2 * floor + 4) := by
  have hreserve := reserveSize_le t v floor
  rw [cellSize]
  omega

lemma cellSize_le_limit (t : ValueType) {v : Value} (hv : v.Proper) (floor : Nat) :
    cellSize t (v.convertTo t) floor ≤ sizeLimit t := by
  have hfits : Fits t (v.convertTo t) := fits_convertTo t v
  have hfield := (isField_encode (Value.proper_convertTo hv t) hfits).length_le_limit
  rw [length_encode hfits] at hfield
  exact max_le (reserveSize_le_limit t _ floor) hfield

lemma minSize_le_limit (t : ValueType) : minSize t ≤ sizeLimit t := by
  cases t with
  | string w => exact Nat.le_add_right _ _
  | dynamic w => exact Nat.le_add_right _ _
  | null w | integer w signed | decimal w | objectId w => exact le_rfl

end Field

/-! ### Records -/

namespace Record

/-- The size of a new record without room to grow: its header, its cells, and the zeros of the
columns that have no value. -/
def denseSize (types : List ValueType) (values : List Value) : Nat :=
  headerBytes + ((cells types values).map fun (t, v) => Field.encodedSize t v).sum +
    ((types.drop values.length).map Field.minSize).sum

variable {types : List ValueType} {values : List Value} {floor : Nat}

lemma denseSize_le_reserveSize (types : List ValueType) (values : List Value) (floor : Nat) :
    denseSize types values ≤ reserveSize types values floor := by
  refine Nat.add_le_add_right (Nat.add_le_add_left ?_ _) _
  exact List.sum_le_sum fun _ _ => Nat.le_max_right _ _

lemma reserveSize_nil (types : List ValueType) (floor : Nat) :
    reserveSize types [] floor = headerBytes + (types.map Field.minSize).sum := by
  cases types <;> rfl

lemma reserveSize_cons (t : ValueType) (ts : List ValueType) (v : Value) (vs : List Value)
    (floor : Nat) : reserveSize (t :: ts) (v :: vs) floor =
      Field.cellSize t (v.convertTo t) floor + reserveSize ts vs floor := by
  simp only [reserveSize, cells, Field.cellSize, List.zipWith_cons_cons, List.map_cons,
    List.sum_cons, List.length_cons, List.drop_succ_cons]
  omega

lemma denseSize_nil (types : List ValueType) :
    denseSize types [] = headerBytes + (types.map Field.minSize).sum := by
  cases types <;> rfl

lemma denseSize_cons (t : ValueType) (ts : List ValueType) (v : Value) (vs : List Value) :
    denseSize (t :: ts) (v :: vs) = Field.encodedSize t (v.convertTo t) + denseSize ts vs := by
  simp only [denseSize, cells, List.zipWith_cons_cons, List.map_cons, List.sum_cons,
    List.length_cons, List.drop_succ_cons]
  omega

/-- A record reserves no more than twice its size and twice the floor for each of its columns. -/
lemma reserveSize_le (types : List ValueType) (values : List Value) (floor : Nat) :
    reserveSize types values floor ≤
      2 * denseSize types values + types.length * (2 * floor + 4) := by
  induction types generalizing values with
  | nil =>
    rw [reserveSize, denseSize]
    simp [cells]
    omega
  | cons t ts ih =>
    cases values with
    | nil =>
      rw [reserveSize_nil, denseSize_nil]
      omega
    | cons v vs =>
      have hcell := Field.cellSize_le t (v.convertTo t) floor
      have hrest := ih vs
      rw [reserveSize_cons, denseSize_cons, List.length_cons, Nat.add_one_mul ts.length]
      omega

/-- A record reserves no more than its columns can hold. -/
lemma reserveSize_le_limit (types : List ValueType) {values : List Value}
    (h : ∀ v ∈ values, v.Proper) (floor : Nat) :
    reserveSize types values floor ≤ headerBytes + (types.map Field.sizeLimit).sum := by
  induction types generalizing values with
  | nil => simp [reserveSize, cells]
  | cons t ts ih =>
    cases values with
    | nil =>
      rw [reserveSize_nil]
      refine Nat.add_le_add_left ?_ _
      exact List.sum_le_sum fun t _ => Field.minSize_le_limit t
    | cons v vs =>
      obtain ⟨hv, hvs⟩ := List.forall_mem_cons.mp h
      have hcell := Field.cellSize_le_limit t hv floor
      have hrest := ih hvs
      rw [reserveSize_cons, List.map_cons, List.sum_cons]
      omega

end Record

/-! ### Insertions -/

/-- The size of a new record of these values, with the room that it reserves. -/
def Table.reserved (t : Table) (values : List Value) : Nat :=
  Record.reserveSize t.schema.types values t.config.minStringReserve

namespace Session

open Table (Block)
open Table.Block (contents)
open Record (Stored denseSize headerBytes)

variable {types : List ValueType} {s : Session} {blocks : List (Block types)}
  {values : List Value} {request : Request}

/-- The request inserts a row: at the end, or through a cursor that is current. -/
inductive Inserts (s : Session) (values : List Value) : Request → Prop
  | push : Inserts s values (.push values)
  | insert {c : Table.Cursor} (hc : c ∈ s.cursors) (hcurrent : s.table.isCurrent c = true) :
      Inserts s values (.insert c values)

/-- The size of a new record is the first thing that an insertion asks for. -/
lemma Sound.inserts_of_large (h : s.Sound blocks) (hinserts : s.Inserts values request)
    (hlarge : 2 ^ 32 ≤ s.table.reserved values) :
    s.step request = .error (.recordTooLarge (s.table.reserved values)) := by
  have hinsert : ∀ c, s.table.isPosition c = true →
      s.table.insert c values = .error (.recordTooLarge (s.table.reserved values)) := by
    intro c hposition
    have hheader : Record.header (s.table.reserved values) =
        .error (.recordTooLarge (s.table.reserved values)) := if_neg (Nat.not_lt.mpr hlarge)
    rw [Table.insert, hposition]
    change (do let header ← Record.header (s.table.reserved values); _) = _
    rw [hheader]
    rfl
  cases hinserts with
  | push =>
    have hend : s.table.isPosition s.table.endCursor = true :=
      (h.holds.isPosition_iff fun _ => h.holds.seated_endCursor).mpr
        ⟨Table.isCurrent_iff.mpr rfl, h.holds.seated_endCursor⟩
    rw [step, Table.push, hinsert _ hend]
    rfl
  | insert hc hcurrent =>
    have hposition := (h.holds.isPosition_iff (h.seated _ hc)).mpr
      ⟨hcurrent, h.seated _ hc hcurrent⟩
    rw [step, hinsert _ hposition]
    rfl

/-- After an insertion there is one record more. -/
lemma Sound.inserts (h : s.Sound blocks) (hvalues : ∀ v ∈ values, v.Proper)
    (hinserts : s.Inserts values request) :
    (∃ s', s.step request = .ok s' ∧ s'.table.numRecords = s.table.numRecords + 1) ∨
      s.Fails request := by
  have hcount : ∀ (c : Table.Cursor) (records : List (Stored types)) result,
      Table.Edited s.table c records result → records.length = (contents blocks).length + 1 →
      (s.follow result).table.numRecords = s.table.numRecords + 1 := by
    rintro c records result ⟨⟨blocks', hholds, rfl, -⟩, -⟩ hlength
    rw [h.holds.count_eq, ← hlength]
    exact hholds.count_eq
  cases hinserts with
  | push =>
    refine h.exists_or_fails ((h.push_yields hvalues).map ?_) (id_map _).symm
    rintro result ⟨r, hfresh, hedited⟩
    exact hcount _ _ _ hedited (by rw [List.length_append, List.length_singleton])
  | insert hc hcurrent =>
    refine h.exists_or_fails ((h.insert_yields ⟨hc, hvalues⟩ hcurrent).map ?_) (id_map _).symm
    rintro result ⟨r, hfresh, hedited⟩
    have hle := (h.seated _ hc hcurrent).2
    exact hcount _ _ _ hedited (List.length_insertIdx_of_le_length hle _)

/-- In every session a row that is inserted reserves at least its own size, no more than twice that
and twice the floor for each column, and no more than the columns can hold. It is inserted if a
header can state what it reserves, and only then; its fields have to be legible where the table is
checked. -/
theorem Reachable.reservation (h : s.Reachable) (hvalues : ∀ v ∈ values, v.Proper) :
    denseSize s.table.schema.types values ≤ s.table.reserved values ∧
      s.table.reserved values ≤ 2 * denseSize s.table.schema.types values +
        s.table.schema.types.length * (2 * s.table.config.minStringReserve + 4) ∧
      s.table.reserved values ≤ headerBytes + (s.table.schema.types.map Field.sizeLimit).sum ∧
      ∀ request, s.Inserts values request →
        (s.table.reserved values < 2 ^ 32 ∧
          ((∃ s', s.step request = .ok s' ∧ s'.table.numRecords = s.table.numRecords + 1) ∨
            s.Illegible request)) ∨
        (2 ^ 32 ≤ s.table.reserved values ∧
          s.step request = .error (.recordTooLarge (s.table.reserved values))) := by
  obtain ⟨types, blocks, hsound⟩ := h.sound
  refine ⟨Record.denseSize_le_reserveSize _ _ _, Record.reserveSize_le _ _ _,
    Record.reserveSize_le_limit _ hvalues _, fun request hinserts => ?_⟩
  rcases Nat.lt_or_ge (s.table.reserved values) (2 ^ 32) with hsmall | hlarge
  · refine .inl ⟨hsmall, ?_⟩
    rcases hsound.inserts hvalues hinserts with hok | ⟨size, hasks, hlarge, -⟩ | hillegible
    · exact .inl hok
    · have hsize : size = s.table.reserved values := by
        cases hinserts <;> exact hasks
      exact absurd hsmall (Nat.not_lt.mpr (hsize ▸ hlarge))
    · exact .inr hillegible
  · exact .inr ⟨hlarge, hsound.inserts_of_large hinserts hlarge⟩

/-- An empty text behind a byte that was appended. -/
theorem reservation_of_pushed_byte :
    ∃ s : Session, s.Reachable ∧ s.table.chunks = [⟨8192, 0, [5, 0, 0, 0, 7], 1⟩] ∧
      s.Inserts [.integer .bits8 false 9] (.push [.integer .bits8 false 9]) ∧
      ∃ s', s.step (.push [.integer .bits8 false 9]) = .ok s' ∧
        s'.table.numRecords = s.table.numRecords + 1 := by
  have hproper : ∀ v ∈ [Value.integer .bits8 false 9], v.Proper := by decide
  have htells : ValueType.TellsAll [.integer .bits8 false] [.integer .bits8 false] := by decide
  have hlaws := told_pushed_byte.reachable.reservation hproper
  refine ⟨_, told_pushed_byte.reachable, rfl, .push, ?_⟩
  rcases hlaws.2.2.2 _ .push with ⟨-, hinserted | ⟨hdamage, -⟩⟩ | ⟨hlarge, -⟩
  · exact hinserted
  · exact absurd ⟨told_pushed_byte.check_eq, htells⟩ hdamage
  · exact absurd hlarge (by decide)

/-- One column of long texts. -/
def longTextColumn : Schema := .ofColumns [⟨"s", .string .bits32, 0⟩]

/-- A floor that validation accepts can keep out every row, the row of an empty text too: that takes
up eight bytes, and reserves more than a header can state. -/
theorem empty_text_not_inserted :
    ∃ s : Session, s.Reachable ∧
      Table.withConfig longTextColumn ⟨64, 2 ^ 32, false⟩ = .ok s.table ∧
      denseSize s.table.schema.types [.string .bits8 []] = 8 ∧
      s.table.reserved [.string .bits8 []] = 2 ^ 32 + 7 ∧
      s.step (.push [.string .bits8 []]) = .error (.recordTooLarge (2 ^ 32 + 7)) := by
  have hschema : longTextColumn.Reachable :=
    @Schema.Reachable.ofLayout [("s", .string .bits32)] _ rfl
  have hbuild : Table.withConfig longTextColumn ⟨64, 2 ^ 32, false⟩ =
      .ok (Table.build longTextColumn ⟨64, 2 ^ 32, false⟩) :=
    withConfig_eq_ok.mpr ⟨rfl, rfl⟩
  exact ⟨⟨_, []⟩, .withConfig hschema hbuild, hbuild, by decide, by decide, by rfl⟩

end Session

end RecordStore
