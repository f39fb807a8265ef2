import Mathlib
import RecordStore.Proofs.Session.Canonical
import RecordStore.Proofs.Table.Iteration

/-!
# Walking over a table in use

Jumping, stepping, finding a record by its number and asking for one row after the other agree in
every session, wherever the requests before have put the records.
-/

namespace RecordStore.Session

/-! ### Records in two chunks -/

def fourText : Bytes := List.replicate 12 97

def fourRecord : Bytes := [21, 0, 0, 0, 12] ++ fourText ++ [0, 0, 0, 0]

/-- Four texts in chunks of the least size, three of them in the first. -/
def fourTexts : Session :=
  ⟨⟨textColumn, [⟨64, 0, fourRecord ++ fourRecord ++ fourRecord, 3⟩, ⟨64, 0, fourRecord, 1⟩], 4,
    ⟨64, 0, false⟩, 4, false⟩,
    [⟨3, 1, 0, 0, 4⟩, ⟨2, 0, 2, 42, 3⟩, ⟨1, 0, 1, 21, 2⟩, ⟨0, 0, 0, 0, 1⟩]⟩

lemma built_fourTexts : fourTexts.Built := by
  have hproper : ∀ v ∈ [Value.string .bits8 fourText], v.Proper := by decide
  have hempty : Built ⟨⟨textColumn, [], 0, ⟨64, 0, false⟩, 0, true⟩, []⟩ := built_noTexts rfl
  have hone := @Built.step _ _ (.push [.string .bits8 fourText]) hempty hproper rfl
  have htwo := @Built.step _ _ (.push [.string .bits8 fourText]) hone hproper rfl
  have hthree := @Built.step _ _ (.push [.string .bits8 fourText]) htwo hproper rfl
  exact @Built.step _ _ (.push [.string .bits8 fourText]) hthree hproper rfl

/-! ### Agreement -/

variable {s : Session}

/-- From every record on, and from the end, a jump takes as many steps as there are records, and
leads to the cursor to which so many steps, the number of the record and the row with this number
lead. Asking for the rows gives each of them once, in order, with the number of those to come, and
nothing from then on. -/
theorem Reachable.walks_agree (hs : s.Reachable) :
    (∀ i ≤ s.table.numRecords, ∀ k, ∃ start last, s.table.Arrives i k start last) ∧
      ∀ n, ∃ cursors rest, s.table.Enumerates n cursors rest := by
  obtain ⟨types, blocks, h⟩ := hs.sound
  exact ⟨fun i hi k => h.holds.arrives hi k, h.holds.enumerates⟩

/-- A jump that ends where the first chunk ends, and more calls for a row than there are rows. -/
theorem walks_agree_in_two_chunks :
    (∃ start, fourTexts.table.Arrives 0 3 start ⟨3, 1, 0, 0, 4⟩) ∧
      ∃ cursors rest, fourTexts.table.Enumerates 6 cursors rest ∧ rest.remaining = 0 := by
  obtain ⟨harrives, henumerates⟩ := built_fourTexts.reachable.walks_agree
  obtain ⟨start, last, hlast⟩ := harrives 0 (Nat.zero_le _) 3
  obtain ⟨cursors, rest, hrest⟩ := henumerates 6
  have hend : last = ⟨3, 1, 0, 0, 4⟩ := by
    obtain ⟨items, others, hcalls, hitem⟩ := hlast.row_eq (by decide) 4 (by decide)
    cases hcalls
    exact (Option.some.inj (Option.some.inj hitem)).symm
  exact ⟨⟨start, hend ▸ hlast⟩, cursors, rest, hrest, hrest.remaining_eq⟩

end RecordStore.Session
