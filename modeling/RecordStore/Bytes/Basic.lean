/-!
Byte strings, and the two small edits that storage makes on them: padding with zeros and
overwriting a stretch in place.
-/

namespace RecordStore

/-! ### Powers and sums

A library of algebra brings instances of its own for both, equal to the ones used here but not the
same terms. Within this namespace the plain instances come first, so that a definition means the
same term whatever else is in scope. -/

attribute [scoped instance (2000)] instPowNat Zero.ofOfNat0

/-! ### Byte strings -/

/-- A byte string. -/
abbrev Bytes := List UInt8

namespace Bytes

/-- `n` zero bytes. -/
def zeros (n : Nat) : Bytes := List.replicate n 0

/-- Cut to `n` bytes, or filled up to `n` bytes with zeros. -/
def resize (bytes : Bytes) (n : Nat) : Bytes := bytes.take n ++ zeros (n - bytes.length)

/-- The bytes from `offset` on give way to `patch`, as far as it reaches. -/
def overwrite (bytes : Bytes) (offset : Nat) (patch : Bytes) : Bytes :=
  bytes.take offset ++ patch ++ bytes.drop (offset + patch.length)

/-- There are `n` bytes or more. Counts no further than `n`. -/
def atLeast : Nat → Bytes → Bool
  | 0, _ => true
  | _ + 1, [] => false
  | n + 1, _ :: bytes => atLeast n bytes

/-! ### Lengths -/

@[simp] theorem atLeast_eq_true {n : Nat} {bytes : Bytes} :
    atLeast n bytes = true ↔ n ≤ bytes.length := by
  fun_induction atLeast n bytes with
  | case1 => simp
  | case2 => simp
  | case3 n b bytes ih => simp [ih]

@[simp] theorem length_zeros (n : Nat) : (zeros n).length = n := by simp [zeros]

@[simp] theorem length_resize (bytes : Bytes) (n : Nat) : (bytes.resize n).length = n := by
  simp only [resize, List.length_append, List.length_take, length_zeros]
  omega

theorem length_overwrite {bytes patch : Bytes} {offset : Nat}
    (h : offset + patch.length ≤ bytes.length) :
    (bytes.overwrite offset patch).length = bytes.length := by
  simp only [overwrite, List.length_append, List.length_take, List.length_drop]
  omega

@[simp] theorem resize_length (bytes : Bytes) : bytes.resize bytes.length = bytes := by
  simp [resize, zeros]

end Bytes

end RecordStore
