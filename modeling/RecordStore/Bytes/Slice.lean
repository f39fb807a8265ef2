import RecordStore.Bytes.Basic

/-!
Stretches of a byte string: the bytes from one place to another, and what is there after others
have been written over a part of the string. A copy may overlap what it is made from.
-/

namespace RecordStore.Bytes

/-- The bytes from `start` to `stop`. -/
def slice (bytes : Bytes) (start stop : Nat) : Bytes := (bytes.drop start).take (stop - start)

/-- The bytes from `start` to `stop` are written again from `dest` on. -/
def copyWithin (bytes : Bytes) (start stop dest : Nat) : Bytes :=
  bytes.overwrite dest (bytes.slice start stop)

variable {bytes patch : Bytes} {start stop offset : Nat}

/-! ### Slices -/

@[simp] theorem length_slice (bytes : Bytes) (start stop : Nat) :
    (bytes.slice start stop).length = min (stop - start) (bytes.length - start) := by
  rw [slice, List.length_take, List.length_drop]

theorem length_slice_of_le (h : stop ≤ bytes.length) :
    (bytes.slice start stop).length = stop - start := by
  rw [length_slice]
  omega

@[simp] theorem slice_self (bytes : Bytes) (start : Nat) : bytes.slice start start = [] := by
  rw [slice, Nat.sub_self, List.take_zero]

/-- Two slices that meet are one. -/
theorem slice_append_slice (bytes : Bytes) {middle : Nat} (hstart : start ≤ middle)
    (hstop : middle ≤ stop) :
    bytes.slice start middle ++ bytes.slice middle stop = bytes.slice start stop := by
  have hdrop : bytes.drop middle = (bytes.drop start).drop (middle - start) := by
    rw [List.drop_drop]
    congr 1
    omega
  have hlength : stop - start = middle - start + (stop - middle) := by omega
  rw [slice, slice, slice, hlength, hdrop, List.take_add]

theorem take_slice (bytes : Bytes) {n : Nat} (h : start + n ≤ stop) :
    (bytes.slice start stop).take n = bytes.slice start (start + n) := by
  rw [slice, slice, List.take_take]
  congr 1
  omega

theorem drop_slice (bytes : Bytes) (start stop n : Nat) :
    (bytes.slice start stop).drop n = bytes.slice (start + n) stop := by
  rw [slice, slice, List.drop_take, List.drop_drop]
  congr 1
  omega

theorem slice_append_drop (bytes : Bytes) (h : start ≤ stop) :
    bytes.slice start stop ++ bytes.drop stop = bytes.drop start := by
  have hdrop : bytes.drop stop = (bytes.drop start).drop (stop - start) := by
    rw [List.drop_drop, Nat.add_sub_cancel' h]
  rw [slice, hdrop, List.take_append_drop]

/-- A string is cut at any slice of it. -/
theorem take_append_slice_append_drop (bytes : Bytes) (h : start ≤ stop) :
    bytes.take start ++ (bytes.slice start stop ++ bytes.drop stop) = bytes := by
  rw [slice_append_drop bytes h, List.take_append_drop]

theorem slice_append {front middle : Bytes} (rest : Bytes) (hstart : front.length = start)
    (hstop : start + middle.length = stop) :
    (front ++ (middle ++ rest)).slice start stop = middle := by
  rw [slice, List.drop_left' hstart, ← hstop, Nat.add_sub_cancel_left, List.take_left]

theorem slice_zeros (h : stop ≤ n) : (zeros n).slice start stop = zeros (stop - start) := by
  rw [slice, zeros, List.drop_replicate, List.take_replicate, zeros]
  congr 1
  omega

/-! ### Slices of what has been written over -/

/-- Writing makes no string shorter. -/
theorem length_le_overwrite (bytes : Bytes) (offset : Nat) (patch : Bytes) :
    bytes.length ≤ (bytes.overwrite offset patch).length := by
  simp only [overwrite, List.length_append, List.length_take, List.length_drop]
  omega

theorem slice_overwrite_self (h : offset ≤ bytes.length) :
    (bytes.overwrite offset patch).slice offset (offset + patch.length) = patch := by
  have htake : (bytes.take offset).length = offset := by
    rw [List.length_take, Nat.min_eq_left h]
  rw [slice, overwrite, List.append_assoc, List.drop_left' htake, Nat.add_sub_cancel_left,
    List.take_left]

/-- In front of the patch all is as before. -/
theorem slice_overwrite_of_le (hoffset : offset ≤ bytes.length) (h : stop ≤ offset) :
    (bytes.overwrite offset patch).slice start stop = bytes.slice start stop := by
  have htake : (bytes.take offset).length = offset := by
    rw [List.length_take, Nat.min_eq_left hoffset]
  by_cases hstart : start ≤ offset
  · rw [slice, overwrite, List.append_assoc, List.drop_append_of_le_length (by omega),
      List.take_append_of_le_length (by rw [List.length_drop]; omega), List.drop_take,
      List.take_take, Nat.min_eq_left (by omega), slice]
  · have hnone : stop - start = 0 := by omega
    rw [slice, slice, hnone, List.take_zero, List.take_zero]

/-- Behind the patch all is as before. -/
theorem slice_overwrite_of_ge (hoffset : offset ≤ bytes.length)
    (h : offset + patch.length ≤ start) :
    (bytes.overwrite offset patch).slice start stop = bytes.slice start stop := by
  have hlength : (bytes.take offset ++ patch).length = offset + patch.length := by
    rw [List.length_append, List.length_take, Nat.min_eq_left hoffset]
  have hstart : start = offset + patch.length + (start - (offset + patch.length)) := by omega
  rw [slice, slice, overwrite, hstart, ← List.drop_drop, List.drop_left' hlength, List.drop_drop]

/-- The copy is what it was made from. -/
theorem slice_copyWithin {dest last : Nat} (hstop : stop ≤ bytes.length)
    (hdest : dest ≤ bytes.length) (h : dest + (stop - start) = last) :
    (bytes.copyWithin start stop dest).slice dest last = bytes.slice start stop := by
  change (bytes.overwrite dest (bytes.slice start stop)).slice dest last = _
  rw [← h, ← length_slice_of_le hstop, slice_overwrite_self hdest]

/-- Bytes give way to as many others. -/
theorem overwrite_append (front old rest : Bytes) (h : old.length = patch.length) :
    (front ++ (old ++ rest)).overwrite front.length patch = front ++ (patch ++ rest) := by
  rw [overwrite, List.take_left, ← h, ← List.drop_drop, List.drop_left, List.drop_left,
    List.append_assoc]

/-- Around the patch all is as before. -/
theorem slice_overwrite (hoffset : offset ≤ bytes.length) (hstart : start ≤ offset)
    (hstop : offset + patch.length ≤ stop) :
    (bytes.overwrite offset patch).slice start stop =
      bytes.slice start offset ++ patch ++ bytes.slice (offset + patch.length) stop := by
  rw [← slice_append_slice _ (Nat.le_trans hstart (Nat.le_add_right _ _)) hstop,
    ← slice_append_slice _ hstart (Nat.le_add_right _ patch.length),
    slice_overwrite_of_le hoffset Nat.le.refl, slice_overwrite_self hoffset,
    slice_overwrite_of_ge hoffset Nat.le.refl]

end RecordStore.Bytes
