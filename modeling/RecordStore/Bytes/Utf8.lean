import RecordStore.Bytes.Basic

/-!
UTF-8 in byte strings. Reading is strict (`toText?`) or lenient (`lossy`): the lenient reading
puts one replacement character for each maximal stretch that starts a character and breaks off.
-/

namespace RecordStore.Utf8

/-- The bytes of a string. -/
def encode (s : String) : Bytes := s.toByteArray.data.toList

/-- The string that the bytes spell, if they are well-formed. -/
def toText? (bytes : Bytes) : Option String := String.fromUTF8? bytes.toByteArray

/-! ### Lenient reading -/

/-- What a lead byte announces: its own payload bits, the bounds of the next byte, and how many
bytes follow in all. The bounds rule out overlong forms, surrogates and codes past U+10FFFF. -/
structure Lead where
  payload : Nat
  low : UInt8
  high : UInt8
  following : Nat

def lead? (b : UInt8) : Option Lead :=
  if b < 0x80 then some ⟨b.toNat, 0, 0, 0⟩
  else if b < 0xC2 then none
  else if b < 0xE0 then some ⟨b.toNat - 0xC0, 0x80, 0xBF, 1⟩
  else if b = 0xE0 then some ⟨0, 0xA0, 0xBF, 2⟩
  else if b = 0xED then some ⟨0xD, 0x80, 0x9F, 2⟩
  else if b < 0xF0 then some ⟨b.toNat - 0xE0, 0x80, 0xBF, 2⟩
  else if b = 0xF0 then some ⟨0, 0x90, 0xBF, 3⟩
  else if b < 0xF4 then some ⟨b.toNat - 0xF0, 0x80, 0xBF, 3⟩
  else if b = 0xF4 then some ⟨4, 0x80, 0x8F, 3⟩
  else none

/-- Takes the following bytes of a character, the next one between `low` and `high`. Stops in
front of the first byte that does not fit. -/
def follow (payload : Nat) (low high : UInt8) : Nat → Bytes → Option Char × Bytes
  | 0, rest => (some (Char.ofNat payload), rest)
  | _ + 1, [] => (none, [])
  | n + 1, b :: rest =>
    if low ≤ b ∧ b ≤ high then follow (64 * payload + (b.toNat - 0x80)) 0x80 0xBF n rest
    else (none, b :: rest)

/-- The character at the front, or `none` for a malformed stretch, and the bytes behind it. -/
def next (b : UInt8) (rest : Bytes) : Option Char × Bytes :=
  match lead? b with
  | none => (none, rest)
  | some l => follow l.payload l.low l.high l.following rest

theorem length_follow_le (payload : Nat) (low high : UInt8) (n : Nat) (bytes : Bytes) :
    (follow payload low high n bytes).2.length ≤ bytes.length := by
  fun_induction follow payload low high n bytes with
  | case1 => simp
  | case2 => simp
  | case3 payload low high n b rest _ ih => simp only [List.length_cons]; omega
  | case4 => simp

theorem length_next_le (b : UInt8) (rest : Bytes) : (next b rest).2.length ≤ rest.length := by
  unfold next
  split
  · simp
  · exact length_follow_le ..

/-- Reads on after `text`. -/
def lossyFrom (text : String) : Bytes → String
  | [] => text
  | b :: rest => lossyFrom (text.push ((next b rest).1.getD '\ufffd')) (next b rest).2
termination_by bytes => bytes.length
decreasing_by exact Nat.lt_succ_of_le (length_next_le b rest)

/-- The text of a byte string, malformed stretches replaced. -/
def lossy (bytes : Bytes) : String := lossyFrom "" bytes

/-! ### Strict reading -/

theorem toText?_encode (s : String) : toText? (encode s) = some s := by
  have same : (encode s).toByteArray = s.toByteArray :=
    ByteArray.ext (by simp [encode])
  simp [toText?, same, String.fromUTF8?, s.isValidUTF8, String.fromUTF8]

theorem encode_inj {s t : String} : encode s = encode t ↔ s = t := by
  refine ⟨fun h => ?_, congrArg encode⟩
  have hread := congrArg toText? h
  rw [toText?_encode, toText?_encode] at hread
  exact Option.some.inj hread

theorem encode_of_toText? {bytes : Bytes} {s : String} (h : toText? bytes = some s) :
    encode s = bytes := by
  simp only [toText?, String.fromUTF8?] at h
  split at h
  · cases h; simp [encode, String.fromUTF8]
  · cases h

@[simp] theorem length_encode (s : String) : (encode s).length = s.utf8ByteSize := by
  simp [encode]

end RecordStore.Utf8
