import RecordStore.Bytes.LittleEndian

/-!
BLAKE3 in its plain hashing mode with a digest of 32 bytes. The input is cut into chunks of 1024
bytes, each chunk into blocks of 64; the chunks are the leaves of a binary tree whose left
subtrees hold the largest power of two of chunks that leaves something to the right.
-/

namespace RecordStore.Blake3

/-! ### Compression -/

/-- Four words of the sixteen-word state. -/
structure Row where
  a : UInt32
  b : UInt32
  c : UInt32
  d : UInt32

namespace Row

@[inline] def zip (f : UInt32 → UInt32 → UInt32) (x y : Row) : Row :=
  ⟨f x.a y.a, f x.b y.b, f x.c y.c, f x.d y.d⟩

@[inline] def map (f : UInt32 → UInt32) (x : Row) : Row := ⟨f x.a, f x.b, f x.c, f x.d⟩

/-- The words moved one place to the left, around the end. -/
@[inline] def left (x : Row) : Row := ⟨x.b, x.c, x.d, x.a⟩

def toBytes (x : Row) : Bytes :=
  [x.a, x.b, x.c, x.d].flatMap fun w => LittleEndian.encode 4 w.toNat

end Row

@[inline] def rotateRight (n : UInt32) (x : UInt32) : UInt32 := (x >>> n) ||| (x <<< (32 - n))

/-- The state as a matrix of four rows. -/
structure State where
  top : Row
  upper : Row
  lower : Row
  bottom : Row

namespace State

/-- One half of the mixing of all four columns: add a message word and the row below, then spread
the change down the matrix by the two rotations. -/
@[inline] def mixHalf (s : State) (message : Row) (bottomTurn upperTurn : UInt32) : State :=
  let top := (s.top.zip (· + ·) s.upper).zip (· + ·) message
  let bottom := (s.bottom.zip (· ^^^ ·) top).map (rotateRight bottomTurn)
  let lower := s.lower.zip (· + ·) bottom
  let upper := (s.upper.zip (· ^^^ ·) lower).map (rotateRight upperTurn)
  ⟨top, upper, lower, bottom⟩

@[inline] def mix (s : State) (x y : Row) : State := (s.mixHalf x 16 12).mixHalf y 8 7

/-- Turn the rows so that the diagonals become columns. -/
@[inline] def diagonals (s : State) : State :=
  ⟨s.top, s.upper.left, s.lower.left.left, s.bottom.left.left.left⟩

/-- Turn the rows back. -/
@[inline] def columns (s : State) : State :=
  ⟨s.top, s.upper.left.left.left, s.lower.left.left, s.bottom.left⟩

end State

/-- The sixteen words of a block, in four rows. -/
structure Block where
  first : Row
  second : Row
  third : Row
  fourth : Row

namespace Block

/-- Columns are mixed with the first eight words, diagonals with the last eight; of each eight,
the words at even places come first. -/
@[inline] def round (m : Block) (s : State) : State :=
  let s := s.mix ⟨m.first.a, m.first.c, m.second.a, m.second.c⟩
    ⟨m.first.b, m.first.d, m.second.b, m.second.d⟩
  (s.diagonals.mix ⟨m.third.a, m.third.c, m.fourth.a, m.fourth.c⟩
    ⟨m.third.b, m.third.d, m.fourth.b, m.fourth.d⟩).columns

/-- The order of the words in the next round. -/
def permute (m : Block) : Block where
  first := ⟨m.first.c, m.second.c, m.first.d, m.third.c⟩
  second := ⟨m.second.d, m.first.a, m.second.a, m.fourth.b⟩
  third := ⟨m.first.b, m.third.d, m.fourth.a, m.second.b⟩
  fourth := ⟨m.third.b, m.fourth.c, m.fourth.d, m.third.a⟩

/-- `n` rounds, the words permuted between them. -/
def rounds : Nat → Block → State → State
  | 0, _, s => s
  | n + 1, m, s => rounds n m.permute (m.round s)

end Block

/-- A chaining value: eight words. -/
structure Chain where
  high : Row
  low : Row

/-- The starting value. -/
def start : Chain where
  high := ⟨0x6A09E667, 0xBB67AE85, 0x3C6EF372, 0xA54FF53A⟩
  low := ⟨0x510E527F, 0x9B05688C, 0x1F83D9AB, 0x5BE0CD19⟩

def chunkStart : UInt32 := 1
def chunkEnd : UInt32 := 2
def parent : UInt32 := 4
def root : UInt32 := 8

/-- One block absorbed into a chaining value. -/
def compress (chain : Chain) (block : Block) (counter : Nat) (length : Nat) (flags : UInt32) :
    Chain :=
  let s := Block.rounds 7 block
    { top := chain.high
      upper := chain.low
      lower := start.high
      bottom := ⟨UInt32.ofNat counter, UInt32.ofNat (counter / UInt32.size), UInt32.ofNat length,
        flags⟩ }
  ⟨s.top.zip (· ^^^ ·) s.lower, s.upper.zip (· ^^^ ·) s.bottom⟩

/-! ### Chunks -/

/-- The word in the first four bytes, missing bytes being zero. -/
def word (bytes : Bytes) : UInt32 := UInt32.ofNat (LittleEndian.decode (bytes.take 4))

def row (bytes : Bytes) : Row :=
  ⟨word bytes, word (bytes.drop 4), word (bytes.drop 8), word (bytes.drop 12)⟩

/-- The block in the first 64 bytes, filled up with zeros. -/
def block (bytes : Bytes) : Block :=
  ⟨row bytes, row (bytes.drop 16), row (bytes.drop 32), row (bytes.drop 48)⟩

/-- Absorbs a chunk block by block; `flags` mark the block in hand, `final` the last one. -/
def absorb (counter : Nat) (final : UInt32) (flags : UInt32) (chain : Chain) (bytes : Bytes) :
    Chain :=
  if 64 < bytes.length then
    absorb counter final 0 (compress chain (block bytes) counter 64 flags) (bytes.drop 64)
  else compress chain (block bytes) counter bytes.length (flags ||| chunkEnd ||| final)
termination_by bytes.length
decreasing_by simp only [List.length_drop]; omega

/-! ### The tree -/

/-- How many bytes of more than one chunk go to the left subtree. -/
def leftLength (length : Nat) : Nat := 1024 * 2 ^ ((length - 1) / 1024).log2

theorem leftLength_pos (length : Nat) : 0 < leftLength length := by
  have := Nat.two_pow_pos ((length - 1) / 1024).log2
  unfold leftLength
  omega

theorem leftLength_lt {length : Nat} (h : 1024 < length) : leftLength length < length := by
  have := Nat.log2_self_le (n := (length - 1) / 1024) (by omega)
  unfold leftLength
  omega

/-- The chaining value of a subtree whose first chunk is number `counter`. -/
def subtree (counter : Nat) (final : UInt32) (bytes : Bytes) : Chain :=
  if _ : 1024 < bytes.length then
    let cut := leftLength bytes.length
    let left := subtree counter 0 (bytes.take cut)
    let right := subtree (counter + cut / 1024) 0 (bytes.drop cut)
    compress start ⟨left.high, left.low, right.high, right.low⟩ 0 64 (parent ||| final)
  else absorb counter final chunkStart start bytes
termination_by bytes.length
decreasing_by
  · have := leftLength_lt ‹1024 < bytes.length›
    simp only [List.length_take]
    omega
  · have := leftLength_pos bytes.length
    simp only [List.length_drop]
    omega

/-- The 32-byte digest. -/
def hash (bytes : Bytes) : Bytes :=
  let chain := subtree 0 root bytes
  chain.high.toBytes ++ chain.low.toBytes

end RecordStore.Blake3
