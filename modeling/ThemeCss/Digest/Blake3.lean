/-! # Digests

BLAKE3 without a key. The text is cut into chunks of 1024 bytes and a chunk into blocks of 64. The
blocks of a chunk are compressed one after the other; the chunks are the leaves of a binary tree
whose left parts are full, and a parent compresses what its two parts give. The last compression
is marked as the root, and its first eight words are the digest.
-/

namespace ThemeCss.Blake3

/-- The eight words that chunks and parents start from. -/
def start : Vector UInt32 8 := #v[
  0x6a09e667, 0xbb67ae85, 0x3c6ef372, 0xa54ff53a, 0x510e527f, 0x9b05688c, 0x1f83d9ab, 0x5be0cd19]

/-- Where each word of a block stands in the next round. -/
def permutation : Vector (Fin 16) 16 := #v[2, 6, 3, 10, 7, 0, 4, 13, 1, 11, 12, 5, 9, 14, 15, 8]

def chunkStart : UInt32 := 1

def chunkEnd : UInt32 := 2

def parent : UInt32 := 4

def root : UInt32 := 8

def rotateRight (word count : UInt32) : UInt32 := (word >>> count) ||| (word <<< (32 - count))

/-- Mixes two words of a block into four words of the state. -/
def mix (state : Vector UInt32 16) (a b c d : Fin 16) (x y : UInt32) : Vector UInt32 16 :=
  let state := state.set a (state[a] + state[b] + x)
  let state := state.set d (rotateRight (state[d] ^^^ state[a]) 16)
  let state := state.set c (state[c] + state[d])
  let state := state.set b (rotateRight (state[b] ^^^ state[c]) 12)
  let state := state.set a (state[a] + state[b] + y)
  let state := state.set d (rotateRight (state[d] ^^^ state[a]) 8)
  let state := state.set c (state[c] + state[d])
  state.set b (rotateRight (state[b] ^^^ state[c]) 7)

/-- Mixes a block into the columns and then into the diagonals of the state. -/
def round (state block : Vector UInt32 16) : Vector UInt32 16 :=
  let state := mix state 0 4 8 12 block[0] block[1]
  let state := mix state 1 5 9 13 block[2] block[3]
  let state := mix state 2 6 10 14 block[4] block[5]
  let state := mix state 3 7 11 15 block[6] block[7]
  let state := mix state 0 5 10 15 block[8] block[9]
  let state := mix state 1 6 11 12 block[10] block[11]
  let state := mix state 2 7 8 13 block[12] block[13]
  mix state 3 4 9 14 block[14] block[15]

/-- Rounds with a block whose words are permuted between them. -/
def rounds : Nat → Vector UInt32 16 → Vector UInt32 16 → Vector UInt32 16
  | 0, state, _ => state
  | count + 1, state, block =>
    rounds count (round state block) (permutation.map fun place => block[place])

/-- A compression that is still to be done. -/
structure Node where
  chaining : Vector UInt32 8
  block : Vector UInt32 16
  counter : Nat
  length : Nat
  flags : UInt32

/-- Seven rounds, and the two halves of the state put together. -/
def Node.compress (node : Node) : Vector UInt32 8 :=
  let low := UInt32.ofNat node.counter
  let high := UInt32.ofNat (node.counter / 0x100000000)
  let initial : Vector UInt32 16 := #v[
    node.chaining[0], node.chaining[1], node.chaining[2], node.chaining[3],
    node.chaining[4], node.chaining[5], node.chaining[6], node.chaining[7],
    start[0], start[1], start[2], start[3],
    low, high, UInt32.ofNat node.length, node.flags]
  let final := rounds 7 initial node.block
  Vector.ofFn fun place : Fin 8 => final[place.val] ^^^ final[place.val + 8]

/-- The word that four bytes make, the least significant byte first. Missing bytes are zero. -/
def word (bytes : List UInt8) : UInt32 :=
  (bytes.take 4).foldr (fun byte value => value <<< 8 ||| byte.toUInt32) 0

/-- Sixteen words from a block of at most 64 bytes. -/
def blockWords (bytes : List UInt8) : Vector UInt32 16 :=
  Vector.ofFn fun place : Fin 16 => word (bytes.drop (4 * place.val))

/-- Compresses all blocks of a chunk but the last one. -/
def chunkNode (counter : Nat) (chaining : Vector UInt32 8) (flags : UInt32)
    (bytes : List UInt8) : Node :=
  let node : Node := ⟨chaining, blockWords (bytes.take 64), counter, min 64 bytes.length, flags⟩
  if bytes.length ≤ 64 then { node with flags := flags ||| chunkEnd }
  else chunkNode counter node.compress 0 (bytes.drop 64)
termination_by bytes.length
decreasing_by
  rw [List.length_drop]
  omega

/-- The bytes of the left part of a tree: the greatest power of two of chunks that leaves
something for the right part. -/
def leftLength (length : Nat) : Nat := 1024 * Nat.pow 2 ((length - 1) / 1024).log2

theorem leftLength_pos (length : Nat) : 0 < leftLength length :=
  Nat.mul_pos (by decide) (Nat.two_pow_pos _)

theorem leftLength_lt {length : Nat} (several : 1024 < length) : leftLength length < length := by
  have nonzero : (length - 1) / 1024 ≠ 0 := by omega
  have power := Nat.log2_self_le nonzero
  rw [← Nat.pow_eq] at power
  have whole : 1024 * ((length - 1) / 1024) ≤ length - 1 := Nat.mul_div_le ..
  have := Nat.mul_le_mul_left 1024 power
  simp only [leftLength]
  omega

/-- The tree over bytes that begin with the chunk of the given number. -/
def tree (counter : Nat) (bytes : List UInt8) : Node :=
  if bytes.length ≤ 1024 then chunkNode counter start chunkStart bytes
  else
    let left := leftLength bytes.length
    let first := (tree counter (bytes.take left)).compress
    let second := (tree (counter + left / 1024) (bytes.drop left)).compress
    ⟨start, first ++ second, 0, 64, parent⟩
termination_by bytes.length
decreasing_by
  · next several =>
    have := leftLength_lt (Nat.lt_of_not_le several)
    rw [List.length_take]
    omega
  · next several =>
    have := leftLength_lt (Nat.lt_of_not_le several)
    have := leftLength_pos bytes.length
    rw [List.length_drop]
    omega

/-- The digest in eight words. -/
def digest (bytes : List UInt8) : Vector UInt32 8 :=
  let node := tree 0 bytes
  { node with flags := node.flags ||| root }.compress

/-- The bytes of a word, the least significant first. -/
def wordBytes (word : UInt32) : List UInt8 :=
  [word.toUInt8, (word >>> 8).toUInt8, (word >>> 16).toUInt8, (word >>> 24).toUInt8]

/-- The digest as 64 hexadecimal digits. -/
def hexDigest (bytes : List UInt8) : List Char :=
  ((digest bytes).toList.flatMap wordBytes).flatMap fun byte =>
    [Nat.digitChar (byte.toNat / 16), Nat.digitChar (byte.toNat % 16)]

end ThemeCss.Blake3
