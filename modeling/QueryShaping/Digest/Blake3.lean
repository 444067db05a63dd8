/-!
# The BLAKE3 digest

The input is cut into chunks of 1024 bytes and these into blocks of 64. Blocks are compressed one after the other within
a chunk, and chunks are joined in a binary tree whose left side is full.
-/

namespace QueryShaping.Digest

/-- The sixteen words of a block, or of the state while it is compressed. -/
abbrev Words := Vector UInt32 16

/-- The eight words that stand for a part of the input. -/
abbrev Chaining := Vector UInt32 8

def initial : Chaining :=
  #v[0x6A09E667, 0xBB67AE85, 0x3C6EF372, 0xA54FF53A, 0x510E527F, 0x9B05688C, 0x1F83D9AB, 0x5BE0CD19]

/-- The order in which a round takes the words of the round before. -/
def permutation : Vector (Fin 16) 16 :=
  #v[2, 6, 3, 10, 7, 0, 4, 13, 1, 11, 12, 5, 9, 14, 15, 8]

def chunkStart : UInt32 := 1
def chunkEnd : UInt32 := 2
def parentNode : UInt32 := 4
def rootNode : UInt32 := 8

def chunkSize : Nat := 1024
def blockSize : Nat := 64

def rotateRight (w : UInt32) (n : UInt32) : UInt32 :=
  (w >>> n) ||| (w <<< (32 - n))

/-- Mixes two words of the block into four words of the state. -/
def mix (v : Words) (a b c d : Fin 16) (x y : UInt32) : Words :=
  let v := v.set a (v[a] + v[b] + x)
  let v := v.set d (rotateRight (v[d] ^^^ v[a]) 16)
  let v := v.set c (v[c] + v[d])
  let v := v.set b (rotateRight (v[b] ^^^ v[c]) 12)
  let v := v.set a (v[a] + v[b] + y)
  let v := v.set d (rotateRight (v[d] ^^^ v[a]) 8)
  let v := v.set c (v[c] + v[d])
  v.set b (rotateRight (v[b] ^^^ v[c]) 7)

/-- Mixes the columns of the state, then its diagonals. -/
def round (v m : Words) : Words :=
  let v := mix v 0 4 8 12 m[0] m[1]
  let v := mix v 1 5 9 13 m[2] m[3]
  let v := mix v 2 6 10 14 m[4] m[5]
  let v := mix v 3 7 11 15 m[6] m[7]
  let v := mix v 0 5 10 15 m[8] m[9]
  let v := mix v 1 6 11 12 m[10] m[11]
  let v := mix v 2 7 8 13 m[12] m[13]
  mix v 3 4 9 14 m[14] m[15]

/-- So many rounds, each with the words of the block permuted once more. -/
def rounds : Nat → Words → Words → Words
  | 0, v, _ => v
  | n + 1, v, m => rounds n (round v m) (permutation.map fun i => m[i])

/-- A block that is ready to be compressed. -/
structure Block where
  chaining : Chaining
  words : Words
  counter : Nat
  length : Nat
  flags : UInt32

namespace Block

/-- The chaining value of a block. -/
def compress (b : Block) : Chaining :=
  let low := UInt32.ofNat (b.counter % UInt32.size)
  let high := UInt32.ofNat (b.counter / UInt32.size)
  let v : Words := b.chaining ++ #v[initial[0], initial[1], initial[2], initial[3], low, high, UInt32.ofNat b.length,
    b.flags]
  let v := rounds 7 v b.words
  Vector.ofFn fun (i : Fin 8) => v[i.val] ^^^ v[i.val + 8]

/-- The chaining value of the block at the root of the tree. -/
def compressRoot (b : Block) : Chaining :=
  Block.compress { b with counter := 0, flags := b.flags ||| rootNode }

end Block

/-- The number whose lowest byte comes first. -/
def littleEndian (bytes : List UInt8) : Nat :=
  bytes.foldr (fun b n => b.toNat + 256 * n) 0

/-- The words of at most 64 bytes; what is missing is zero. -/
def blockWords (bytes : List UInt8) : Words :=
  Vector.ofFn fun (i : Fin 16) => UInt32.ofNat (littleEndian ((bytes.drop (4 * i.val)).take 4))

/-- The last block of a chunk, once the blocks before it have been compressed. -/
def chunkBlock (counter : Nat) (chaining : Chaining) (flags : UInt32) (bytes : List UInt8) : Block :=
  if blockSize < bytes.length then
    let b : Block := ⟨chaining, blockWords (bytes.take blockSize), counter, blockSize, flags⟩
    chunkBlock counter b.compress 0 (bytes.drop blockSize)
  else ⟨chaining, blockWords bytes, counter, bytes.length, flags ||| chunkEnd⟩
termination_by bytes.length
decreasing_by simp [blockSize] at *; omega

/-- The block that joins two parts of the tree. -/
def parentBlock (left right : Chaining) : Block :=
  ⟨initial, left ++ right, 0, blockSize, parentNode⟩

/-- The bytes on the left side: as many full chunks as the largest power of two that leaves some for the right side. -/
def leftLength (length : Nat) : Nat :=
  chunkSize * Nat.pow 2 (Nat.log2 ((length - 1) / chunkSize))

theorem leftLength_pos (length : Nat) : 0 < leftLength length :=
  Nat.mul_pos (by decide) (Nat.pow_pos (by decide))

theorem leftLength_lt {length : Nat} (h : chunkSize < length) : leftLength length < length := by
  have hq : (length - 1) / chunkSize ≠ 0 := by
    have : 1 ≤ (length - 1) / chunkSize := (Nat.le_div_iff_mul_le (by decide)).2 (by omega)
    omega
  have hp := Nat.log2_self_le hq
  have hm := Nat.mul_le_mul_left chunkSize hp
  have hd := Nat.mul_div_le (length - 1) chunkSize
  rw [leftLength, Nat.pow_eq]
  omega

/-- The topmost block of the tree over some bytes, the first of which begin the chunk of this number. -/
def treeBlock (counter : Nat) (bytes : List UInt8) : Block :=
  if _ : chunkSize < bytes.length then
    let left := leftLength bytes.length
    parentBlock (treeBlock counter (bytes.take left)).compress
      (treeBlock (counter + left / chunkSize) (bytes.drop left)).compress
  else chunkBlock counter initial chunkStart bytes
termination_by bytes.length
decreasing_by
  · have := leftLength_lt ‹_›
    simp
    omega
  · have := leftLength_pos bytes.length
    have := leftLength_lt ‹_›
    simp
    omega

/-- The bytes of a word, lowest first. -/
def wordBytes (w : UInt32) : List UInt8 :=
  [w.toUInt8, (w >>> 8).toUInt8, (w >>> 16).toUInt8, (w >>> 24).toUInt8]

/-- The digest of some bytes, 32 bytes long. -/
def blake3 (bytes : List UInt8) : List UInt8 :=
  (treeBlock 0 bytes).compressRoot.toList.flatMap wordBytes

end QueryShaping.Digest
