import Entitle.Text.Utf8

/-!
The BLAKE3 digest of bytes, 32 bytes long and without a key.

The bytes are cut into chunks of 1024, a chunk into blocks of 64. A chunk's blocks are compressed one
after the other; the chunks are the leaves of a binary tree whose left subtrees are full.
-/

namespace Entitle.Text.Blake3

/-- Sixteen words: a block or the state of a compression. -/
abbrev Block := Vector UInt32 16

/-- Eight words that chain compressions. -/
abbrev Chain := Vector UInt32 8

/-- The words that every chunk begins with. -/
def initial : Chain :=
  #v[0x6A09E667, 0xBB67AE85, 0x3C6EF372, 0xA54FF53A, 0x510E527F, 0x9B05688C, 0x1F83D9AB, 0x5BE0CD19]

/-- Where each round takes the words of the next one from. -/
def permutation : Vector (Fin 16) 16 :=
  #v[2, 6, 3, 10, 7, 0, 4, 13, 1, 11, 12, 5, 9, 14, 15, 8]

/-- Rotates right. -/
def rotate (x : UInt32) (n : UInt32) : UInt32 :=
  (x >>> n) ||| (x <<< (32 - n))

/-- Mixes two words into four of the state. -/
def mix (s : Block) (a b c d : Fin 16) (x y : UInt32) : Block :=
  let a₁ := s[a] + s[b] + x
  let d₁ := rotate (s[d] ^^^ a₁) 16
  let c₁ := s[c] + d₁
  let b₁ := rotate (s[b] ^^^ c₁) 12
  let a₂ := a₁ + b₁ + y
  let d₂ := rotate (d₁ ^^^ a₂) 8
  let c₂ := c₁ + d₂
  let b₂ := rotate (b₁ ^^^ c₂) 7
  (((s.set a a₂).set b b₂).set c c₂).set d d₂

/-- One round: the columns, then the diagonals. -/
def round (s m : Block) : Block :=
  let s := mix s 0 4 8 12 m[0] m[1]
  let s := mix s 1 5 9 13 m[2] m[3]
  let s := mix s 2 6 10 14 m[4] m[5]
  let s := mix s 3 7 11 15 m[6] m[7]
  let s := mix s 0 5 10 15 m[8] m[9]
  let s := mix s 1 6 11 12 m[10] m[11]
  let s := mix s 2 7 8 13 m[12] m[13]
  mix s 3 4 9 14 m[14] m[15]

/-- The rounds that are left, the words permuted between them. -/
def rounds : Nat → Block → Block → Block
  | 0, s, _ => s
  | n + 1, s, m => rounds n (round s m) (permutation.map fun i => m[i])

/-- A compression that is still to be made, so that it can be marked as the root. -/
structure Node where
  chain : Chain
  block : Block
  counter : Nat
  length : Nat
  flags : UInt32

/-- The first block of a chunk. -/
def chunkStart : UInt32 := 1
/-- The last block of a chunk. -/
def chunkEnd : UInt32 := 2
/-- An inner node of the tree. -/
def parent : UInt32 := 4
/-- The root of the tree. -/
def root : UInt32 := 8

/-- Compresses a node. -/
def Node.compress (n : Node) : Chain :=
  let s : Block := #v[
    n.chain[0], n.chain[1], n.chain[2], n.chain[3], n.chain[4], n.chain[5], n.chain[6], n.chain[7],
    initial[0], initial[1], initial[2], initial[3],
    n.counter.toUInt32, (n.counter / 4294967296).toUInt32, n.length.toUInt32, n.flags]
  let s := rounds 7 s n.block
  Vector.ofFn fun i : Fin 8 => s[i.val] ^^^ s[i.val + 8]

/-- The little-endian word at a position; bytes that are missing are zero. -/
def wordAt (bytes : Array UInt8) (position : Nat) : UInt32 :=
  let byte (i : Nat) : UInt32 := (bytes.getD (position + i) 0).toUInt32
  byte 0 ||| (byte 1 <<< 8) ||| (byte 2 <<< 16) ||| (byte 3 <<< 24)

/-- The words of up to 64 bytes. -/
def blockOf (bytes : Bytes) : Block :=
  let data := bytes.toArray
  Vector.ofFn fun i => wordAt data (4 * i.val)

/-- The last node of a chunk whose blocks so far have led to `chain`. -/
def chunk (chain : Chain) (start : UInt32) (counter : Nat) (bytes : Bytes) : Node :=
  if bytes.length ≤ 64 then ⟨chain, blockOf bytes, counter, bytes.length, start ||| chunkEnd⟩
  else
    let node : Node := ⟨chain, blockOf (bytes.take 64), counter, 64, start⟩
    chunk node.compress 0 counter (bytes.drop 64)
  termination_by bytes.length
  decreasing_by simp; omega

/-- The bytes of the left subtree: the most whole chunks that are a power of two and leave some over. -/
def leftLength (length : Nat) : Nat :=
  1024 * Nat.pow 2 (Nat.log2 ((length - 1) / 1024))

theorem leftLength_pos (length : Nat) : 0 < leftLength length := by
  rw [leftLength, Nat.pow_eq]
  have := Nat.pow_pos (n := Nat.log2 ((length - 1) / 1024)) (show 0 < 2 by decide)
  omega

theorem leftLength_lt {length : Nat} (h : 1024 < length) : leftLength length < length := by
  rw [leftLength, Nat.pow_eq]
  have hne : (length - 1) / 1024 ≠ 0 := by omega
  have := Nat.log2_self_le hne
  omega

theorem length_left_lt {bytes : Bytes} (h : ¬bytes.length ≤ 1024) :
    (bytes.take (leftLength bytes.length)).length < bytes.length := by
  have := leftLength_lt (Nat.lt_of_not_le h)
  rw [List.length_take]
  omega

theorem length_right_lt {bytes : Bytes} (h : ¬bytes.length ≤ 1024) :
    (bytes.drop (leftLength bytes.length)).length < bytes.length := by
  have := leftLength_pos bytes.length
  rw [List.length_drop]
  omega

/-- The top node over bytes whose first chunk has number `counter`. -/
def tree (counter : Nat) (bytes : Bytes) : Node :=
  if _h : bytes.length ≤ 1024 then chunk initial chunkStart counter bytes
  else
    let n := leftLength bytes.length
    let left := (tree counter (bytes.take n)).compress
    let right := (tree (counter + n / 1024) (bytes.drop n)).compress
    ⟨initial, left ++ right, 0, 64, parent⟩
  termination_by bytes.length
  decreasing_by
    · exact length_left_lt _h
    · exact length_right_lt _h

/-- The bytes of a word, the lowest first. -/
def wordBytes (w : UInt32) : Bytes :=
  [w.toUInt8, (w >>> 8).toUInt8, (w >>> 16).toUInt8, (w >>> 24).toUInt8]

/-- The digest. -/
def digest (bytes : Bytes) : Bytes :=
  let top := tree 0 bytes
  (Node.compress { top with flags := top.flags ||| root }).toList.flatMap wordBytes

/-- The digest in hexadecimal. -/
def hexDigest (bytes : Bytes) : String :=
  hex (digest bytes)

end Entitle.Text.Blake3
