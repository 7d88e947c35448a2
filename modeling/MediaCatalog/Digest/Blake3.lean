import MediaCatalog.Text.Hex

/-!
The BLAKE3 hash with its default output of 32 bytes. The chunks of the input are
the leaves of a binary tree; the left part of a split has as many chunks as the
greatest power of two that leaves something for the right.
-/

namespace MediaCatalog.Digest.Blake3

abbrev Words := Array UInt32

def initial : Words :=
  #[0x6A09E667, 0xBB67AE85, 0x3C6EF372, 0xA54FF53A,
    0x510E527F, 0x9B05688C, 0x1F83D9AB, 0x5BE0CD19]

/-- Where each word of the next round's message comes from. -/
def permutation : Array Nat :=
  #[2, 6, 3, 10, 7, 0, 4, 13, 1, 11, 12, 5, 9, 14, 15, 8]

def chunkStart : UInt32 := 1
def chunkEnd : UInt32 := 2
def parent : UInt32 := 4
def root : UInt32 := 8

def chunkBytes : Nat := 1024
def blockBytes : Nat := 64

def rotateRight (x n : UInt32) : UInt32 :=
  (x >>> n) ||| (x <<< (32 - n))

def mix (state : Words) (a b c d : Nat) (x y : UInt32) : Words :=
  let va := state.getD a 0 + state.getD b 0 + x
  let vd := rotateRight (state.getD d 0 ^^^ va) 16
  let vc := state.getD c 0 + vd
  let vb := rotateRight (state.getD b 0 ^^^ vc) 12
  let va := va + vb + y
  let vd := rotateRight (vd ^^^ va) 8
  let vc := vc + vd
  let vb := rotateRight (vb ^^^ vc) 7
  (((state.setIfInBounds a va).setIfInBounds b vb).setIfInBounds c vc).setIfInBounds d vd

/-- One round: the columns of the state, then its diagonals. -/
def round (state message : Words) : Words :=
  let word := fun i => message.getD i 0
  let state := mix state 0 4 8 12 (word 0) (word 1)
  let state := mix state 1 5 9 13 (word 2) (word 3)
  let state := mix state 2 6 10 14 (word 4) (word 5)
  let state := mix state 3 7 11 15 (word 6) (word 7)
  let state := mix state 0 5 10 15 (word 8) (word 9)
  let state := mix state 1 6 11 12 (word 10) (word 11)
  let state := mix state 2 7 8 13 (word 12) (word 13)
  mix state 3 4 9 14 (word 14) (word 15)

def permute (message : Words) : Words :=
  permutation.map fun i => message.getD i 0

def rounds : Nat → Words → Words → Words
  | 0, state, _ => state
  | n + 1, state, message => rounds n (round state message) (permute message)

/-- A compression that has its input but no final flags yet. -/
structure Node where
  chaining : Words
  block : Words
  counter : Nat
  length : Nat
  flags : UInt32

def Node.output (node : Node) (extraFlags : UInt32) : Words :=
  let state := node.chaining ++ initial.extract 0 4 ++
    #[.ofNat node.counter, .ofNat (node.counter >>> 32), .ofNat node.length,
      node.flags ||| extraFlags]
  let final := rounds 7 state node.block
  (Array.range 8).map fun i => final.getD i 0 ^^^ final.getD (i + 8) 0

/-- The four bytes from `i` on, least significant first, as far as `stop`. -/
def wordAt (input : ByteArray) (stop i : Nat) : UInt32 :=
  let byte := fun k : Nat => if i + k < stop then (input[i + k]?.getD 0).toUInt32 else 0
  byte 0 ||| byte 1 <<< 8 ||| byte 2 <<< 16 ||| byte 3 <<< 24

def blockAt (input : ByteArray) (stop i : Nat) : Words :=
  (Array.range 16).map fun k => wordAt input stop (i + 4 * k)

/-- The last compression of the chunk from `start` to `stop`. -/
def chunkNode (input : ByteArray) (start stop counter : Nat) : Node :=
  let last := (stop - start - 1) / blockBytes
  let flagsOf := fun k : Nat => if k = 0 then chunkStart else 0
  let chaining := (List.range last).foldl (fun chaining k =>
    let node : Node :=
      { chaining, block := blockAt input stop (start + blockBytes * k), counter,
        length := blockBytes, flags := flagsOf k }
    node.output 0) initial
  let from' := start + blockBytes * last
  { chaining, block := blockAt input stop from', counter, length := stop - from',
    flags := flagsOf last ||| chunkEnd }

def leftBytes (length : Nat) : Nat :=
  chunkBytes * (1 <<< Nat.log2 ((length - 1) / chunkBytes))

theorem leftBytes_bounds {length : Nat} (h : chunkBytes < length) :
    0 < leftBytes length ∧ leftBytes length < length := by
  have hpos : (length - 1) / chunkBytes ≠ 0 := by
    have : 1 ≤ (length - 1) / chunkBytes :=
      (Nat.le_div_iff_mul_le (by decide)).mpr (by simp only [chunkBytes] at *; omega)
    omega
  have hle : 1 <<< Nat.log2 ((length - 1) / chunkBytes) ≤ (length - 1) / chunkBytes := by
    rw [Nat.one_shiftLeft]
    exact Nat.log2_self_le hpos
  have hmul : chunkBytes * ((length - 1) / chunkBytes) ≤ length - 1 :=
    Nat.mul_div_le _ _
  have hone : 0 < 1 <<< Nat.log2 ((length - 1) / chunkBytes) := by
    rw [Nat.one_shiftLeft]
    exact Nat.two_pow_pos _
  refine ⟨Nat.mul_pos (by decide) hone, ?_⟩
  have := Nat.le_trans (Nat.mul_le_mul_left chunkBytes hle) hmul
  simp only [leftBytes]
  omega

/-- The last compression of the part from `start` on with `length` bytes,
whose first chunk has the number `counter`. -/
def treeNode (input : ByteArray) (start length counter : Nat) : Node :=
  if h : chunkBytes < length then
    have _ := leftBytes_bounds h
    let left := leftBytes length
    let first := treeNode input start left counter
    let second := treeNode input (start + left) (length - left) (counter + left / chunkBytes)
    { chaining := initial, block := first.output 0 ++ second.output 0, counter := 0,
      length := blockBytes, flags := parent }
  else
    chunkNode input start (start + length) counter
termination_by length
decreasing_by all_goals omega

def bytesOf (word : UInt32) : List UInt8 :=
  [word.toUInt8, (word >>> 8).toUInt8, (word >>> 16).toUInt8, (word >>> 24).toUInt8]

def hash (input : ByteArray) : List UInt8 :=
  ((treeNode input 0 input.size 0).output root).toList.flatMap bytesOf

end Blake3

/-- The digest by which contents are told apart, as hexadecimal text. -/
def digest (content : ByteArray) : String :=
  Text.hex (Blake3.hash content)

end MediaCatalog.Digest
