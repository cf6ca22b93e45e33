import MemClient.ByteCodec

/-!
# Hashing by blocks

A hash that folds a compression function over the blocks of a padded message, and what an
implementation keeps while the message comes in pieces: the chaining value after the whole
blocks so far (`chain`) and the bytes that fill no block yet (`leftover`).  The chaining
value of a longer message follows from these two alone (`chain_append`).  Section 2 has one
such hash, MD5 as RFC 1321 gives it.
-/

namespace BlockHash

/-! ## 1. Chaining values -/

section Chain

variable {σ α : Type*} (compress : σ → List α → σ) (size : Nat)

/-- The chaining value after the given number of blocks. -/
def fold : Nat → σ → List α → σ
  | 0, state, _ => state
  | blocks + 1, state, message =>
      fold blocks (compress state (message.take size)) (message.drop size)

/-- The chaining value after all whole blocks of a message. -/
def chain (state : σ) (message : List α) : σ :=
  fold compress size (message.length / size) state message

/-- The end of a message that fills no block. -/
def leftover (message : List α) : List α := message.drop (size * (message.length / size))

variable {compress size}

theorem length_leftover (message : List α) :
    (leftover size message).length = message.length % size := by
  rw [leftover, List.length_drop]
  have h := Nat.div_add_mod message.length size
  omega

theorem leftover_of_lt {message : List α} (h : message.length < size) :
    leftover size message = message := by
  rw [leftover, Nat.div_eq_of_lt h, Nat.mul_zero, List.drop_zero]

theorem chain_of_lt {message : List α} (h : message.length < size) (state : σ) :
    chain compress size state message = state := by
  rw [chain, Nat.div_eq_of_lt h, fold]

section Block

variable {block : List α} (hsize : 0 < size) (hblock : block.length = size)
include hsize hblock

theorem blocks_append (rest : List α) :
    (block ++ rest).length / size = rest.length / size + 1 := by
  rw [List.length_append, hblock, Nat.add_comm, Nat.add_div_right _ hsize]

theorem chain_block_append (state : σ) (rest : List α) :
    chain compress size state (block ++ rest) =
      chain compress size (compress state block) rest := by
  rw [chain, blocks_append hsize hblock, fold, List.take_left' hblock, List.drop_left' hblock,
    chain]

theorem leftover_block_append (rest : List α) :
    leftover size (block ++ rest) = leftover size rest := by
  rw [leftover, blocks_append hsize hblock, Nat.mul_succ, Nat.add_comm, ← List.drop_drop,
    List.drop_left' hblock, leftover]

end Block

/-- A message is taken apart block by block from the front. -/
theorem block_induction (hsize : 0 < size) {motive : List α → Prop}
    (short : ∀ message, message.length < size → motive message)
    (block : ∀ block rest, block.length = size → motive rest → motive (block ++ rest))
    (message : List α) : motive message := by
  induction hlen : message.length using Nat.strong_induction_on generalizing message with
  | _ n ih =>
      subst hlen
      rcases Nat.lt_or_ge message.length size with hlt | hge
      · exact short message hlt
      · rw [← List.take_append_drop size message]
        apply block
        · exact List.length_take_of_le hge
        · apply ih _ _ _ rfl
          rw [List.length_drop]
          omega

/-- **A message in pieces**: what matters of the first piece is its chaining value and what
    it leaves over. -/
theorem chain_append (hsize : 0 < size) (state : σ) (first rest : List α) :
    chain compress size state (first ++ rest) =
      chain compress size (chain compress size state first) (leftover size first ++ rest) := by
  induction first using block_induction hsize generalizing state with
  | short first hlt => rw [leftover_of_lt hlt, chain_of_lt hlt]
  | block block first hblock ih =>
      rw [List.append_assoc, chain_block_append hsize hblock, chain_block_append hsize hblock,
        leftover_block_append hsize hblock, ih]

theorem leftover_append (hsize : 0 < size) (first rest : List α) :
    leftover size (first ++ rest) = leftover size (leftover size first ++ rest) := by
  induction first using block_induction hsize with
  | short first hlt => rw [leftover_of_lt hlt]
  | block block first hblock ih =>
      rw [List.append_assoc, leftover_block_append hsize hblock, leftover_block_append hsize hblock,
        ih]

/-- A message that a block boundary ends. -/
theorem leftover_of_dvd {message : List α} (h : size ∣ message.length) :
    leftover size message = [] := by
  apply List.eq_nil_of_length_eq_zero
  rw [length_leftover, Nat.mod_eq_zero_of_dvd h]

theorem chain_append_of_dvd (hsize : 0 < size) {first : List α} (h : size ∣ first.length)
    (state : σ) (rest : List α) : chain compress size state (first ++ rest) =
      chain compress size (chain compress size state first) rest := by
  rw [chain_append hsize, leftover_of_dvd h, List.nil_append]

/-- What is before the leftover is whole blocks. -/
theorem take_append_leftover (message : List α) :
    message.take (size * (message.length / size)) ++ leftover size message = message :=
  List.take_append_drop _ _

end Chain

end BlockHash

/-! ## 2. MD5 -/

namespace Rfc1321

open ByteCodec BlockHash

abbrev Word := BitVec 32

/-- The four-word buffer. -/
structure Buffer where
  A : Word
  B : Word
  C : Word
  D : Word
deriving DecidableEq

def initial : Buffer where
  A := 0x67452301
  B := 0xefcdab89
  C := 0x98badcfe
  D := 0x10325476

/-- The auxiliary function of a round. -/
def auxiliary (round : Nat) (X Y Z : Word) : Word :=
  match round with
  | 0 => X &&& Y ||| ~~~X &&& Z
  | 1 => X &&& Z ||| Y &&& ~~~Z
  | 2 => X ^^^ Y ^^^ Z
  | _ => Y ^^^ (X ||| ~~~Z)

/-- The word of the block that a step adds. -/
def wordIndex (i : Nat) : Nat :=
  match i / 16 with
  | 0 => i
  | 1 => (1 + 5 * i) % 16
  | 2 => (5 + 3 * i) % 16
  | _ => 7 * i % 16

/-- The rotation of a step. -/
def shift (i : Nat) : Nat :=
  match i / 16, i % 4 with
  | 0, 0 => 7
  | 0, 1 => 12
  | 0, 2 => 17
  | 0, _ => 22
  | 1, 0 => 5
  | 1, 1 => 9
  | 1, 2 => 14
  | 1, _ => 20
  | 2, 0 => 4
  | 2, 1 => 11
  | 2, 2 => 16
  | 2, _ => 23
  | _, 0 => 6
  | _, 1 => 10
  | _, 2 => 15
  | _, _ => 21

/-- The table `T`: the integer part of `4294967296 * abs(sin(i + 1))`. -/
def T : List Word :=
  [0xd76aa478, 0xe8c7b756, 0x242070db, 0xc1bdceee, 0xf57c0faf, 0x4787c62a, 0xa8304613, 0xfd469501,
    0x698098d8, 0x8b44f7af, 0xffff5bb1, 0x895cd7be, 0x6b901122, 0xfd987193, 0xa679438e, 0x49b40821,
    0xf61e2562, 0xc040b340, 0x265e5a51, 0xe9b6c7aa, 0xd62f105d, 0x02441453, 0xd8a1e681, 0xe7d3fbc8,
    0x21e1cde6, 0xc33707d6, 0xf4d50d87, 0x455a14ed, 0xa9e3e905, 0xfcefa3f8, 0x676f02d9, 0x8d2a4c8a,
    0xfffa3942, 0x8771f681, 0x6d9d6122, 0xfde5380c, 0xa4beea44, 0x4bdecfa9, 0xf6bb4b60, 0xbebfbc70,
    0x289b7ec6, 0xeaa127fa, 0xd4ef3085, 0x04881d05, 0xd9d4d039, 0xe6db99e5, 0x1fa27cf8, 0xc4ac5665,
    0xf4292244, 0x432aff97, 0xab9423a7, 0xfc93a039, 0x655b59c3, 0x8f0ccc92, 0xffeff47d, 0x85845dd1,
    0x6fa87e4f, 0xfe2ce6e0, 0xa3014314, 0x4e0811a1, 0xf7537e82, 0xbd3af235, 0x2ad7d2bb, 0xeb86d391]

/-- The words of a block, low-order byte first. -/
def blockWord (block : Bytes) (k : Nat) : Word := BitVec.ofNat 32 (leValue (slice block (4 * k) 4))

/-- `a = b + ((a + f(b, c, d) + X[k] + T[i]) <<< s)`, and the names move on by one. -/
def step (block : Bytes) (buffer : Buffer) (i : Nat) : Buffer where
  A := buffer.D
  B := buffer.B + (buffer.A + auxiliary (i / 16) buffer.B buffer.C buffer.D +
    blockWord block (wordIndex i) + T.getD i 0).rotateLeft (shift i)
  C := buffer.B
  D := buffer.C

/-- The 64 steps of a block. -/
def compress (buffer : Buffer) (block : Bytes) : Buffer :=
  let after := (List.range 64).foldl (step block) buffer
  ⟨buffer.A + after.A, buffer.B + after.B, buffer.C + after.C, buffer.D + after.D⟩

/-- A single 1 bit and zeros up to 56 bytes modulo 64, then the length in bits modulo
    `2 ^ 64`. -/
def padding (length : Nat) : Bytes :=
  0x80 :: List.replicate ((119 - length % 64) % 64) 0 ++ leBytes 8 (8 * length)

/-- The digest: the four words, low-order byte first. -/
def output (buffer : Buffer) : Bytes :=
  leBytes 4 buffer.A.toNat ++ leBytes 4 buffer.B.toNat ++ leBytes 4 buffer.C.toNat ++
    leBytes 4 buffer.D.toNat

def md5 (message : Bytes) : Bytes :=
  output (chain compress 64 initial (message ++ padding message.length))

/-- The letter `a`. -/
example : md5 [97] = [0x0c, 0xc1, 0x75, 0xb9, 0xc0, 0xf1, 0xb6, 0xa8, 0x31, 0xc3, 0x99, 0xe2, 0x69,
    0x77, 0x26, 0x61] := by
  decide +kernel

end Rfc1321
