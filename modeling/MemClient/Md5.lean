import MemClient.ConsistentHashDistri

/-!
# MD5

The class of `utils/md5.cpp` that labels of ring points are fed to: the message is taken in
blocks of 64 bytes through `_buffer`, `final` pads what is left, and `toString` writes the 16
bytes of the digest as 32 hex characters.  Section 4: the string is what the ring expects,
and it determines the digest.
-/

namespace MemClient

open ByteCodec

namespace MD5

/-! ## 1. Rounds -/

/-- `uint32`. -/
abbrev Word := BitVec 32

def F (x y z : Word) : Word := (x &&& y) ||| (~~~x &&& z)
def G (x y z : Word) : Word := (x &&& z) ||| (y &&& ~~~z)
def H (x y z : Word) : Word := x ^^^ y ^^^ z
def I (x y z : Word) : Word := y ^^^ (x ||| ~~~z)

def rotateLeft (x : Word) (n : Nat) : Word := (x <<< n) ||| (x >>> (32 - n))

/-- The four words of `_state`, and the local `a`, `b`, `c`, `d` of `transform`. -/
structure Registers where
  a : Word
  b : Word
  c : Word
  d : Word
deriving DecidableEq

/-- An application of `FF`, `GG`, `HH` or `II`: the word of the block that is added, the
    rotation and the constant. -/
structure Operation where
  x : Nat
  s : Nat
  ac : Word

/-- One such application.  The source names the registers in a different order each time,
    `(a, b, c, d)`, `(d, a, b, c)`, `(c, d, a, b)`, `(b, c, d, a)` and so on; here they move
    on by one place after each. -/
def operate (f : Word → Word → Word → Word) (block : List Word) (r : Registers)
    (op : Operation) : Registers where
  a := r.d
  b := rotateLeft (r.a + (f r.b r.c r.d + block.getD op.x 0 + op.ac)) op.s + r.b
  c := r.b
  d := r.c

def round1 : List Operation :=
  [⟨0, 7, 0xd76aa478⟩, ⟨1, 12, 0xe8c7b756⟩, ⟨2, 17, 0x242070db⟩, ⟨3, 22, 0xc1bdceee⟩,
    ⟨4, 7, 0xf57c0faf⟩, ⟨5, 12, 0x4787c62a⟩, ⟨6, 17, 0xa8304613⟩, ⟨7, 22, 0xfd469501⟩,
    ⟨8, 7, 0x698098d8⟩, ⟨9, 12, 0x8b44f7af⟩, ⟨10, 17, 0xffff5bb1⟩, ⟨11, 22, 0x895cd7be⟩,
    ⟨12, 7, 0x6b901122⟩, ⟨13, 12, 0xfd987193⟩, ⟨14, 17, 0xa679438e⟩, ⟨15, 22, 0x49b40821⟩]

def round2 : List Operation :=
  [⟨1, 5, 0xf61e2562⟩, ⟨6, 9, 0xc040b340⟩, ⟨11, 14, 0x265e5a51⟩, ⟨0, 20, 0xe9b6c7aa⟩,
    ⟨5, 5, 0xd62f105d⟩, ⟨10, 9, 0x2441453⟩, ⟨15, 14, 0xd8a1e681⟩, ⟨4, 20, 0xe7d3fbc8⟩,
    ⟨9, 5, 0x21e1cde6⟩, ⟨14, 9, 0xc33707d6⟩, ⟨3, 14, 0xf4d50d87⟩, ⟨8, 20, 0x455a14ed⟩,
    ⟨13, 5, 0xa9e3e905⟩, ⟨2, 9, 0xfcefa3f8⟩, ⟨7, 14, 0x676f02d9⟩, ⟨12, 20, 0x8d2a4c8a⟩]

def round3 : List Operation :=
  [⟨5, 4, 0xfffa3942⟩, ⟨8, 11, 0x8771f681⟩, ⟨11, 16, 0x6d9d6122⟩, ⟨14, 23, 0xfde5380c⟩,
    ⟨1, 4, 0xa4beea44⟩, ⟨4, 11, 0x4bdecfa9⟩, ⟨7, 16, 0xf6bb4b60⟩, ⟨10, 23, 0xbebfbc70⟩,
    ⟨13, 4, 0x289b7ec6⟩, ⟨0, 11, 0xeaa127fa⟩, ⟨3, 16, 0xd4ef3085⟩, ⟨6, 23, 0x4881d05⟩,
    ⟨9, 4, 0xd9d4d039⟩, ⟨12, 11, 0xe6db99e5⟩, ⟨15, 16, 0x1fa27cf8⟩, ⟨2, 23, 0xc4ac5665⟩]

def round4 : List Operation :=
  [⟨0, 6, 0xf4292244⟩, ⟨7, 10, 0x432aff97⟩, ⟨14, 15, 0xab9423a7⟩, ⟨5, 21, 0xfc93a039⟩,
    ⟨12, 6, 0x655b59c3⟩, ⟨3, 10, 0x8f0ccc92⟩, ⟨10, 15, 0xffeff47d⟩, ⟨1, 21, 0x85845dd1⟩,
    ⟨8, 6, 0x6fa87e4f⟩, ⟨15, 10, 0xfe2ce6e0⟩, ⟨6, 15, 0xa3014314⟩, ⟨13, 21, 0x4e0811a1⟩,
    ⟨4, 6, 0xf7537e82⟩, ⟨11, 10, 0xbd3af235⟩, ⟨2, 15, 0x2ad7d2bb⟩, ⟨9, 21, 0xeb86d391⟩]

/-- Words to bytes, low byte first. -/
def encode (input : List Word) : Bytes := input.flatMap fun w => leBytes 4 w.toNat

/-- The `n` words in the first `4 * n` bytes. -/
def decode (input : Bytes) : Nat → List Word
  | 0 => []
  | n + 1 => BitVec.ofNat 32 (leValue (input.take 4)) :: decode (input.drop 4) n

def transform (state : Registers) (block : Bytes) : Registers :=
  let x := decode block 16
  let r := round1.foldl (operate F x) state
  let r := round2.foldl (operate G x) r
  let r := round3.foldl (operate H x) r
  let r := round4.foldl (operate I x) r
  ⟨state.a + r.a, state.b + r.b, state.c + r.c, state.d + r.d⟩

end MD5

/-! ## 2. The object -/

/-- `_count` is the number of bits, low word first. -/
structure MD5 where
  state : MD5.Registers
  countLow : MD5.Word
  countHigh : MD5.Word
  buffer : Bytes

namespace MD5

/-- The constructors' `reset`; `junk` is what the memory of `_buffer` holds. -/
def reset (junk : Nat → Byte) : MD5 where
  state := ⟨0x67452301, 0xefcdab89, 0x98badcfe, 0x10325476⟩
  countLow := 0
  countHigh := 0
  buffer := malloc junk 64

/-- The bytes of `_buffer` from `index` on are overwritten. -/
def fill (buffer : Bytes) (index : Nat) (input : Bytes) : Bytes :=
  buffer.take index ++ input ++ buffer.drop (index + input.length)

/-- The loop of `update` over the blocks that lie whole in the input, and what it leaves. -/
def transformBlocks : Nat → Registers → Bytes → Registers × Bytes
  | 0, state, input => (state, input)
  | n + 1, state, input =>
      if 63 < input.length then
        transformBlocks n (transform state (input.take 64)) (input.drop 64)
      else (state, input)

/-- `update(const byte*, size_t)` with a block index that does not wrap.  The source's
    has 32 bits, as it has in `MD5Object.update`: the two agree when the buffered bytes
    and the input are fewer than `2 ^ 32` together (`MD5Object.update_eq`). -/
def update (m : MD5) (input : Bytes) : MD5 :=
  let length : Word := BitVec.ofNat 32 input.length
  let index := ((m.countLow >>> 3) &&& 0x3f).toNat
  let countLow := m.countLow + length <<< 3
  let countHigh := if countLow < length <<< 3 then m.countHigh + 1 else m.countHigh
  let countHigh := countHigh + length >>> 29
  let partLen := 64 - index
  if partLen ≤ input.length then
    let buffer := fill m.buffer index (input.take partLen)
    let (state, rest) :=
      transformBlocks input.length (transform m.state buffer) (input.drop partLen)
    ⟨state, countLow, countHigh, fill buffer 0 rest⟩
  else ⟨m.state, countLow, countHigh, fill m.buffer index input⟩

def PADDING : Bytes := 0x80 :: List.replicate 63 0

/-- `final`, up to the state that it restores: the digest. -/
def final (m : MD5) : Bytes :=
  let bits := encode [m.countLow, m.countHigh]
  let index := ((m.countLow >>> 3) &&& 0x3f).toNat
  let padLen := if index < 56 then 56 - index else 120 - index
  let m := m.update (PADDING.take padLen)
  let m := m.update bits
  encode [m.state.a, m.state.b, m.state.c, m.state.d]

/-- `MD5(str).digest()`. -/
def digest (junk : Nat → Byte) (str : Bytes) : Bytes := ((reset junk).update str).final

/-! ## 3. Hex strings -/

def HEX : Bytes := [48, 49, 50, 51, 52, 53, 54, 55, 56, 57, 97, 98, 99, 100, 101, 102]

def bytesToHexString (input : Bytes) : Bytes :=
  input.flatMap fun t => [HEX.getD (t.toNat / 16) 0, HEX.getD (t.toNat % 16) 0]

/-! ## 4. The digest as the ring gets it -/

@[simp] theorem length_encode (input : List Word) : (encode input).length = 4 * input.length := by
  induction input with
  | nil => rfl
  | cons w input ih =>
      rw [encode, List.flatMap_cons, List.length_append, length_leBytes]
      rw [encode] at ih
      rw [ih, List.length_cons]
      omega

@[simp] theorem length_digest (junk : Nat → Byte) (str : Bytes) :
    (digest junk str).length = 16 := by
  simp [digest, final]

@[simp] theorem length_bytesToHexString (input : Bytes) :
    (bytesToHexString input).length = 2 * input.length := by
  induction input with
  | nil => rfl
  | cons t input ih =>
      rw [bytesToHexString, List.flatMap_cons, List.length_append]
      rw [bytesToHexString] at ih
      rw [ih, List.length_cons, List.length_cons, List.length_cons, List.length_nil]
      omega

theorem HEX_hex : ∀ i < 16, 48 ≤ (HEX.getD i 0).toNat ∧ (HEX.getD i 0).toNat ≤ 57 ∨
    97 ≤ (HEX.getD i 0).toNat ∧ (HEX.getD i 0).toNat ≤ 102 := by
  decide

theorem HEX_inj : ∀ i < 16, ∀ j < 16, HEX.getD i 0 = HEX.getD j 0 → i = j := by
  decide

theorem mem_bytesToHexString {input : Bytes} {c : Byte} (hc : c ∈ bytesToHexString input) :
    ∃ i < 16, c = HEX.getD i 0 := by
  obtain ⟨t, -, hpair⟩ := List.mem_flatMap.mp hc
  have ht : t.toNat < 256 := t.isLt
  rcases List.mem_cons.mp hpair with rfl | hlow
  · exact ⟨t.toNat / 16, by omega, rfl⟩
  · exact ⟨t.toNat % 16, by omega, List.mem_singleton.mp hlow⟩

/-- `MD5(str).toString()`. -/
def toString (junk : Nat → Byte) (str : Bytes) : HexDigest where
  chars := bytesToHexString (digest junk str)
  length_eq := by simp
  hex := by
    intro c hc
    obtain ⟨i, hi, rfl⟩ := mem_bytesToHexString hc
    exact HEX_hex i hi

/-- Two characters spell one byte. -/
theorem hexPair_inj {s t : Byte}
    (h : [HEX.getD (s.toNat / 16) 0, HEX.getD (s.toNat % 16) 0] =
      [HEX.getD (t.toNat / 16) 0, HEX.getD (t.toNat % 16) 0]) : s = t := by
  obtain ⟨hhigh, hlow, -⟩ : _ ∧ _ ∧ _ := by simpa only [List.cons.injEq] using h
  have hs : s.toNat < 256 := s.isLt
  have ht : t.toNat < 256 := t.isLt
  have hdiv := HEX_inj _ (by omega) _ (by omega) hhigh
  have hmod := HEX_inj _ (by omega) _ (by omega) hlow
  apply BitVec.eq_of_toNat_eq
  omega

/-- The hex string determines the bytes. -/
theorem bytesToHexString_inj {input input' : Bytes}
    (h : bytesToHexString input = bytesToHexString input') : input = input' := by
  induction input generalizing input' with
  | nil =>
      have hlen := congrArg List.length h
      rw [length_bytesToHexString, length_bytesToHexString, List.length_nil] at hlen
      exact (List.length_eq_zero_iff.mp (by omega)).symm
  | cons s input ih =>
      cases input' with
      | nil => cases h
      | cons t input' =>
          rw [bytesToHexString, bytesToHexString, List.flatMap_cons, List.flatMap_cons] at h
          obtain ⟨hpair, hrest⟩ := List.append_inj h rfl
          rw [hexPair_inj hpair, ih hrest]

theorem drop_bytesToHexString (input : Bytes) (n : Nat) :
    (bytesToHexString input).drop (2 * n) = bytesToHexString (input.drop n) := by
  induction n generalizing input with
  | zero => rfl
  | succ n ih =>
      cases input with
      | nil => exact List.drop_nil
      | cons t input => exact ih input

theorem take_bytesToHexString (input : Bytes) (n : Nat) :
    (bytesToHexString input).take (2 * n) = bytesToHexString (input.take n) := by
  induction n generalizing input with
  | zero => rfl
  | succ n ih =>
      cases input with
      | nil => exact List.take_nil
      | cons t input =>
          have htail := ih input
          rw [bytesToHexString] at htail
          simp only [Nat.mul_succ, bytesToHexString, List.flatMap_cons, List.cons_append,
            List.nil_append, List.take_succ_cons, htail]

/-- Two characters of the string for each byte of a part. -/
theorem slice_bytesToHexString (input : Bytes) (off len : Nat) :
    slice (bytesToHexString input) (2 * off) (2 * len) =
      bytesToHexString (slice input off len) := by
  rw [slice, drop_bytesToHexString, take_bytesToHexString, slice]

/-- The empty message. -/
example : bytesToHexString (digest (fun _ => 1) []) =
    [100, 52, 49, 100, 56, 99, 100, 57, 56, 102, 48, 48, 98, 50, 48, 52,
      101, 57, 56, 48, 48, 57, 57, 56, 101, 99, 102, 56, 52, 50, 55, 101] := by
  decide +kernel

end MD5

end MemClient
