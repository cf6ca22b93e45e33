import MemClient.BlockHash
import MemClient.Md5

/-!
# MD5 in pieces

The object of `utils/md5.cpp` as its callers use it: `update` as often as they like, with the
32-bit index of its loop, and `digest`, which pads through `update` itself and then restores
part of what that changed.  `Holds` says which message an object stands for: an update
appends to it, and the digest is that of RFC 1321.
-/

namespace MemClient

open ByteCodec BlockHash

/-! ## 1. The object -/

/-- With what `digest` returns and whether it is up to date. -/
structure MD5Object extends MD5 where
  _digest : Bytes
  _finished : Bool

namespace MD5Object

/-- The loop of `update`, with the sum and the comparison as `uint32` and `size_t` have them;
    at most `fuel` rounds, `none` where it is still running then. -/
def transformLoop (input : Bytes) :
    Nat → MD5.Registers → MD5.Word → Option (MD5.Registers × MD5.Word)
  | 0, _, _ => none
  | fuel + 1, state, i =>
      if (i + 63).toNat < input.length then
        transformLoop input fuel (MD5.transform state (slice input i.toNat 64)) (i + 64)
      else some (state, i)

/-- What `malloc` or the stack left in `_buffer` and `_digest` stays there. -/
def reset (junk : Nat → Byte) : MD5Object where
  toMD5 := MD5.reset junk
  _digest := malloc (fun i => junk (64 + i)) 16
  _finished := false

/-- The number of bytes in `_buffer`. -/
def index (m : MD5) : Nat := ((m.countLow >>> 3) &&& 0x3f).toNat

def update (fuel : Nat) (o : MD5Object) (input : Bytes) : Option MD5Object :=
  let length : MD5.Word := BitVec.ofNat 32 input.length
  let countLow := o.countLow + length <<< 3
  let countHigh := if countLow < length <<< 3 then o.countHigh + 1 else o.countHigh
  let countHigh := countHigh + length >>> 29
  let partLen := 64 - index o.toMD5
  if partLen ≤ input.length then
    let buffer := MD5.fill o.buffer (index o.toMD5) (input.take partLen)
    (transformLoop input fuel (MD5.transform o.state buffer) (BitVec.ofNat 32 partLen)).map
      fun (state, i) =>
        { state, countLow, countHigh, buffer := MD5.fill buffer 0 (input.drop i.toNat)
          _digest := o._digest, _finished := false }
  else
    some { o with
      countLow, countHigh
      buffer := MD5.fill o.buffer (index o.toMD5) input
      _finished := false }

def final (fuel : Nat) (o : MD5Object) : Option MD5Object := do
  let bits := MD5.encode [o.countLow, o.countHigh]
  let padLen := if index o.toMD5 < 56 then 56 - index o.toMD5 else 120 - index o.toMD5
  let padded ← o.update fuel (MD5.PADDING.take padLen)
  let padded ← padded.update fuel bits
  let state := padded.state
  some { padded with
    state := o.state, countLow := o.countLow, countHigh := o.countHigh
    _digest := MD5.encode [state.a, state.b, state.c, state.d] }

def digest (fuel : Nat) (o : MD5Object) : Option (Bytes × MD5Object) :=
  if o._finished then some (o._digest, o)
  else (final fuel { o with _finished := true }).map fun o => (o._digest, o)

def BUFFER_SIZE : Nat := 1024

/-- `update(ifstream&)`: `read` sets `eofbit` when it gets fewer bytes than it asked for. -/
def updateFile : Nat → MD5Object → Bytes → Option MD5Object
  | 0, _, _ => none
  | fuel + 1, o, rest => do
      let o ← (if (rest.take BUFFER_SIZE).length > 0 then o.update fuel (rest.take BUFFER_SIZE)
        else some o)
      if rest.length < BUFFER_SIZE then some o else updateFile fuel o (rest.drop BUFFER_SIZE)

/-! ## 2. The loop of update -/

theorem index_eq (m : MD5) : index m = m.countLow.toNat / 8 % 64 := by
  rw [index, BitVec.toNat_and, BitVec.toNat_ushiftRight, Nat.shiftRight_eq_div_pow]
  exact Nat.and_two_pow_sub_one_eq_mod _ 6

theorem index_lt (m : MD5) : index m < 64 := by
  rw [index_eq]
  exact Nat.mod_lt _ (by norm_num)

theorem transformBlocks_eq (fuel : Nat) (state : MD5.Registers) {input : Bytes}
    (hfuel : input.length ≤ 64 * fuel + 63) :
    MD5.transformBlocks fuel state input =
      (chain MD5.transform 64 state input, leftover 64 input) := by
  induction fuel generalizing state input with
  | zero =>
      have hlt : input.length < 64 := by omega
      rw [MD5.transformBlocks, chain_of_lt hlt, leftover_of_lt hlt]
  | succ fuel ih =>
      rw [MD5.transformBlocks]
      split
      · next hlong =>
        have hblock : (input.take 64).length = 64 := List.length_take_of_le hlong
        rw [ih _ (by rw [List.length_drop]; omega)]
        rw [← chain_block_append (by norm_num) hblock, ← leftover_block_append (by norm_num) hblock,
          List.take_append_drop]
      · next hshort =>
        have hlt : input.length < 64 := by omega
        rw [chain_of_lt hlt, leftover_of_lt hlt]

section Loop

variable {input : Bytes} {buffered : Nat}

/-- Where buffered bytes and input fit 32 bits, the index never wraps. -/
theorem index_next {length k : Nat} (hfit : buffered + length < 2 ^ 32) (hk : k ≤ length)
    (haligned : (k + buffered) % 64 = 0) : (BitVec.ofNat 32 k).toNat = k ∧
      (BitVec.ofNat 32 k + 63).toNat = k + 63 ∧
        BitVec.ofNat 32 k + 64 = BitVec.ofNat 32 (k + 64) := by
  have hi : (BitVec.ofNat 32 k).toNat = k := by
    rw [BitVec.toNat_ofNat]
    omega
  refine ⟨hi, ?_, (BitVec.ofNat_add k 64).symm⟩
  rw [BitVec.toNat_add, hi, show (63 : BitVec 32).toNat = 63 from rfl]
  omega

theorem transformLoop_eq (hfit : buffered + input.length < 2 ^ 32) {fuel k : Nat}
    (state : MD5.Registers) (hk : k ≤ input.length) (haligned : (k + buffered) % 64 = 0)
    (hfuel : input.length < k + 64 * fuel) :
    ∃ i : MD5.Word, transformLoop input fuel state (BitVec.ofNat 32 k) =
        some (chain MD5.transform 64 state (input.drop k), i) ∧
      input.drop i.toNat = leftover 64 (input.drop k) := by
  induction fuel generalizing k state with
  | zero => omega
  | succ fuel ih =>
      obtain ⟨hi, hsum, hnext⟩ := index_next hfit hk haligned
      rw [transformLoop, hsum, hi, hnext]
      split
      · next hlong =>
        have hblock : (slice input k 64).length = 64 := length_slice (by omega)
        have hsplit : slice input k 64 ++ input.drop (k + 64) = input.drop k := by
          rw [slice, ← List.drop_drop, List.take_append_drop]
        obtain ⟨i, hloop, hrest⟩ := ih (MD5.transform state (slice input k 64))
          (show k + 64 ≤ input.length by omega) (by omega) (by omega)
        refine ⟨i, ?_, ?_⟩
        · rw [hloop, ← hsplit, chain_block_append (by norm_num) hblock]
        · rw [hrest, ← hsplit, leftover_block_append (by norm_num) hblock]
      · next hshort =>
        have hlt : (input.drop k).length < 64 := by
          rw [List.length_drop]
          omega
        exact ⟨BitVec.ofNat 32 k, by rw [chain_of_lt hlt], by rw [hi, leftover_of_lt hlt]⟩

/-- Where they do not, the sum is below the length whatever the index is. -/
theorem transformLoop_eq_none (hlong : 2 ^ 32 ≤ buffered + input.length) {fuel : Nat}
    {state : MD5.Registers} {i : MD5.Word} (haligned : (i.toNat + buffered) % 64 = 0)
    (hbuffered : buffered < 64) : transformLoop input fuel state i = none := by
  induction fuel generalizing state i with
  | zero => rfl
  | succ fuel ih =>
      have hlt := i.isLt
      have hsum : (i + 63).toNat < input.length := by
        rw [BitVec.toNat_add, show (63 : BitVec 32).toNat = 63 from rfl]
        omega
      rw [transformLoop, if_pos hsum]
      apply ih
      rw [BitVec.toNat_add, show (64 : BitVec 32).toNat = 64 from rfl]
      omega

end Loop

/-- **`update` returns** when the buffered bytes and the input are fewer than `2 ^ 32`, and
    does then what its blocks do. -/
theorem update_eq {o : MD5Object} {input : Bytes} (hfit : index o.toMD5 + input.length < 2 ^ 32)
    {fuel : Nat} (hfuel : input.length < fuel) :
    o.update fuel input = some
      { toMD5 := o.toMD5.update input, _digest := o._digest, _finished := false } := by
  have hindex := index_lt o.toMD5
  unfold update MD5.update
  by_cases hpart : 64 - index o.toMD5 ≤ input.length
  · obtain ⟨i, hloop, hrest⟩ := transformLoop_eq hfit (MD5.transform o.state
      (MD5.fill o.buffer (index o.toMD5) (input.take (64 - index o.toMD5)))) hpart (by omega)
      (show input.length < 64 - index o.toMD5 + 64 * fuel by omega)
    have hrounds : (input.drop (64 - index o.toMD5)).length ≤ 64 * input.length + 63 := by
      rw [List.length_drop]
      omega
    have hblocks := transformBlocks_eq input.length (MD5.transform o.state
      (MD5.fill o.buffer (index o.toMD5) (input.take (64 - index o.toMD5)))) hrounds
    simp only [if_pos hpart, hloop, Option.map_some, hrest]
    unfold index at hpart hblocks ⊢
    simp only [if_pos hpart, hblocks]
  · simp only [if_neg hpart]
    unfold index at hpart ⊢
    simp only [if_neg hpart]

theorem update_eq_none {o : MD5Object} {input : Bytes}
    (hlong : 2 ^ 32 ≤ index o.toMD5 + input.length) (fuel : Nat) : o.update fuel input = none := by
  have hindex := index_lt o.toMD5
  have hpart : 64 - index o.toMD5 ≤ input.length := by omega
  have haligned : ((BitVec.ofNat 32 (64 - index o.toMD5)).toNat + index o.toMD5) % 64 = 0 := by
    rw [BitVec.toNat_ofNat]
    omega
  simp only [update, if_pos hpart, transformLoop_eq_none hlong haligned hindex, Option.map_none]

/-! ## 3. The compression function -/

/-- The words under the names of RFC 1321. -/
def toBuffer (r : MD5.Registers) : Rfc1321.Buffer := ⟨r.a, r.b, r.c, r.d⟩

theorem decode_eq (input : Bytes) (n : Nat) :
    MD5.decode input n = (List.range n).map (Rfc1321.blockWord input) := by
  induction n generalizing input with
  | zero => rfl
  | succ n ih =>
      have hword (k : Nat) : Rfc1321.blockWord (input.drop 4) k =
          Rfc1321.blockWord input (k + 1) := by
        rw [Rfc1321.blockWord, Rfc1321.blockWord, slice, slice, List.drop_drop, Nat.mul_succ,
          Nat.add_comm 4]
      rw [MD5.decode, ih, List.range_succ_eq_map, List.map_cons, List.map_map]
      refine congrArg₂ List.cons ?_ (List.map_congr_left fun k _ => hword k)
      rw [Rfc1321.blockWord, slice, Nat.mul_zero, List.drop_zero]

/-- The source's application for a step of RFC 1321. -/
def operation (i : Nat) : MD5.Operation :=
  ⟨Rfc1321.wordIndex i, Rfc1321.shift i, Rfc1321.T.getD i 0⟩

theorem wordIndex_shift_lt : ∀ i < 64, Rfc1321.wordIndex i < 16 ∧ Rfc1321.shift i < 32 := by
  decide

theorem toBuffer_operate {f : MD5.Word → MD5.Word → MD5.Word → MD5.Word} {block : Bytes} {i : Nat}
    (hi : i < 64) (hf : f = Rfc1321.auxiliary (i / 16)) (r : MD5.Registers) :
    toBuffer (MD5.operate f (MD5.decode block 16) r (operation i)) =
      Rfc1321.step block (toBuffer r) i := by
  obtain ⟨hword, hshift⟩ := wordIndex_shift_lt i hi
  have hx : (MD5.decode block 16).getD (Rfc1321.wordIndex i) 0 =
      Rfc1321.blockWord block (Rfc1321.wordIndex i) := by
    rw [decode_eq, List.getD_eq_getElem?_getD, List.getElem?_map, List.getElem?_range hword]
    rfl
  have hrotate (x : MD5.Word) :
      MD5.rotateLeft x (Rfc1321.shift i) = x.rotateLeft (Rfc1321.shift i) := by
    rw [BitVec.rotateLeft_def, Nat.mod_eq_of_lt hshift]
    rfl
  simp only [toBuffer, MD5.operate, operation, Rfc1321.step, hx, hrotate, hf,
    Rfc1321.Buffer.mk.injEq, true_and, and_true]
  rw [BitVec.add_comm]
  simp only [BitVec.add_assoc]

theorem toBuffer_foldl {f : MD5.Word → MD5.Word → MD5.Word → MD5.Word} {block : Bytes}
    {steps : List Nat} (hf : ∀ i ∈ steps, i < 64 ∧ f = Rfc1321.auxiliary (i / 16))
    (r : MD5.Registers) :
    toBuffer ((steps.map operation).foldl (MD5.operate f (MD5.decode block 16)) r) =
      steps.foldl (Rfc1321.step block) (toBuffer r) := by
  induction steps generalizing r with
  | nil => rfl
  | cons i steps ih =>
      obtain ⟨hi, hround⟩ := hf i List.mem_cons_self
      rw [List.map_cons, List.foldl_cons, List.foldl_cons,
        ih (fun j hj => hf j (List.mem_cons_of_mem i hj)), toBuffer_operate hi hround]

/-- The steps of a round belong to it. -/
theorem round_of_mem {round : Nat} (hround : round < 4) :
    ∀ i ∈ List.range' (16 * round) 16, i < 64 ∧ i / 16 = round := by
  intro i hi
  rw [List.mem_range'_1] at hi
  omega

/-- **`transform`** is the compression function of RFC 1321. -/
theorem toBuffer_transform (state : MD5.Registers) (block : Bytes) :
    toBuffer (MD5.transform state block) = Rfc1321.compress (toBuffer state) block := by
  have hround (round : Nat) (hlt : round < 4) (f : MD5.Word → MD5.Word → MD5.Word → MD5.Word)
      (hf : f = Rfc1321.auxiliary round) (r : MD5.Registers) :
      toBuffer (((List.range' (16 * round) 16).map operation).foldl
          (MD5.operate f (MD5.decode block 16)) r) =
        (List.range' (16 * round) 16).foldl (Rfc1321.step block) (toBuffer r) := by
    apply toBuffer_foldl
    intro i hi
    obtain ⟨hi64, hdiv⟩ := round_of_mem hlt i hi
    exact ⟨hi64, by rw [hdiv, hf]⟩
  have hsteps : (List.range 64).foldl (Rfc1321.step block) (toBuffer state) =
      toBuffer (MD5.round4.foldl (MD5.operate MD5.I (MD5.decode block 16))
        (MD5.round3.foldl (MD5.operate MD5.H (MD5.decode block 16))
          (MD5.round2.foldl (MD5.operate MD5.G (MD5.decode block 16))
            (MD5.round1.foldl (MD5.operate MD5.F (MD5.decode block 16)) state)))) := by
    have hrange : List.range 64 = List.range' (16 * 0) 16 ++ List.range' (16 * 1) 16 ++
        List.range' (16 * 2) 16 ++ List.range' (16 * 3) 16 := rfl
    rw [hrange, List.foldl_append, List.foldl_append, List.foldl_append,
      ← hround 0 (by norm_num) MD5.F rfl, ← hround 1 (by norm_num) MD5.G rfl,
      ← hround 2 (by norm_num) MD5.H rfl, ← hround 3 (by norm_num) MD5.I rfl]
    rfl
  rw [Rfc1321.compress, hsteps]
  rfl

theorem toBuffer_chain (state : MD5.Registers) (message : Bytes) :
    toBuffer (chain MD5.transform 64 state message) =
      chain Rfc1321.compress 64 (toBuffer state) message := by
  induction message using block_induction (show 0 < 64 by norm_num) generalizing state with
  | short message hlt => rw [chain_of_lt hlt, chain_of_lt hlt]
  | block block rest hblock ih =>
      rw [chain_block_append (by norm_num) hblock, chain_block_append (by norm_num) hblock, ih,
        toBuffer_transform]

/-! ## 4. The message an object stands for -/

def magic : MD5.Registers := ⟨0x67452301, 0xefcdab89, 0x98badcfe, 0x10325476⟩

structure Holds (m : MD5) (message : Bytes) : Prop where
  state : m.state = chain MD5.transform 64 magic message
  count : m.countLow.toNat + 2 ^ 32 * m.countHigh.toNat = 8 * message.length % 2 ^ 64
  length_buffer : m.buffer.length = 64
  buffer : m.buffer.take (message.length % 64) = leftover 64 message

theorem holds_reset (junk : Nat → Byte) : Holds (MD5.reset junk) [] where
  state := (chain_of_lt (by norm_num) magic).symm
  count := rfl
  length_buffer := length_malloc junk 64
  buffer := (leftover_of_lt (by norm_num)).symm

section Update

variable {m : MD5} {message : Bytes}

theorem Holds.index_eq (hm : Holds m message) : index m = message.length % 64 := by
  have hcount := hm.count
  have hlow := m.countLow.isLt
  have hhigh := m.countHigh.isLt
  rw [MD5Object.index_eq]
  omega

/-- The two words of the count and their carry. -/
theorem count_update (low high : MD5.Word) {bits : Nat}
    (hcount : low.toNat + 2 ^ 32 * high.toNat = bits % 2 ^ 64) {length : Nat}
    (hlength : length < 2 ^ 32) :
    (low + BitVec.ofNat 32 length <<< 3).toNat +
        2 ^ 32 * ((if low + BitVec.ofNat 32 length <<< 3 < BitVec.ofNat 32 length <<< 3 then
          high + 1 else high) + BitVec.ofNat 32 length >>> 29).toNat =
      (bits + 8 * length) % 2 ^ 64 := by
  have hlow := low.isLt
  have hhigh := high.isLt
  have hshift : (BitVec.ofNat 32 length <<< 3).toNat = 8 * length % 2 ^ 32 := by
    rw [BitVec.toNat_shiftLeft, BitVec.toNat_ofNat, Nat.mod_eq_of_lt hlength, Nat.shiftLeft_eq,
      Nat.mul_comm]
  have htop : (BitVec.ofNat 32 length >>> 29).toNat = length / 2 ^ 29 := by
    rw [BitVec.toNat_ushiftRight, BitVec.toNat_ofNat, Nat.mod_eq_of_lt hlength,
      Nat.shiftRight_eq_div_pow]
  have hsum : (low + BitVec.ofNat 32 length <<< 3).toNat =
      (low.toNat + 8 * length % 2 ^ 32) % 2 ^ 32 := by
    rw [BitVec.toNat_add, hshift]
  split
  · next hcarry =>
    rw [BitVec.lt_def, hsum, hshift] at hcarry
    rw [hsum, BitVec.toNat_add, BitVec.toNat_add, htop, show (1 : BitVec 32).toNat = 1 from rfl]
    omega
  · next hcarry =>
    rw [BitVec.lt_def, hsum, hshift] at hcarry
    rw [hsum, BitVec.toNat_add, htop]
    omega

theorem length_fill {buffer input : Bytes} {index : Nat} (hbuffer : buffer.length = 64)
    (hfit : index + input.length ≤ 64) : (MD5.fill buffer index input).length = 64 := by
  simp only [MD5.fill, List.length_append, List.length_take, List.length_drop]
  omega

/-- What is written after the leftover bytes joins them. -/
theorem take_fill {buffer input : Bytes} {index : Nat} (hbuffer : buffer.length = 64)
    (hfit : index + input.length ≤ 64) :
    (MD5.fill buffer index input).take (index + input.length) = buffer.take index ++ input := by
  rw [MD5.fill, List.take_left']
  rw [List.length_append, List.length_take]
  omega

theorem fill_to_end {buffer input : Bytes} {index : Nat} (hbuffer : buffer.length = 64)
    (hfit : index + input.length = 64) :
    MD5.fill buffer index input = buffer.take index ++ input := by
  have htake := take_fill hbuffer hfit.le
  rwa [hfit, List.take_of_length_le (length_fill hbuffer hfit.le).le] at htake

theorem take_fill_zero {buffer input : Bytes} (hbuffer : buffer.length = 64)
    (hfit : input.length ≤ 64) : (MD5.fill buffer 0 input).take input.length = input := by
  simpa using take_fill hbuffer ((Nat.zero_add _).trans_le hfit)

/-- **An update appends** its input to the message. -/
theorem Holds.update (hm : Holds m message) {input : Bytes} (hinput : input.length < 2 ^ 32) :
    Holds (m.update input) (message ++ input) := by
  have hindex := hm.index_eq
  have hleft : (leftover 64 message).length = message.length % 64 := length_leftover message
  have hlt : message.length % 64 < 64 := Nat.mod_lt _ (by norm_num)
  have hcount := count_update m.countLow m.countHigh hm.count hinput
  rw [← Nat.mul_add, ← List.length_append] at hcount
  unfold MD5.update
  unfold index at hindex
  simp only [hindex]
  split
  · next hpart =>
    -- the first part of the input completes the block in the buffer
    have htake : (input.take (64 - message.length % 64)).length = 64 - message.length % 64 :=
      List.length_take_of_le hpart
    have hblock : (leftover 64 message ++ input.take (64 - message.length % 64)).length = 64 := by
      rw [List.length_append, hleft, htake]
      omega
    have hsplit : leftover 64 message ++ input =
        (leftover 64 message ++ input.take (64 - message.length % 64)) ++
          input.drop (64 - message.length % 64) := by
      rw [List.append_assoc, List.take_append_drop]
    have hfilled : MD5.fill m.buffer (message.length % 64)
        (input.take (64 - message.length % 64)) =
          leftover 64 message ++ input.take (64 - message.length % 64) := by
      rw [fill_to_end hm.length_buffer (by omega), hm.buffer]
    have hrounds : (input.drop (64 - message.length % 64)).length ≤ 64 * input.length + 63 := by
      rw [List.length_drop]
      omega
    have hrest : (leftover 64 (input.drop (64 - message.length % 64))).length < 64 := by
      rw [length_leftover]
      exact Nat.mod_lt _ (by norm_num)
    have hleftover : leftover 64 (message ++ input) =
        leftover 64 (input.drop (64 - message.length % 64)) := by
      rw [leftover_append (by norm_num), hsplit, leftover_block_append (by norm_num) hblock]
    rw [transformBlocks_eq _ _ hrounds, hfilled]
    refine ⟨?_, hcount, length_fill hblock ?_, ?_⟩
    · rw [chain_append (by norm_num), hsplit, chain_block_append (by norm_num) hblock, hm.state]
    · rw [Nat.zero_add]
      exact hrest.le
    · rw [← length_leftover, hleftover]
      exact take_fill_zero hblock hrest.le
  · next hpart =>
    have hshort : (leftover 64 message ++ input).length < 64 := by
      rw [List.length_append, hleft]
      omega
    have hlength : (message ++ input).length % 64 = message.length % 64 + input.length := by
      rw [List.length_append]
      omega
    refine ⟨?_, hcount, length_fill hm.length_buffer (by omega), ?_⟩
    · rw [chain_append (by norm_num), chain_of_lt hshort, hm.state]
    · rw [hlength, take_fill hm.length_buffer (by omega), hm.buffer,
        leftover_append (by norm_num), leftover_of_lt hshort]

/-- What completes a block in the buffer stays there. -/
theorem Holds.buffer_update (hm : Holds m message) {input : Bytes}
    (hfits : message.length % 64 + input.length = 64) :
    (m.update input).buffer = leftover 64 message ++ input := by
  have hindex := hm.index_eq
  have hpart : 64 - message.length % 64 ≤ input.length := by omega
  have hblock : (leftover 64 message ++ input).length = 64 := by
    rw [List.length_append, length_leftover, hfits]
  unfold MD5.update
  unfold index at hindex
  simp only [hindex, if_pos hpart]
  rw [List.take_of_length_le (by omega), List.drop_of_length_le (by omega),
    fill_to_end hm.length_buffer hfits, hm.buffer, transformBlocks_eq _ _ (Nat.zero_le _)]
  exact List.drop_zero

end Update

/-! ## 5. The digest -/

section Digest

variable {o : MD5Object} {message : Bytes}

/-- The bytes of `PADDING` that `final` feeds to `update`. -/
def pad (length : Nat) : Bytes :=
  MD5.PADDING.take (if length % 64 < 56 then 56 - length % 64 else 120 - length % 64)

theorem pad_eq (length : Nat) :
    pad length = 0x80 :: List.replicate ((119 - length % 64) % 64) 0 := by
  have hlen : (if length % 64 < 56 then 56 - length % 64 else 120 - length % 64) =
      (119 - length % 64) % 64 + 1 := by
    split <;> omega
  rw [pad, hlen, MD5.PADDING, List.take_succ_cons, List.take_replicate,
    min_eq_left (Nat.le_of_lt_succ (Nat.mod_lt _ (by norm_num)))]

theorem padding_eq (length : Nat) :
    Rfc1321.padding length = pad length ++ leBytes 8 (8 * length) := by
  rw [Rfc1321.padding, pad_eq]

theorem length_pad (length : Nat) : (pad length).length = (119 - length % 64) % 64 + 1 := by
  rw [pad_eq, List.length_cons, List.length_replicate]

/-- The eight bytes of the count. -/
theorem Holds.encode_count {m : MD5} (hm : Holds m message) :
    MD5.encode [m.countLow, m.countHigh] = leBytes 8 (8 * message.length) := by
  have hcount := hm.count
  have hlow := m.countLow.isLt
  have hhigh := m.countHigh.isLt
  have hsplit : leBytes 8 (8 * message.length) = leBytes 4 (8 * message.length) ++
      leBytes 4 (8 * message.length / 256 ^ 4) := leBytes_add 4 4 _
  have hl : m.countLow.toNat = 8 * message.length % 256 ^ 4 := by omega
  have hh : m.countHigh.toNat = 8 * message.length / 256 ^ 4 % 256 ^ 4 := by omega
  rw [hsplit, ← leBytes_mod 4 (8 * message.length), ← hl,
    ← leBytes_mod 4 (8 * message.length / 256 ^ 4), ← hh]
  rfl

theorem encode_state (state : MD5.Registers) :
    MD5.encode [state.a, state.b, state.c, state.d] = Rfc1321.output (toBuffer state) := by
  simp [MD5.encode, Rfc1321.output, toBuffer]

/-- The last block of the padded message. -/
def lastBlock (message : Bytes) : Bytes :=
  leftover 64 (message ++ pad message.length) ++ leBytes 8 (8 * message.length)

/-- The bytes that an object has for the message once it has been read: `final` restores the
    state and the count, and leaves the last block in the buffer. -/
def afterDigest (message : Bytes) : Bytes :=
  message.take (64 * (message.length / 64)) ++ (lastBlock message).take (message.length % 64)

theorem length_append_pad (message : Bytes) : (message ++ pad message.length).length % 64 = 56 := by
  rw [List.length_append, length_pad]
  omega

@[simp] theorem length_lastBlock (message : Bytes) : (lastBlock message).length = 64 := by
  rw [lastBlock, List.length_append, length_leftover, length_append_pad, length_leBytes]

theorem length_take_blocks (message : Bytes) :
    (message.take (64 * (message.length / 64))).length = 64 * (message.length / 64) := by
  apply List.length_take_of_le
  exact Nat.mul_div_le _ _

@[simp] theorem length_afterDigest (message : Bytes) :
    (afterDigest message).length = message.length := by
  have hlt : message.length % 64 < 64 := Nat.mod_lt _ (by norm_num)
  rw [afterDigest, List.length_append, length_take_blocks, List.length_take, length_lastBlock,
    min_eq_left hlt.le]
  exact Nat.div_add_mod _ _

/-- The whole blocks of the message are not disturbed. -/
theorem chain_afterDigest (state : MD5.Registers) (message : Bytes) :
    chain MD5.transform 64 state (afterDigest message) = chain MD5.transform 64 state message := by
  have hlt : message.length % 64 < 64 := Nat.mod_lt _ (by norm_num)
  have hdvd : 64 ∣ (message.take (64 * (message.length / 64))).length := by
    rw [length_take_blocks]
    exact Nat.dvd_mul_right _ _
  have hshort : ((lastBlock message).take (message.length % 64)).length < 64 := by
    rw [List.length_take]
    omega
  have hleft : (leftover 64 message).length < 64 := by rwa [length_leftover]
  have hmessage : message.take (64 * (message.length / 64)) ++ leftover 64 message = message :=
    take_append_leftover message
  conv_rhs => rw [← hmessage]
  rw [afterDigest, chain_append_of_dvd (by norm_num) hdvd, chain_append_of_dvd (by norm_num) hdvd,
    chain_of_lt hshort, chain_of_lt hleft]

theorem leftover_afterDigest (message : Bytes) :
    leftover 64 (afterDigest message) = (lastBlock message).take (message.length % 64) := by
  rw [leftover, length_afterDigest, afterDigest, List.drop_left' (length_take_blocks message)]

/-- An object that has not been read since `message` was fed to it. -/
structure StandsFor (o : MD5Object) (message : Bytes) : Prop where
  holds : Holds o.toMD5 message
  finished : o._finished = false

theorem standsFor_reset (junk : Nat → Byte) : StandsFor (reset junk) [] := ⟨holds_reset junk, rfl⟩

theorem StandsFor.update (ho : StandsFor o message) {input : Bytes}
    (hfit : message.length % 64 + input.length < 2 ^ 32) {fuel : Nat}
    (hfuel : input.length < fuel) :
    ∃ o', o.update fuel input = some o' ∧ StandsFor o' (message ++ input) := by
  have hupdate := update_eq (by rwa [ho.holds.index_eq]) hfuel
  refine ⟨_, hupdate, ho.holds.update ?_, rfl⟩
  omega

/-- **`final`** writes the digest of RFC 1321. -/
theorem final_eq (hm : Holds o.toMD5 message) {fuel : Nat} (hfuel : 64 < fuel) :
    ∃ o', o.final fuel = some o' ∧ o'._digest = Rfc1321.md5 message ∧
      StandsFor o' (afterDigest message) := by
  have hindex := hm.index_eq
  have hlt : message.length % 64 < 64 := Nat.mod_lt _ (by norm_num)
  have hpad := length_pad message.length
  have hbits := length_leBytes 8 (8 * message.length)
  have hpadded := hm.update (show (pad message.length).length < 2 ^ 32 by omega)
  have hall := hpadded.update
    (show (leBytes 8 (8 * message.length)).length < 2 ^ 32 by omega)
  rw [List.append_assoc, ← padding_eq] at hall
  have hfirst : o.update fuel (pad message.length) = some
      { toMD5 := o.toMD5.update (pad message.length), _digest := o._digest, _finished := false } :=
    update_eq (by omega) (by omega)
  have hpaddedIndex := hpadded.index_eq
  rw [length_append_pad] at hpaddedIndex
  have hsecond : ({ toMD5 := o.toMD5.update (pad message.length), _digest := o._digest
                    _finished := false } : MD5Object).update fuel
      (leBytes 8 (8 * message.length)) = some
        { toMD5 := (o.toMD5.update (pad message.length)).update (leBytes 8 (8 * message.length))
          _digest := o._digest, _finished := false } := by
    apply update_eq
    · simp only [hpaddedIndex]
      omega
    · omega
  -- the eight bytes of the count complete the last block, which stays in the buffer
  have hlast : (message ++ pad message.length).length % 64 +
      (leBytes 8 (8 * message.length)).length = 64 := by rw [length_append_pad, hbits]
  have hbuffer := hpadded.buffer_update hlast
  have hsame : MD5.PADDING.take
      (if index o.toMD5 < 56 then 56 - index o.toMD5 else 120 - index o.toMD5) =
        pad message.length := by
    rw [hindex, pad]
  rw [final, hm.encode_count, hsame, hfirst, Option.bind_eq_bind, Option.bind_some, hsecond,
    Option.bind_some]
  refine ⟨_, rfl, ?_, ?_, rfl⟩
  · rw [encode_state, hall.state, toBuffer_chain]
    rfl
  · refine ⟨?_, ?_, ?_, ?_⟩
    · rw [chain_afterDigest, ← hm.state]
    · rw [length_afterDigest, ← hm.count]
    · rw [hbuffer, ← lastBlock, length_lastBlock]
    · rw [hbuffer, ← lastBlock, length_afterDigest, leftover_afterDigest]

theorem StandsFor.digest (ho : StandsFor o message) {fuel : Nat} (hfuel : 64 < fuel) :
    ∃ o', o.digest fuel = some (Rfc1321.md5 message, o') ∧ StandsFor o' (afterDigest message) := by
  have hm : Holds ({ o with _finished := true } : MD5Object).toMD5 message := ho.holds
  obtain ⟨o', hfinal, hdigest, ho'⟩ := final_eq hm hfuel
  refine ⟨o', ?_, ho'⟩
  rw [MD5Object.digest, ho.finished, if_neg (by decide), hfinal, Option.map_some, hdigest]

theorem StandsFor.foldlM_update (ho : StandsFor o message) {inputs : List Bytes}
    (hinputs : ∀ input ∈ inputs, input.length < 2 ^ 32 - 64) {fuel : Nat}
    (hfuel : ∀ input ∈ inputs, input.length < fuel) :
    ∃ o', inputs.foldlM (MD5Object.update fuel) o = some o' ∧
      StandsFor o' (message ++ inputs.flatten) := by
  induction inputs generalizing o message with
  | nil => exact ⟨o, rfl, by rwa [List.flatten_nil, List.append_nil]⟩
  | cons input inputs ih =>
      obtain ⟨hshort, hinputs⟩ := List.forall_mem_cons.mp hinputs
      obtain ⟨hfuelHead, hfuelTail⟩ := List.forall_mem_cons.mp hfuel
      obtain ⟨o', hupdate, ho'⟩ := ho.update (by omega) hfuelHead
      obtain ⟨o'', hfold, ho''⟩ := ih ho' hinputs hfuelTail
      refine ⟨o'', ?_, ?_⟩
      · rw [List.foldlM_cons, hupdate, Option.bind_eq_bind, Option.bind_some, hfold]
      · rwa [List.flatten_cons, ← List.append_assoc]

/-- The chunks of a file come one after the other. -/
theorem StandsFor.updateFile (ho : StandsFor o message) {rest : Bytes} {fuel : Nat}
    (hfuel : rest.length + BUFFER_SIZE < fuel) :
    ∃ o', updateFile fuel o rest = some o' ∧ StandsFor o' (message ++ rest) := by
  induction fuel generalizing o message rest with
  | zero => omega
  | succ fuel ih =>
      have hchunk : (rest.take BUFFER_SIZE).length ≤ 1024 := List.length_take_le _ _
      have hchunk' : (rest.take BUFFER_SIZE).length ≤ rest.length := List.length_take_le' _ _
      have hfuel' : rest.length + 1024 < fuel + 1 := hfuel
      obtain ⟨o', hupdate, ho'⟩ : ∃ o', (if (rest.take BUFFER_SIZE).length > 0 then
          o.update fuel (rest.take BUFFER_SIZE) else some o) = some o' ∧
            StandsFor o' (message ++ rest.take BUFFER_SIZE) := by
        split
        · exact ho.update (by omega) (by omega)
        · next hempty =>
          refine ⟨o, rfl, ?_⟩
          rwa [List.eq_nil_of_length_eq_zero (Nat.eq_zero_of_not_pos hempty), List.append_nil]
      rw [MD5Object.updateFile, hupdate, Option.bind_eq_bind, Option.bind_some]
      split
      · next hlast =>
        rw [List.take_of_length_le hlast.le] at ho'
        exact ⟨o', rfl, ho'⟩
      · next hmore =>
        have hdrop : (rest.drop BUFFER_SIZE).length = rest.length - 1024 := List.length_drop
        have hsize : BUFFER_SIZE = 1024 := rfl
        obtain ⟨o'', hfile, ho''⟩ := ih ho'
          (show (rest.drop BUFFER_SIZE).length + BUFFER_SIZE < fuel by omega)
        rw [List.append_assoc, List.take_append_drop] at ho''
        exact ⟨o'', hfile, ho''⟩

end Digest

/-- **MD5 in pieces** is MD5: however the message comes, and also from a file. -/
theorem digest_of_updates (junk : Nat → Byte) {inputs : List Bytes}
    (hinputs : ∀ input ∈ inputs, input.length < 2 ^ 32 - 64) :
    (∃ enough, ∀ fuel ≥ enough, ∃ o o', inputs.foldlM (update fuel) (reset junk) = some o ∧
      o.digest fuel = some (Rfc1321.md5 inputs.flatten, o')) ∧
    ∀ content : Bytes, ∃ enough, ∀ fuel ≥ enough, ∃ o o',
      updateFile fuel (reset junk) content = some o ∧
        o.digest fuel = some (Rfc1321.md5 content, o') := by
  refine ⟨⟨2 ^ 32, fun fuel hfuel => ?_⟩,
    fun content => ⟨content.length + 2000, fun fuel hfuel => ?_⟩⟩
  · obtain ⟨o, hfold, ho⟩ := (standsFor_reset junk).foldlM_update hinputs
      (show ∀ input ∈ inputs, input.length < fuel from fun input hmem => by
        have := hinputs input hmem
        omega)
    obtain ⟨o', hdigest, -⟩ := ho.digest (show 64 < fuel by omega)
    exact ⟨o, o', hfold, hdigest⟩
  · have hsize : BUFFER_SIZE = 1024 := rfl
    obtain ⟨o, hfile, ho⟩ := (standsFor_reset junk).updateFile
      (show content.length + BUFFER_SIZE < fuel by omega)
    obtain ⟨o', hdigest, -⟩ := ho.digest (show 64 < fuel by omega)
    exact ⟨o, o', hfile, hdigest⟩

theorem digest_of_updates_ab :
    (∀ input ∈ ([[97], [98]] : List Bytes), input.length < 2 ^ 32 - 64) ∧
    ∃ enough, ∀ fuel ≥ enough, ∃ o o',
      [[97], [98]].foldlM (update fuel) (reset fun _ => 7) = some o ∧
        o.digest fuel = some (Rfc1321.md5 [97, 98], o') :=
  ⟨by decide, (digest_of_updates (fun _ => 7) (by decide)).1⟩

end MD5Object

end MemClient
