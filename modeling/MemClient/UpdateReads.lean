import MemClient.IncrementalMd5

/-!
# What an MD5 update reads

What `update` does with the input follows from the number of buffered bytes and the length alone:
`actions` lists its calls, and `update` is what they come to (`update_eq_actions`).  While the
32-bit index does not wrap, the calls take the input from the front to the end, byte by byte.
-/

namespace MemClient

open ByteCodec BlockHash

namespace MD5Object

/-! ## 1. Calls -/

inductive Action
  /-- `memcpy(&_buffer[index], &input[i], count)`. -/
  | memcpy (index i count : Nat)
  /-- `transform(_buffer)`. -/
  | transformBuffer
  /-- `transform(&input[i])`. -/
  | transformInput (i : Nat)
deriving DecidableEq

namespace Action

def isTransform : Action → Bool
  | .memcpy _ _ _ => false
  | .transformBuffer | .transformInput _ => true

/-- The offsets of the input that are read. -/
def reads : Action → List Nat
  | .memcpy _ i count => List.range' i count
  | .transformBuffer => []
  | .transformInput i => List.range' i 64

/-- The number of bytes that wait in `_buffer` afterwards. -/
def buffered : Nat → Action → Nat
  | _, .memcpy index _ count => index + count
  | _, .transformBuffer => 0
  | waiting, .transformInput _ => waiting

/-- What happens to `_state` and `_buffer`. -/
def perform (input : Bytes) : MD5.Registers × Bytes → Action → MD5.Registers × Bytes
  | (state, buffer), .memcpy index i count => (state, MD5.fill buffer index (slice input i count))
  | (state, buffer), .transformBuffer => (MD5.transform state buffer, buffer)
  | (state, buffer), .transformInput i => (MD5.transform state (slice input i 64), buffer)

end Action

/-- `length - i` in `size_t`. -/
def sizeSub (length i : Nat) : Nat := (length + 2 ^ 64 - i) % 2 ^ 64

/-- The calls of the loop, and the index it ends with; at most `fuel` rounds, `none` where it is
    still running then. -/
def loopActions (length : Nat) : Nat → MD5.Word → Option (List Action × MD5.Word)
  | 0, _ => none
  | fuel + 1, i =>
      if (i + 63).toNat < length then
        (loopActions length fuel (i + 64)).map fun (actions, last) =>
          (.transformInput i.toNat :: actions, last)
      else some ([], i)

/-- The calls of `update` where `index` bytes are buffered. -/
def actions (fuel index length : Nat) : Option (List Action) :=
  let partLen := 64 - index
  if partLen ≤ length then
    (loopActions length fuel (BitVec.ofNat 32 partLen)).map fun (actions, i) =>
      .memcpy index 0 partLen :: .transformBuffer ::
        (actions ++ [.memcpy 0 i.toNat (sizeSub length i.toNat)])
  else some [.memcpy index 0 (sizeSub length 0)]

/-- One transform for each whole block, every byte of the input read once and in order, none
    outside it, and what fills no block left in the buffer. -/
structure Covers (index length : Nat) (calls : List Action) : Prop where
  transforms : calls.countP Action.isTransform = (index + length) / 64
  reads : calls.flatMap Action.reads = List.range length
  buffered : calls.foldl Action.buffered index = (index + length) % 64

/-- `update` ends after calls that cover the input, and the count says what they leave in the
    buffer. -/
def CoversInput (o : MD5Object) (input : Bytes) : Prop :=
  ∃ enough calls o', (∀ fuel ≥ enough, o.update fuel input = some o' ∧
      actions fuel (index o.toMD5) input.length = some calls) ∧
    calls.foldl (Action.perform input) (o.state, o.buffer) = (o'.state, o'.buffer) ∧
    Covers (index o.toMD5) input.length calls ∧
    index o'.toMD5 = (index o.toMD5 + input.length) % 64

/-! ## 2. The calls are what update does -/

section Perform

variable {input : Bytes}

theorem transformLoop_eq_actions (fuel : Nat) (state : MD5.Registers) (buffer : Bytes)
    (i : MD5.Word) : (transformLoop input fuel state i).map (fun s => ((s.1, buffer), s.2)) =
      (loopActions input.length fuel i).map fun a =>
        (a.1.foldl (Action.perform input) (state, buffer), a.2) := by
  induction fuel generalizing state i with
  | zero => rfl
  | succ fuel ih =>
      rw [transformLoop, loopActions]
      split
      · rw [ih, Option.map_map]
        simp only [Function.comp_def, List.foldl_cons, Action.perform]
      · rfl

/-- What `memcpy` takes from the index on is the rest of the input. -/
theorem slice_sizeSub (hlength : input.length < 2 ^ 64) {i : Nat} (hi : i < 2 ^ 64) :
    slice input i (sizeSub input.length i) = input.drop i := by
  apply List.take_of_length_le
  rw [List.length_drop, sizeSub]
  omega

/-- **`update`** performs its calls. -/
theorem update_eq_actions (o : MD5Object) (hlength : input.length < 2 ^ 64) (fuel : Nat) :
    (o.update fuel input).map (fun o' => (o'.state, o'.buffer)) =
      (actions fuel (index o.toMD5) input.length).map fun calls =>
        calls.foldl (Action.perform input) (o.state, o.buffer) := by
  unfold update actions
  by_cases hpart : 64 - index o.toMD5 ≤ input.length
  · have hloop := @transformLoop_eq_actions input fuel (MD5.transform o.state
      (MD5.fill o.buffer (index o.toMD5) (input.take (64 - index o.toMD5))))
      (MD5.fill o.buffer (index o.toMD5) (input.take (64 - index o.toMD5)))
      (BitVec.ofNat 32 (64 - index o.toMD5))
    simp only [if_pos hpart]
    cases hcalls : loopActions input.length fuel (BitVec.ofNat 32 (64 - index o.toMD5)) with
    | none =>
        rw [hcalls, Option.map_none, Option.map_eq_none_iff] at hloop
        simp only [hloop, Option.map_none]
    | some ending =>
        obtain ⟨calls, i⟩ := ending
        rw [hcalls, Option.map_some, Option.map_eq_some_iff] at hloop
        obtain ⟨⟨state, last⟩, hrun, hend⟩ := hloop
        obtain ⟨hfold, rfl⟩ := Prod.mk.inj hend
        have hi : last.toNat < 2 ^ 64 := by
          have hword := last.isLt
          omega
        simp only [hrun, Option.map_some, List.foldl_cons, List.foldl_append, List.foldl_nil,
          Action.perform, slice, List.drop_zero, ← hfold]
        rw [← slice, slice_sizeSub hlength hi]
  · simp only [if_neg hpart, Option.map_some, List.foldl_cons, List.foldl_nil, Action.perform,
      slice_sizeSub hlength (Nat.two_pow_pos 64), List.drop_zero]

end Perform

/-! ## 3. What they cover -/

section Covers

variable {index length : Nat}

/-- Blocks that follow each other. -/
theorem flatMap_range' (size start blocks : Nat) :
    (List.range' start blocks size).flatMap (fun i => List.range' i size) =
      List.range' start (size * blocks) := by
  induction blocks generalizing start with
  | zero => rfl
  | succ blocks ih =>
      rw [List.range'_succ, List.flatMap_cons, ih, List.range'_append_1, Nat.mul_succ,
        Nat.add_comm size]

/-- While the index fits 32 bits, the loop takes block after block. -/
theorem loopActions_eq (hfit : index + length < 2 ^ 32) {fuel k : Nat} (hk : k ≤ length)
    (haligned : (k + index) % 64 = 0) (hfuel : length < k + 64 * fuel) :
    loopActions length fuel (BitVec.ofNat 32 k) =
      some ((List.range' k ((length - k) / 64) 64).map .transformInput,
        BitVec.ofNat 32 (k + 64 * ((length - k) / 64))) := by
  induction fuel generalizing k with
  | zero => omega
  | succ fuel ih =>
      obtain ⟨hi, hsum, hnext⟩ := index_next hfit hk haligned
      rw [loopActions, hsum, hi, hnext]
      split
      · next hlong =>
        have hblocks : (length - k) / 64 = (length - (k + 64)) / 64 + 1 := by omega
        rw [ih (by omega) (by omega) (by omega), hblocks, List.range'_succ, Nat.mul_succ,
          Nat.add_right_comm]
        rfl
      · next hshort =>
        have hblocks : (length - k) / 64 = 0 := by omega
        rw [hblocks]
        rfl

theorem countP_transformInput (starts : List Nat) :
    (starts.map Action.transformInput).countP Action.isTransform = starts.length := by
  rw [List.countP_map]
  exact List.countP_eq_length.mpr fun _ _ => rfl

theorem foldl_buffered_transformInput (starts : List Nat) (waiting : Nat) :
    (starts.map Action.transformInput).foldl Action.buffered waiting = waiting := by
  induction starts with
  | nil => rfl
  | cons start starts ih => exact ih

/-- The calls where the index does not wrap: the block in the buffer is completed, the whole
    blocks behind it are taken, and the rest is buffered. -/
def wholeCalls (index length : Nat) : List Action :=
  .memcpy index 0 (64 - index) :: .transformBuffer ::
    ((List.range' (64 - index) ((index + length) / 64 - 1) 64).map .transformInput ++
      [.memcpy 0 (length - (index + length) % 64) ((index + length) % 64)])

section Whole

variable (hindex : index < 64) (hpart : 64 - index ≤ length)
include hindex hpart

theorem covers_wholeCalls : Covers index length (wholeCalls index length) := by
  have hstart : 64 - index + 64 * ((index + length) / 64 - 1) =
      length - (index + length) % 64 := by omega
  refine ⟨?_, ?_, ?_⟩
  · have hblocks : (index + length) / 64 - 1 + 1 = (index + length) / 64 := by omega
    rw [wholeCalls, List.countP_cons_of_neg Bool.false_ne_true, List.countP_cons_of_pos rfl,
      List.countP_append, countP_transformInput, List.length_range']
    exact hblocks
  · have hfirst : List.range' 0 (64 - index) ++ List.range' (64 - index)
        (64 * ((index + length) / 64 - 1)) =
          List.range' 0 (length - (index + length) % 64) := by
      rw [← hstart, ← List.range'_append_1, Nat.zero_add]
    have hrest : List.range' 0 (length - (index + length) % 64) ++
        List.range' (length - (index + length) % 64) ((index + length) % 64) =
          List.range' 0 length := by
      conv_lhs => rhs; arg 1; rw [← Nat.zero_add (length - (index + length) % 64)]
      rw [List.range'_append_1]
      congr 1
      omega
    simp only [wholeCalls, List.flatMap_cons, List.flatMap_append, List.flatMap_map, Action.reads,
      List.flatMap_nil, List.nil_append, List.append_nil]
    rw [flatMap_range', ← List.append_assoc, hfirst, hrest, List.range_eq_range']
  · rw [wholeCalls, List.foldl_cons, List.foldl_cons, List.foldl_append,
      foldl_buffered_transformInput]
    exact Nat.zero_add _

theorem actions_eq_wholeCalls (hfit : index + length < 2 ^ 32) {fuel : Nat}
    (hfuel : length < fuel) : actions fuel index length = some (wholeCalls index length) := by
  have hblocks : (length - (64 - index)) / 64 = (index + length) / 64 - 1 := by omega
  have hstart : 64 - index + 64 * ((index + length) / 64 - 1) =
      length - (index + length) % 64 := by omega
  have hlast : (BitVec.ofNat 32 (length - (index + length) % 64)).toNat =
      length - (index + length) % 64 := by
    rw [BitVec.toNat_ofNat]
    omega
  have hrest : sizeSub length (length - (index + length) % 64) = (index + length) % 64 := by
    rw [sizeSub]
    omega
  rw [actions, if_pos hpart, loopActions_eq hfit hpart (by omega) (by omega), hblocks, hstart,
    Option.map_some]
  simp only [hlast, hrest, wholeCalls]

end Whole

/-- **The calls cover the input** when the buffered bytes and the input are fewer than
    `2 ^ 32`. -/
theorem exists_covers (hindex : index < 64) (hfit : index + length < 2 ^ 32) :
    ∃ calls, Covers index length calls ∧
      ∀ fuel, length < fuel → actions fuel index length = some calls := by
  by_cases hpart : 64 - index ≤ length
  · exact ⟨wholeCalls index length, covers_wholeCalls hindex hpart,
      fun fuel hfuel => actions_eq_wholeCalls hindex hpart hfit hfuel⟩
  · have hcount : sizeSub length 0 = length := by
      rw [sizeSub]
      omega
    refine ⟨[.memcpy index 0 length], ⟨?_, ?_, ?_⟩, fun fuel _ => ?_⟩
    · rw [Nat.div_eq_of_lt (by omega)]
      rfl
    · simp [Action.reads, List.range_eq_range']
    · rw [Nat.mod_eq_of_lt (by omega)]
      rfl
    · rw [actions, if_neg hpart, hcount]

/-- The count says how many bytes wait, whatever it was. -/
theorem index_update (m : MD5) (input : Bytes) :
    MD5Object.index (m.update input) = (MD5Object.index m + input.length) % 64 := by
  have hcount : (m.update input).countLow =
      m.countLow + BitVec.ofNat 32 input.length <<< 3 := by
    unfold MD5.update
    dsimp only
    split
    · rfl
    · rfl
  rw [index_eq, index_eq, hcount, BitVec.toNat_add, BitVec.toNat_shiftLeft, BitVec.toNat_ofNat,
    Nat.shiftLeft_eq]
  omega

end Covers

/-- **`update` covers its input** exactly when the buffered bytes and the input are fewer than
    `2 ^ 32`; otherwise it never returns. -/
theorem coversInput_iff (o : MD5Object) (input : Bytes) :
    o.CoversInput input ↔ index o.toMD5 + input.length < 2 ^ 32 := by
  constructor
  · rintro ⟨enough, calls, o', hends, -, -⟩
    by_contra hlong
    have hnone := update_eq_none (Nat.not_lt.mp hlong) enough
    rw [(hends enough (Nat.le_refl enough)).1] at hnone
    cases hnone
  · intro hfit
    obtain ⟨calls, hcovers, hcalls⟩ := exists_covers (index_lt o.toMD5) hfit
    have hupdate {fuel : Nat} (hfuel : input.length < fuel) := update_eq hfit hfuel
    have hperform := update_eq_actions o (show input.length < 2 ^ 64 by omega) (input.length + 1)
    rw [hupdate (Nat.lt_succ_self _), hcalls _ (Nat.lt_succ_self _), Option.map_some,
      Option.map_some, Option.some_inj] at hperform
    refine ⟨input.length + 1, calls, _, fun fuel hfuel => ⟨hupdate hfuel, hcalls fuel hfuel⟩,
      hperform.symm, hcovers, index_update o.toMD5 input⟩

/-- Four gigabytes for a new object. -/
theorem not_coversInput : ¬(reset fun _ => 0).CoversInput (List.replicate (2 ^ 32) 0) := by
  rw [coversInput_iff, List.length_replicate]
  omega

end MD5Object

end MemClient
