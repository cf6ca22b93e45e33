import Mathlib.Tactic

/-!
# Fixed-width integers and memory blocks as byte strings

Little-endian and big-endian images of natural numbers, slices of a byte
string, writes into a memory block of fixed size, and the split of one byte
string over a sequence of buffers.  Nothing here is about one program: a
reader of any binary format can use the codec laws `leValue_leBytes`,
`leBytes_leValue`, their big-endian forms, and the write law `memcpy_append`.
-/

namespace ByteCodec

abbrev Byte := BitVec 8
abbrev Bytes := List Byte

/-! ## 1. Little-endian and big-endian images -/

/-- The `width` low-order bytes of `x`, least significant first. -/
def leBytes : Nat → Nat → Bytes
  | 0, _ => []
  | width + 1, x => BitVec.ofNat 8 x :: leBytes width (x / 256)

/-- The number whose little-endian image is the given byte string. -/
def leValue : Bytes → Nat
  | [] => 0
  | b :: bs => b.toNat + 256 * leValue bs

/-- The `width` low-order bytes of `x`, most significant first. -/
def beBytes (width x : Nat) : Bytes := (leBytes width x).reverse

def beValue (bs : Bytes) : Nat := leValue bs.reverse

@[simp] theorem length_leBytes (width x : Nat) : (leBytes width x).length = width := by
  induction width generalizing x with
  | zero => rfl
  | succ width ih => simp [leBytes, ih]

@[simp] theorem length_beBytes (width x : Nat) : (beBytes width x).length = width := by
  simp [beBytes]

theorem leValue_leBytes (width x : Nat) : leValue (leBytes width x) = x % 256 ^ width := by
  induction width generalizing x with
  | zero => simp [leBytes, leValue, Nat.mod_one]
  | succ width ih =>
      have hlow : (BitVec.ofNat 8 x).toNat = x % 256 := by simp
      rw [leBytes, leValue, ih, hlow, pow_succ', Nat.mod_mul]

theorem beValue_beBytes (width x : Nat) : beValue (beBytes width x) = x % 256 ^ width := by
  simp [beValue, beBytes, leValue_leBytes]

theorem leValue_lt (bs : Bytes) : leValue bs < 256 ^ bs.length := by
  induction bs with
  | nil => simp [leValue]
  | cons b bs ih =>
      have hb : b.toNat < 256 := b.isLt
      rw [leValue, List.length_cons, pow_succ]
      omega

theorem beValue_lt (bs : Bytes) : beValue bs < 256 ^ bs.length := by
  simpa [beValue] using leValue_lt bs.reverse

theorem leBytes_leValue (bs : Bytes) : leBytes bs.length (leValue bs) = bs := by
  induction bs with
  | nil => rfl
  | cons b bs ih =>
      have hb : b.toNat < 256 := b.isLt
      have hhigh : (b.toNat + 256 * leValue bs) / 256 = leValue bs := by omega
      have hlow : BitVec.ofNat 8 (b.toNat + 256 * leValue bs) = b := by
        apply BitVec.eq_of_toNat_eq
        rw [BitVec.toNat_ofNat]
        omega
      rw [List.length_cons, leBytes, leValue, hhigh, hlow, ih]

/-- Decoding is onto: a byte string is the image of the number it denotes. -/
theorem leBytes_leValue_of_length {bs : Bytes} {width : Nat} (h : bs.length = width) :
    leBytes width (leValue bs) = bs := by
  subst h
  exact leBytes_leValue bs

theorem leValue_eq_zero_iff {bs : Bytes} : leValue bs = 0 ↔ ∀ b ∈ bs, b = 0 := by
  induction bs with
  | nil => simp [leValue]
  | cons b bs ih =>
      have hb : b.toNat = 0 ↔ b = 0 := by
        constructor
        · intro h; exact BitVec.eq_of_toNat_eq (by simpa using h)
        · intro h; simp [h]
      have hmul : 256 * leValue bs = 0 ↔ leValue bs = 0 := by omega
      simp only [leValue, Nat.add_eq_zero_iff, hb, hmul, ih, List.forall_mem_cons]

theorem beValue_eq_zero_iff {bs : Bytes} : beValue bs = 0 ↔ leValue bs = 0 := by
  simp [beValue, leValue_eq_zero_iff]

theorem leBytes_add (m n x : Nat) :
    leBytes (m + n) x = leBytes m x ++ leBytes n (x / 256 ^ m) := by
  induction m generalizing x with
  | zero => simp [leBytes]
  | succ m ih =>
      rw [Nat.succ_add, leBytes, ih, leBytes, List.cons_append, pow_succ', Nat.div_div_eq_div_mul]

theorem leValue_append (front rest : Bytes) :
    leValue (front ++ rest) = leValue front + 256 ^ front.length * leValue rest := by
  induction front with
  | nil => simp [leValue]
  | cons b front ih =>
      rw [List.cons_append, leValue, ih, leValue, List.length_cons, pow_succ']
      ring

theorem leBytes_mod (n x : Nat) : leBytes n (x % 256 ^ n) = leBytes n x := by
  have h := leBytes_leValue (leBytes n x)
  rwa [length_leBytes, leValue_leBytes] at h

/-! ## 2. Slices -/

/-- The `len` bytes from offset `off` on. -/
def slice (bs : Bytes) (off len : Nat) : Bytes := (bs.drop off).take len

theorem length_slice {bs : Bytes} {off len : Nat} (h : off + len ≤ bs.length) :
    (slice bs off len).length = len := by
  simp only [slice, List.length_take, List.length_drop]
  omega

theorem slice_append_left {bs rest : Bytes} {off len : Nat} (h : off + len ≤ bs.length) :
    slice (bs ++ rest) off len = slice bs off len := by
  unfold slice
  rw [List.drop_append_of_le_length (by omega),
    List.take_append_of_le_length (by simp only [List.length_drop]; omega)]

theorem slice_append_mid (front mid rest : Bytes) {i n : Nat}
    (hi : i = front.length) (hn : n = mid.length) :
    slice (front ++ (mid ++ rest)) i n = mid := by
  subst hi hn
  simp [slice]

/-! ## 3. Memory blocks -/

/-- A freshly allocated block of `size` bytes; its content is whatever `junk`
    says the allocator left there. -/
def malloc (junk : Nat → Byte) (size : Nat) : Bytes := (List.range size).map junk

@[simp] theorem length_malloc (junk : Nat → Byte) (size : Nat) :
    (malloc junk size).length = size := by
  simp [malloc]

/-- Copy `src` over the block from offset `off` on; `none` when the copy would
    leave the block. -/
def memcpy (block : Bytes) (off : Nat) (src : Bytes) : Option Bytes :=
  if off + src.length ≤ block.length then
    some (block.take off ++ src ++ block.drop (off + src.length))
  else none

theorem memcpy_of_le {block src : Bytes} {off : Nat} (h : off + src.length ≤ block.length) :
    memcpy block off src = some (block.take off ++ src ++ block.drop (off + src.length)) :=
  if_pos h

/-- The write law: what lies before and behind the copied range is unchanged. -/
theorem memcpy_append (front mid rest src : Bytes) {i : Nat} (hi : i = front.length)
    (hlen : src.length = mid.length) :
    memcpy (front ++ (mid ++ rest)) i src = some (front ++ (src ++ rest)) := by
  subst hi
  rw [memcpy_of_le (by simp only [List.length_append]; omega)]
  have hdrop : (front ++ (mid ++ rest)).drop (front.length + src.length) = rest := by
    rw [hlen, ← List.append_assoc, ← List.length_append, List.drop_left]
  rw [hdrop, List.take_left, List.append_assoc]

theorem exists_split (block : Bytes) {n : Nat} (h : n ≤ block.length) :
    ∃ front rest, block = front ++ rest ∧ front.length = n :=
  ⟨block.take n, block.drop n, (List.take_append_drop n block).symm, by
    simp only [List.length_take]; omega⟩

/-! ## 4. One read into several buffers -/

/-- Split the bytes of one scatter read over buffers of the given sizes. -/
def splitSizes : List Nat → Bytes → List Bytes
  | [], _ => []
  | size :: sizes, bs => bs.take size :: splitSizes sizes (bs.drop size)

@[simp] theorem splitSizes_singleton {size : Nat} {bs : Bytes} (h : bs.length = size) :
    splitSizes [size] bs = [bs] := by
  simp [splitSizes, ← h]

theorem splitSizes_pair {front rest : Bytes} {a b : Nat} (ha : front.length = a)
    (hb : rest.length = b) : splitSizes [a, b] (front ++ rest) = [front, rest] := by
  subst ha hb
  simp [splitSizes]

/-! ## 5. Streams of frames -/

variable {α : Type*}

/-- Read one frame after the other until nothing is left; `none` when a frame
    is malformed or incomplete, or after `fuel` frames. -/
def parseAll (parse : Bytes → Option (α × Bytes)) : Nat → Bytes → Option (List α)
  | _, [] => some []
  | 0, _ :: _ => none
  | fuel + 1, b :: bs =>
      (parse (b :: bs)).bind fun frame => (parseAll parse fuel frame.2).map (frame.1 :: ·)

/-- The stream law: when each encoded frame is read back from the front of any
    stream, a concatenation of frames parses into exactly its frames. -/
theorem parseAll_flatMap {β : Type*} {parse : Bytes → Option (α × Bytes)} {encode : β → Bytes}
    {view : β → α} {items : List β}
    (hparse : ∀ item ∈ items, ∀ rest, parse (encode item ++ rest) = some (view item, rest))
    (hne : ∀ item ∈ items, encode item ≠ []) {fuel : Nat}
    (hfuel : (items.flatMap encode).length ≤ fuel) :
    parseAll parse fuel (items.flatMap encode) = some (items.map view) := by
  induction items generalizing fuel with
  | nil => cases fuel <;> rfl
  | cons item items ih =>
      have hitem := hparse item (by simp) (items.flatMap encode)
      have hpos : 0 < (encode item).length := List.length_pos_iff.mpr (hne item (by simp))
      rw [List.flatMap_cons, List.length_append] at hfuel
      rw [List.flatMap_cons]
      cases hbytes : encode item ++ items.flatMap encode with
      | nil => simp [hne item (by simp)] at hbytes
      | cons b bs =>
          cases fuel with
          | zero => omega
          | succ fuel =>
              rw [parseAll, ← hbytes, hitem, Option.bind_some,
                ih (fun other h => hparse other (by simp [h]))
                  (fun other h => hne other (by simp [h])) (by omega)]
              rfl

end ByteCodec
