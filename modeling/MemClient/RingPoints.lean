import MemClient.Md5

/-!
# Points of the ring

What `Hash` makes of a digest: it reads four characters of the hex string, not four bytes of
the digest.  Section 2: so a point is worth two bytes of the digest.  Section 3: and every
point is below `2^32`, so that the hashes above the points, which are nearly all, go to one
server.  Section 4: how many points a server gets for its weight.
-/

namespace MemClient

open ByteCodec

namespace ConsistentHashDistri

/-! ## 1. The word that is assembled -/

theorem toNat_charAt (md5Value : Bytes) (i : Nat) :
    (charAt md5Value i).toNat = (md5Value.getD i 0).toNat := by
  have hlt := (md5Value.getD i 0).isLt
  rw [charAt, BitVec.toNat_and, BitVec.toNat_setWidth_of_le (by norm_num)]
  show (md5Value.getD i 0).toNat &&& (2 ^ 8 - 1) = _
  rw [Nat.and_two_pow_sub_one_eq_mod, Nat.mod_eq_of_lt hlt]

/-- Four bytes shifted into one word. -/
theorem toNat_or_shiftLeft {w₀ w₁ w₂ w₃ : BitVec 32} (h₀ : w₀.toNat < 256) (h₁ : w₁.toNat < 256)
    (h₂ : w₂.toNat < 256) (h₃ : w₃.toNat < 256) :
    (w₀ ||| w₁ <<< 8 ||| w₂ <<< 16 ||| w₃ <<< 24).toNat =
      w₀.toNat + 256 * (w₁.toNat + 256 * (w₂.toNat + 256 * w₃.toNat)) := by
  have hshift {w : BitVec 32} {n : Nat} (hn : n ≤ 24) (hw : w.toNat < 256) :
      (w <<< n).toNat = w.toNat <<< n := by
    rw [BitVec.toNat_shiftLeft, Nat.mod_eq_of_lt]
    rw [Nat.shiftLeft_eq]
    calc w.toNat * 2 ^ n < 2 ^ 8 * 2 ^ n := Nat.mul_lt_mul_of_pos_right hw (by positivity)
      _ = 2 ^ (8 + n) := (pow_add 2 8 n).symm
      _ ≤ 2 ^ 32 := Nat.pow_le_pow_right (by norm_num) (by omega)
  -- each word lies above the ones before it, so that `or` is a sum
  rw [BitVec.toNat_or, BitVec.toNat_or, BitVec.toNat_or, hshift (by norm_num) h₁,
    hshift (by norm_num) h₂, hshift (by norm_num) h₃, Nat.or_comm w₀.toNat,
    ← Nat.shiftLeft_add_eq_or_of_lt h₀, Nat.or_comm _ (w₂.toNat <<< 16),
    ← Nat.shiftLeft_add_eq_or_of_lt, Nat.or_comm _ (w₃.toNat <<< 24),
    ← Nat.shiftLeft_add_eq_or_of_lt]
  · simp only [Nat.shiftLeft_eq]
    omega
  · simp only [Nat.shiftLeft_eq]
    omega
  · simp only [Nat.shiftLeft_eq]
    omega

/-- A word that is not negative is widened as it is. -/
theorem val_ofNat_signExtend {word : BitVec 32} (h : word.toNat < 2 ^ 31) :
    (Fin.ofNat (2 ^ 64) (word.signExtend 64).toNat).val = word.toNat := by
  have hmsb : word.msb = false := by
    rw [BitVec.msb_eq_false_iff_two_mul_lt]
    omega
  rw [BitVec.signExtend_eq_setWidth_of_msb_false hmsb, BitVec.toNat_setWidth_of_le (by norm_num)]
  exact Nat.mod_eq_of_lt (by omega)

theorem drop_eq_getD_cons {bs : Bytes} {n : Nat} (h : n < bs.length) :
    bs.drop n = bs.getD n 0 :: bs.drop (n + 1) := by
  rw [List.drop_eq_getElem_cons h, List.getD_eq_getElem?_getD, List.getElem?_eq_getElem h,
    Option.getD_some]

theorem slice_four {bs : Bytes} {n : Nat} (h : n + 4 ≤ bs.length) :
    slice bs n 4 = [bs.getD n 0, bs.getD (n + 1) 0, bs.getD (n + 2) 0, bs.getD (n + 3) 0] := by
  rw [slice, drop_eq_getD_cons (n := n) (by omega), drop_eq_getD_cons (n := n + 1) (by omega),
    drop_eq_getD_cons (n := n + 2) (by omega), drop_eq_getD_cons (n := n + 3) (by omega)]
  rfl

/-- **What `Hash` reads**: with characters below 128, the little-endian number in four
    characters of the string. -/
theorem val_hash {md5Value : Bytes} (hascii : ∀ c ∈ md5Value, c.toNat < 128) {offset : Nat}
    (hlen : 4 * offset + 4 ≤ md5Value.length) :
    (hash md5Value offset).val = leValue (slice md5Value (4 * offset) 4) := by
  have hstart : offset * 4 = 4 * offset := Nat.mul_comm offset 4
  have hbyte (i : Nat) : (charAt md5Value i).toNat < 256 := by
    rw [toNat_charAt]
    exact (md5Value.getD i 0).isLt
  have hword := toNat_or_shiftLeft (hbyte (0 + offset * 4)) (hbyte (1 + offset * 4))
    (hbyte (2 + offset * 4)) (hbyte (3 + offset * 4))
  have hvalue : leValue (slice md5Value (4 * offset) 4) =
      (charAt md5Value (0 + offset * 4)).toNat + 256 * ((charAt md5Value (1 + offset * 4)).toNat +
        256 * ((charAt md5Value (2 + offset * 4)).toNat +
          256 * (charAt md5Value (3 + offset * 4)).toNat)) := by
    rw [slice_four hlen]
    simp only [leValue, toNat_charAt, hstart, Nat.mul_zero, Nat.add_zero, Nat.zero_add,
      Nat.add_comm (4 * offset)]
  have hhigh : (charAt md5Value (3 + offset * 4)).toNat < 128 := by
    rw [toNat_charAt, hstart, Nat.add_comm]
    apply hascii
    apply List.mem_of_mem_drop (i := 4 * offset + 3)
    rw [drop_eq_getD_cons (by omega)]
    exact List.mem_cons_self
  have h₀ := hbyte (0 + offset * 4)
  have h₁ := hbyte (1 + offset * 4)
  have h₂ := hbyte (2 + offset * 4)
  rw [hash, val_ofNat_signExtend, hword, hvalue]
  rw [hword]
  omega

theorem ascii_chars (digest : HexDigest) : ∀ c ∈ digest.chars, c.toNat < 128 := by
  intro c hc
  have h := digest.hex c hc
  omega

/-- No point comes near the end of the hash space. -/
theorem hash_lt (digest : HexDigest) {offset : Nat} (h : offset < 4) :
    (hash digest.chars offset).val < 2 ^ 32 := by
  have hlen : 4 * offset + 4 ≤ digest.chars.length := by
    rw [digest.length_eq]
    omega
  rw [val_hash (ascii_chars digest) hlen]
  have hlt := leValue_lt (slice digest.chars (4 * offset) 4)
  rw [length_slice hlen] at hlt
  exact hlt

/-! ## 2. Points and digests -/

theorem getElem?_flatMap_of_length {α β : Type*} {f : α → List β} {n : Nat}
    (hf : ∀ a, (f a).length = n) (as : List α) {i k : Nat} (hk : k < n) :
    (as.flatMap f)[n * i + k]? = as[i]?.bind fun a => (f a)[k]? := by
  induction as generalizing i with
  | nil => simp
  | cons a as ih =>
      rw [List.flatMap_cons]
      cases i with
      | zero =>
          rw [List.getElem?_append_left (by rw [hf]; omega)]
          simp
      | succ i =>
          have hindex : n * (i + 1) + k - (f a).length = n * i + k := by
            rw [hf, Nat.mul_succ]
            omega
          rw [List.getElem?_append_right (by rw [hf, Nat.mul_succ]; omega), hindex, ih]
          simp

theorem points_eq_flatMap (md5 : Bytes → HexDigest) (replis : BitVec 32) (server : ServerItem) :
    points md5 replis server =
      (List.range (rounds replis server.mWeight)).flatMap fun i : Nat =>
        (List.range 4).map fun h => hash (md5 (server.toString ++ lexicalCast i)).chars h := by
  simp only [points, List.bind_eq_flatMap, List.pure_def, List.flatMap_assoc,
    List.flatMap_singleton]

/-- The points in the order in which `Add` computes them: four of each digest. -/
theorem getElem?_points {md5 : Bytes → HexDigest} {replis : BitVec 32} {server : ServerItem}
    {i h : Nat} {p : HashT} (hh : h < 4) (hp : (points md5 replis server)[4 * i + h]? = some p) :
    p = hash (md5 (server.toString ++ lexicalCast i)).chars h := by
  rw [points_eq_flatMap, getElem?_flatMap_of_length (by simp) _ hh] at hp
  obtain ⟨j, hj, hpoint⟩ := Option.bind_eq_some_iff.mp hp
  obtain rfl : i = j := by
    rw [List.getElem?_eq_some_iff] at hj
    obtain ⟨_, hj⟩ := hj
    rwa [List.getElem_range] at hj
  rw [List.getElem?_map, List.getElem?_range hh, Option.map_some, Option.some.injEq] at hpoint
  exact hpoint.symm

theorem ascii_bytesToHexString (d : Bytes) : ∀ c ∈ MD5.bytesToHexString d, c.toNat < 128 := by
  intro c hc
  obtain ⟨i, hi, rfl⟩ := MD5.mem_bytesToHexString hc
  have h := MD5.HEX_hex i hi
  omega

/-- A point is the number spelled by the characters of two bytes of the digest. -/
theorem val_hash_bytesToHexString {d : Bytes} (hd : d.length = 16) {h : Nat} (hh : h < 4) :
    (hash (MD5.bytesToHexString d) h).val =
      leValue (MD5.bytesToHexString (slice d (2 * h) 2)) := by
  rw [val_hash (ascii_bytesToHexString d) (by rw [MD5.length_bytesToHexString, hd]; omega),
    show 4 * h = 2 * (2 * h) by omega, show 4 = 2 * 2 by rfl, MD5.slice_bytesToHexString]

theorem leValue_inj {xs ys : Bytes} (hlen : xs.length = ys.length) :
    leValue xs = leValue ys ↔ xs = ys := by
  constructor
  · intro h
    rw [← leBytes_leValue_of_length hlen, h, leBytes_leValue]
  · rintro rfl
    rfl

/-- The point is the word of the digest exactly when that word spells two bytes of it. -/
theorem val_hash_eq_word_iff {d : Bytes} (hd : d.length = 16) {h : Nat} (hh : h < 4) :
    (hash (MD5.bytesToHexString d) h).val = leValue (slice d (4 * h) 4) ↔
      slice d (4 * h) 4 = MD5.bytesToHexString (slice d (2 * h) 2) := by
  rw [val_hash_bytesToHexString hd hh, leValue_inj, eq_comm]
  rw [MD5.length_bytesToHexString, length_slice (by omega), length_slice (by omega)]

theorem hash_bytesToHexString_inj {d e : Bytes} (hd : d.length = 16) (he : e.length = 16) {h : Nat}
    (hh : h < 4) :
    hash (MD5.bytesToHexString d) h = hash (MD5.bytesToHexString e) h ↔
      slice d (2 * h) 2 = slice e (2 * h) 2 := by
  rw [← Fin.val_inj, val_hash_bytesToHexString hd hh, val_hash_bytesToHexString he hh, leValue_inj]
  · constructor
    · exact MD5.bytesToHexString_inj
    · intro hsame
      rw [hsame]
  · rw [MD5.length_bytesToHexString, MD5.length_bytesToHexString, length_slice (by omega),
      length_slice (by omega)]

/-- **Points and digest words.**  The point that `Add` places for offset `h` of a replica is
    word `h` of its digest exactly when the four bytes of that word are the characters of
    bytes `2h` and `2h + 1`; and two digests have equal points exactly when their words are
    equal, if and only if those two bytes decide as much as the four. -/
theorem point_eq_word_iff (junk : Nat → Byte) :
    (∀ (replis : BitVec 32) (server : ServerItem) (i h : Nat) (p : HashT), h < 4 →
      (points (MD5.toString junk) replis server)[4 * i + h]? = some p →
      (p.val = leValue (slice (MD5.digest junk (server.toString ++ lexicalCast i)) (4 * h) 4) ↔
        slice (MD5.digest junk (server.toString ++ lexicalCast i)) (4 * h) 4 =
          MD5.bytesToHexString
            (slice (MD5.digest junk (server.toString ++ lexicalCast i)) (2 * h) 2))) ∧
    ∀ (d e : Bytes) (h : Nat), d.length = 16 → e.length = 16 → h < 4 →
      ((hash (MD5.bytesToHexString d) h = hash (MD5.bytesToHexString e) h ↔
          slice d (4 * h) 4 = slice e (4 * h) 4) ↔
        (slice d (2 * h) 2 = slice e (2 * h) 2 ↔ slice d (4 * h) 4 = slice e (4 * h) 4)) := by
  constructor
  · intro replis server i h p hh hp
    rw [getElem?_points hh hp]
    exact val_hash_eq_word_iff (MD5.length_digest _ _) hh
  · intro d e h hd he hh
    rw [hash_bytesToHexString_inj hd he hh]

/-- The first point of host `a`, port 1. -/
theorem point_eq_word_iff_first :
    ∃ p, (points (MD5.toString fun _ => 0) 4 ⟨1, [97], 1, 1⟩)[0]? = some p ∧
      (p.val = leValue (slice (MD5.digest (fun _ => 0) [97, 49, 48]) 0 4) ↔
        slice (MD5.digest (fun _ => 0) [97, 49, 48]) 0 4 =
          MD5.bytesToHexString (slice (MD5.digest (fun _ => 0) [97, 49, 48]) 0 2)) := by
  have hsome : ((points (MD5.toString fun _ => 0) 4 ⟨1, [97], 1, 1⟩)[0]?).isSome := by
    decide +kernel
  obtain ⟨p, hp⟩ := Option.isSome_iff_exists.mp hsome
  exact ⟨p, hp, (point_eq_word_iff _).1 4 ⟨1, [97], 1, 1⟩ 0 0 p (by decide) hp⟩

/-- The digest of `a10` is another number than the first point of host `a`, port 1; and the
    digests `0, 0, 1, 0, ...` and `0, 0, 0, 0, ...` have the same first point. -/
theorem point_ne_word :
    (∃ p, (points (MD5.toString fun _ => 0) 4 ⟨1, [97], 1, 1⟩)[0]? = some p ∧
      p.val ≠ leValue (slice (MD5.digest (fun _ => 0) [97, 49, 48]) 0 4)) ∧
    hash (MD5.bytesToHexString (0 :: 0 :: 1 :: List.replicate 13 0)) 0 =
        hash (MD5.bytesToHexString (List.replicate 16 0)) 0 ∧
      slice (0 :: 0 :: 1 :: List.replicate 13 0) 0 4 ≠ slice (List.replicate 16 0) 0 4 := by
  refine ⟨?_, by decide +kernel, by decide⟩
  have hany : ((points (MD5.toString fun _ => 0) 4 ⟨1, [97], 1, 1⟩)[0]?).any (fun p =>
      decide (p.val ≠ leValue (slice (MD5.digest (fun _ => 0) [97, 49, 48]) 0 4))) = true := by
    decide +kernel
  obtain ⟨p, hp, hne⟩ := (Option.any_eq_true _ _).mp hany
  exact ⟨p, hp, of_decide_eq_true hne⟩

/-! ## 3. Hashes above the points -/

variable (md5 : Bytes → HexDigest)

/-- The hashes from `2^32` on are not all sent to one server. -/
def SpreadsHigh (ring : ConsistentHashDistri) : Prop :=
  ¬ ∃ server, ∀ h : HashT, 2 ^ 32 ≤ h.val → get ring h = some server

def PointsBelow (bound : Nat) (ring : ConsistentHashDistri) : Prop :=
  ∀ p, (ring.mCircle.find? p).isSome → p.val < bound

theorem lt_of_mem_points {replis : BitVec 32} {server : ServerItem} {p : HashT}
    (hp : p ∈ points md5 replis server) : p.val < 2 ^ 32 := by
  rw [points_eq_flatMap] at hp
  obtain ⟨i, -, hp⟩ := List.mem_flatMap.mp hp
  obtain ⟨h, hh, rfl⟩ := List.mem_map.mp hp
  exact hash_lt _ (List.mem_range.mp hh)

/-- An operation places no point from `2^32` on. -/
theorem pointsBelow_apply {ring : ConsistentHashDistri} (h : PointsBelow (2 ^ 32) ring)
    (op : RingOp) : PointsBelow (2 ^ 32) (apply md5 ring op) := by
  intro p hp
  cases op with
  | add server =>
      have hp : ((add md5 ring server).mCircle.find? p).isSome := hp
      rw [find?_add] at hp
      split at hp
      · next hmem => exact lt_of_mem_points md5 hmem
      · exact h p hp
  | remove server =>
      have hp : ((remove ring server).mCircle.find? p).isSome := hp
      rw [find?_remove] at hp
      split at hp
      · cases hp
      · exact h p hp
  | clear => cases hp

theorem pointsBelow_runOps (replis : BitVec 32) (ops : List RingOp) :
    PointsBelow (2 ^ 32) (runOps md5 replis ops) := by
  have hrun (ring : ConsistentHashDistri) (h : PointsBelow (2 ^ 32) ring) :
      PointsBelow (2 ^ 32) (ops.foldl (apply md5) ring) := by
    induction ops generalizing ring with
    | nil => exact h
    | cons op ops ih => exact ih _ (pointsBelow_apply md5 h op)
  apply hrun
  intro p hp
  cases hp

/-- A ring with points below the bound sends every hash from the bound on to one server. -/
theorem PointsBelow.get_above {ring : ConsistentHashDistri} {bound : Nat}
    (hbelow : PointsBelow bound ring) {h h' : HashT} (hh : bound ≤ h.val) (hh' : bound ≤ h'.val)
    {server : ServerItem} (hget : get ring h = some server) : get ring h' = some server := by
  rw [get_eq_some_iff] at hget ⊢
  apply hget.of_above
  · exact fun p hp => Fin.lt_def.mpr ((hbelow p hp).trans_le hh)
  · exact fun p hp => Fin.lt_def.mpr ((hbelow p hp).trans_le hh')

theorem exists_get_above {replis : BitVec 32} {ops : List RingOp} {p : HashT} {holder : ServerItem}
    (hp : (runOps md5 replis ops).mCircle.find? p = some holder) :
    ∃ server, ∀ h : HashT, 2 ^ 32 ≤ h.val → get (runOps md5 replis ops) h = some server := by
  cases hget : get (runOps md5 replis ops) (Fin.ofNat _ (2 ^ 32)) with
  | none =>
      have hnone := get_eq_none_iff.mp hget p
      rw [hp] at hnone
      cases hnone
  | some server =>
      refine ⟨server, fun h hh => ?_⟩
      exact (pointsBelow_runOps md5 replis ops).get_above (by decide) hh hget

/-- **Hashes above the points.**  No ring with a point spreads them, however many servers hold
    points. -/
theorem not_spreadsHigh {replis : BitVec 32} {ops : List RingOp} {p : HashT} {holder : ServerItem}
    (hp : (runOps md5 replis ops).mCircle.find? p = some holder) :
    ¬ SpreadsHigh (runOps md5 replis ops) :=
  not_not_intro (exists_get_above md5 hp)

/-- Hosts `a` and `b`, with the points that the program's MD5 gives them. -/
def ringOfTwo : ConsistentHashDistri :=
  runOps (MD5.toString fun _ => 0) 4 [.add ⟨1, [97], 1, 1⟩, .add ⟨2, [98], 1, 1⟩]

theorem points_ringOfTwo :
    (∃ p, ringOfTwo.mCircle.find? p = some ⟨1, [97], 1, 1⟩) ∧
      ∃ q, ringOfTwo.mCircle.find? q = some ⟨2, [98], 1, 1⟩ := by
  have hholders : ⟨1, [97], 1, 1⟩ ∈ ringOfTwo.mCircle.entries.map Prod.snd ∧
      ⟨2, [98], 1, 1⟩ ∈ ringOfTwo.mCircle.entries.map Prod.snd := by
    decide +kernel
  have hpoint {server : ServerItem} (h : server ∈ ringOfTwo.mCircle.entries.map Prod.snd) :
      ∃ p, ringOfTwo.mCircle.find? p = some server := by
    obtain ⟨⟨p, _⟩, hmem, rfl⟩ := List.mem_map.mp h
    exact ⟨p, ringOfTwo.mCircle.find?_eq_some_iff.mpr hmem⟩
  exact ⟨hpoint hholders.1, hpoint hholders.2⟩

theorem not_spreadsHigh_two :
    ¬ SpreadsHigh (runOps (MD5.toString fun _ => 0) 4
      [.add ⟨1, [97], 1, 1⟩, .add ⟨2, [98], 1, 1⟩]) := by
  obtain ⟨p, hp⟩ := points_ringOfTwo.1
  exact not_spreadsHigh (MD5.toString fun _ => 0) hp

/-- Both hosts hold points, and one of them gets every hash from `2^32` on. -/
theorem ringOfTwo_sends_high_to_one :
    (∃ p q server other, ringOfTwo.mCircle.find? p = some server ∧
      ringOfTwo.mCircle.find? q = some other ∧ server ≠ other) ∧ ¬ SpreadsHigh ringOfTwo := by
  obtain ⟨⟨p, hp⟩, q, hq⟩ := points_ringOfTwo
  exact ⟨⟨p, q, _, _, hp, hq, by decide⟩, not_not_intro (exists_get_above _ hp)⟩

/-! ## 4. Points and weights -/

variable {md5} {r w w' : BitVec 32}

/-- What `Add` should do for a server of weight `w` on a ring of replication `r`. -/
structure ReplicasPlaced (r w : BitVec 32) : Prop where
  digests : rounds r w = r.toNat * w.toNat / 4
  points_length : ∀ md5 (server : ServerItem), server.mWeight = w →
    (points md5 r server).length = 4 * (r.toNat * w.toNat / 4)
  owned : ∀ md5 (ring : ConsistentHashDistri) (server : ServerItem), ring.mReplications = r →
    server.mWeight = w → ∀ p ∈ points md5 r server,
      (add md5 ring server).mCircle.find? p = some server
  chosen : 4 ≤ r.toNat * w.toNat → ∀ md5 (ring : ConsistentHashDistri) (server : ServerItem),
    ring.mReplications = r → server.mWeight = w → ∃ h, get (add md5 ring server) h = some server

/-- The points follow the weights: each of the two servers gets its points, and the heavier
    one no fewer. -/
structure FollowsWeights (r w w' : BitVec 32) : Prop where
  lighter : ReplicasPlaced r w
  heavier : ReplicasPlaced r w'
  monotone : ∀ md5 (server server' : ServerItem), server.mWeight = w → server'.mWeight = w' →
    (points md5 r server).length ≤ (points md5 r server').length

/-- The mask of `Add` keeps the product up to its last two bits. -/
def KeptByMask (r w : BitVec 32) : Prop :=
  r.toNat * w.toNat < 2 ^ 28 ∧ r.toNat * w.toNat % 16 < 8

theorem testBit_mask : ∀ i < 26, i ≠ 1 → (0x23FFFFFD).testBit i = true := by decide

theorem testBit_mask_false : ∀ i < 29, i = 1 ∨ 26 ≤ i → (0x23FFFFFD).testBit i = false := by decide

/-- The mask without its last two bits, on numbers that fit an `int` when these are back. -/
theorem and_mask_eq_self_iff {y : Nat} (hy : y < 2 ^ 29) :
    y &&& 0x23FFFFFD = y ↔ y < 2 ^ 26 ∧ y / 2 % 2 = 0 := by
  constructor
  · intro hkeep
    have hclear (i : Nat) (hi : i < 29) (hmask : i = 1 ∨ 26 ≤ i) : y.testBit i = false := by
      rw [← hkeep, Nat.testBit_and, testBit_mask_false i hi hmask, Bool.and_false]
    constructor
    · apply Nat.lt_pow_two_of_testBit
      intro i hi
      by_cases hlt : i < 29
      · exact hclear i hlt (Or.inr hi)
      · exact Nat.testBit_lt_two_pow (hy.trans_le (Nat.pow_le_pow_right (by norm_num) (by omega)))
    · have hone := hclear 1 (by norm_num) (Or.inl rfl)
      rw [Nat.testBit_eq_decide_div_mod_eq] at hone
      have hne := of_decide_eq_false hone
      omega
  · rintro ⟨hlt, hone⟩
    apply Nat.eq_of_testBit_eq
    intro i
    rw [Nat.testBit_and]
    by_cases hi : i < 26
    · by_cases hfirst : i = 1
      · have hbit : y.testBit 1 = false := by
          rw [Nat.testBit_eq_decide_div_mod_eq]
          simpa using hone
        rw [hfirst, hbit]
        rfl
      · rw [testBit_mask i hi hfirst, Bool.and_true]
    · have hbit : y.testBit i = false :=
        Nat.testBit_lt_two_pow (hlt.trans_le (Nat.pow_le_pow_right (by norm_num) (by omega)))
      rw [hbit]
      rfl

/-- Two numbers that are not negative and whose product is an `int`. -/
structure FitInt (r w : BitVec 32) : Prop where
  left : 0 ≤ r.toInt
  right : 0 ≤ w.toInt
  product : r.toInt * w.toInt ≤ 2 ^ 31 - 1

theorem toInt_of_nonneg {x : BitVec 32} (h : 0 ≤ x.toInt) : x.toInt = x.toNat := by
  have hlt := x.isLt
  rw [BitVec.toInt_eq_toNat_cond] at h ⊢
  split at h
  · next hsmall => rw [if_pos hsmall]
  · omega

theorem FitInt.toNat_mul_lt (h : FitInt r w) : r.toNat * w.toNat < 2 ^ 31 := by
  have hproduct := h.product
  rw [toInt_of_nonneg h.left, toInt_of_nonneg h.right] at hproduct
  have hcast : ((r.toNat * w.toNat : Nat) : Int) ≤ 2 ^ 31 - 1 := by
    push_cast
    exact hproduct
  omega

theorem rounds_eq (h : FitInt r w) : rounds r w = r.toNat * w.toNat / 4 &&& 0x23FFFFFD := by
  have hlt := h.toNat_mul_lt
  have hmask : ((r * w) &&& 0x8FFFFFF4).toNat = r.toNat * w.toNat &&& 0x8FFFFFF4 := by
    rw [BitVec.toNat_and, BitVec.toNat_mul, Nat.mod_eq_of_lt (by omega)]
    rfl
  have hle : r.toNat * w.toNat &&& 0x8FFFFFF4 ≤ r.toNat * w.toNat := Nat.and_le_left
  have hnat : ((r.toNat * w.toNat &&& 0x8FFFFFF4 : Nat) : Int).tdiv 4 =
      ((r.toNat * w.toNat &&& 0x8FFFFFF4) / 4 : Nat) := rfl
  rw [rounds, BitVec.toInt_eq_toNat_of_lt (by rw [hmask]; omega), hmask, hnat, Int.toNat_natCast]
  have hshift := Nat.shiftRight_and_distrib (a := r.toNat * w.toNat) (b := 0x8FFFFFF4) (i := 2)
  simpa only [Nat.shiftRight_eq_div_pow] using hshift

/-- The rounding is the one that was meant exactly for the products that the mask keeps. -/
theorem rounds_eq_div_iff (h : FitInt r w) :
    rounds r w = r.toNat * w.toNat / 4 ↔ KeptByMask r w := by
  have hlt := h.toNat_mul_lt
  rw [rounds_eq h, and_mask_eq_self_iff (by omega), KeptByMask]
  omega

theorem length_points (md5 : Bytes → HexDigest) (r : BitVec 32) (server : ServerItem) :
    (points md5 r server).length = 4 * rounds r server.mWeight := by
  rw [points_eq_flatMap, List.length_flatMap]
  simp [Nat.mul_comm]

theorem replicasPlaced_iff (h : FitInt r w) : ReplicasPlaced r w ↔ KeptByMask r w := by
  rw [← rounds_eq_div_iff h]
  constructor
  · exact ReplicasPlaced.digests
  · intro hrounds
    have howned (md5 : Bytes → HexDigest) (ring : ConsistentHashDistri) (server : ServerItem)
        (hr : ring.mReplications = r) (p : HashT) (hp : p ∈ points md5 r server) :
        (add md5 ring server).mCircle.find? p = some server := by
      rw [find?_add, hr, if_pos hp]
    refine ⟨hrounds, ?_, fun md5 ring server hr _ => howned md5 ring server hr, ?_⟩
    · intro md5 server hw
      rw [length_points, hw, hrounds]
    · intro hfour md5 ring server hr hw
      have hlen : 0 < (points md5 r server).length := by
        rw [length_points, hw, hrounds]
        omega
      obtain ⟨p, hp⟩ := List.exists_mem_of_length_pos hlen
      exact ⟨p, get_of_find? (howned md5 ring server hr p hp)⟩

/-- **Points and weights.**  A lighter and a heavier server both get the points of their
    weight, and the heavier one no fewer, exactly when both products lie below `2^28` and
    have a remainder below 8 modulo 16. -/
theorem followsWeights_iff (h : FitInt r w) (h' : FitInt r w') (hle : w.toInt ≤ w'.toInt) :
    FollowsWeights r w w' ↔ KeptByMask r w ∧ KeptByMask r w' := by
  rw [← replicasPlaced_iff h, ← replicasPlaced_iff h']
  constructor
  · exact fun hfollows => ⟨hfollows.lighter, hfollows.heavier⟩
  · rintro ⟨hlighter, hheavier⟩
    refine ⟨hlighter, hheavier, ?_⟩
    intro md5 server server' hw hw'
    have hnat : w.toNat ≤ w'.toNat := by
      rw [toInt_of_nonneg h.right, toInt_of_nonneg h'.right] at hle
      exact Int.ofNat_le.mp hle
    have hproduct : r.toNat * w.toNat ≤ r.toNat * w'.toNat := Nat.mul_le_mul_left _ hnat
    rw [hlighter.points_length md5 server hw, hheavier.points_length md5 server' hw']
    omega

/-- With 160 replicas, the weights 1 and 3. -/
theorem followsWeights_160 : FollowsWeights 160 1 3 :=
  (followsWeights_iff ⟨by decide, by decide, by decide⟩ ⟨by decide, by decide, by decide⟩
    (by decide)).mpr ⟨⟨by decide, by decide⟩, ⟨by decide, by decide⟩⟩

/-- The 200 replicas that a `ServerList` has by default give a server of weight 1 the points
    of 48 digests; and with one replica, weight 8 gets none where weight 4 gets some. -/
theorem not_followsWeights_default :
    rounds 200 1 = 48 ∧ ¬ FollowsWeights 200 1 1 ∧ rounds 1 8 < rounds 1 4 := by
  refine ⟨by decide, ?_, by decide⟩
  intro hfollows
  exact absurd hfollows.lighter.digests (by decide)

end ConsistentHashDistri

end MemClient
