import MemClient.RingPoints

/-!
# Labels of ring points

`Add` feeds MD5 the string of the server followed by the decimal number of the replica, with
nothing between them.  Section 1: decimal numerals and their fronts.  Section 2: for which
servers the labels differ, and what servers with a common label share.
-/

namespace MemClient

open ByteCodec

/-! ## 1. Decimal numerals -/

theorem decimal_of_lt {n : Nat} (h : n < 10) : decimal n = [BitVec.ofNat 8 (48 + n)] := by
  unfold decimal
  split
  · next hzero =>
      rw [hzero]
      rfl
  · next hne =>
      rw [Nat.digits_of_lt 10 n hne h]
      rfl

/-- The last digit behind the numeral of the others. -/
theorem decimal_of_ge {n : Nat} (h : 10 ≤ n) :
    decimal n = decimal (n / 10) ++ [BitVec.ofNat 8 (48 + n % 10)] := by
  have hdigits : Nat.digits 10 n = n % 10 :: Nat.digits 10 (n / 10) :=
    Nat.digits_def' (by norm_num) (by omega)
  unfold decimal
  rw [if_neg (by omega), if_neg (by omega), hdigits, List.reverse_cons, List.map_append]
  rfl

theorem decimal_ne_nil (n : Nat) : decimal n ≠ [] := by
  rcases Nat.lt_or_ge n 10 with hlt | hge
  · rw [decimal_of_lt hlt]
    exact List.cons_ne_nil _ _
  · rw [decimal_of_ge hge]
    exact List.append_ne_nil_of_right_ne_nil _ (List.cons_ne_nil _ _)

theorem decimal_mul_ten {v : Nat} (h : 1 ≤ v) : decimal (10 * v) = decimal v ++ decimal 0 := by
  rw [decimal_of_ge (by omega), Nat.mul_div_cancel_left v (by norm_num), Nat.mul_mod_right]
  rfl

/-- A proper front of a numeral is a numeral, and not zero. -/
theorem exists_decimal_of_front {i : Nat} {front rest : Bytes} (h : decimal i = front ++ rest)
    (hfront : front ≠ []) (hrest : rest ≠ []) :
    ∃ v, 1 ≤ v ∧ 10 * v ≤ i ∧ front = decimal v := by
  induction i using Nat.strong_induction_on generalizing rest with
  | _ i ih =>
      obtain ⟨rest, c, rfl⟩ := (List.eq_nil_or_concat rest).resolve_left hrest
      rw [List.concat_eq_append] at h
      rcases Nat.lt_or_ge i 10 with hlt | hge
      · -- one digit has no proper front
        have hlen := congrArg List.length h
        have hpos := List.length_pos_of_ne_nil hfront
        rw [decimal_of_lt hlt] at hlen
        simp only [List.length_append, List.length_cons, List.length_nil] at hlen
        omega
      · rw [decimal_of_ge hge, ← List.append_assoc] at h
        obtain ⟨hfirst, -⟩ := List.append_inj' h rfl
        by_cases hnil : rest = []
        · rw [hnil, List.append_nil] at hfirst
          exact ⟨i / 10, by omega, by omega, hfirst.symm⟩
        · obtain ⟨v, hv, hle, rfl⟩ := ih (i / 10) (by omega) hfirst hnil
          exact ⟨v, hv, by omega, rfl⟩

/-! ## 2. Labels -/

namespace ConsistentHashDistri

/-- What `Add` feeds to MD5 for replica `i`. -/
def label (server : ServerItem) (i : Nat) : Bytes := server.toString ++ lexicalCast i

/-- The labels of the two servers' replicas differ. -/
def LabelsApart (replis : BitVec 32) (server other : ServerItem) : Prop :=
  ∀ i < rounds replis server.mWeight, ∀ j < rounds replis other.mWeight,
    label server i ≠ label other j

/-- The string of `other` is the string of `server` and a numeral, of a number small enough
    that ten times it is still a replica. -/
def Continues (replis : BitVec 32) (server other : ServerItem) : Prop :=
  0 < rounds replis other.mWeight ∧
    ∃ v, 1 ≤ v ∧ 10 * v < rounds replis server.mWeight ∧
      other.toString = server.toString ++ decimal v

variable {replis : BitVec 32} {server other : ServerItem}

theorem label_eq (server : ServerItem) (i : Nat) :
    label server i = server.toString ++ decimal i := by
  rw [label, lexicalCast, if_neg (by omega), Int.natAbs_natCast]

/-- Replica `10 * v` of the one and replica 0 of the other. -/
theorem Continues.exists_label_eq (h : Continues replis server other) :
    ∃ i < rounds replis server.mWeight, ∃ j < rounds replis other.mWeight,
      label server i = label other j := by
  obtain ⟨hpos, v, hv, hlt, hstring⟩ := h
  refine ⟨10 * v, hlt, 0, hpos, ?_⟩
  rw [label_eq, label_eq, hstring, decimal_mul_ten hv, List.append_assoc]

/-- The label with the shorter string spells the rest of the longer one. -/
theorem continues_of_append_eq {i j : Nat} (hne : server.toString ≠ other.toString)
    (hi : i < rounds replis server.mWeight) (hj : j < rounds replis other.mWeight)
    {rest : Bytes} (hstring : other.toString = server.toString ++ rest)
    (hdecimal : decimal i = rest ++ decimal j) : Continues replis server other := by
  have hrest : rest ≠ [] := by
    rintro rfl
    rw [List.append_nil] at hstring
    exact hne hstring.symm
  obtain ⟨v, hv, hle, rfl⟩ := exists_decimal_of_front hdecimal hrest (decimal_ne_nil j)
  exact ⟨by omega, v, hv, by omega, hstring⟩

/-- **Labels of two servers.**  They differ for all replicas exactly when neither server's
    string continues the other's with such a number. -/
theorem labelsApart_iff (hne : server.toString ≠ other.toString) :
    LabelsApart replis server other ↔
      ¬ Continues replis server other ∧ ¬ Continues replis other server := by
  constructor
  · intro hapart
    constructor
    · intro hcontinues
      obtain ⟨i, hi, j, hj, heq⟩ := hcontinues.exists_label_eq
      exact hapart i hi j hj heq
    · intro hcontinues
      obtain ⟨j, hj, i, hi, heq⟩ := hcontinues.exists_label_eq
      exact hapart i hi j hj heq.symm
  · rintro ⟨hserver, hother⟩ i hi j hj heq
    rw [label_eq, label_eq] at heq
    rcases List.append_eq_append_iff.mp heq with
      ⟨rest, hstring, hdecimal⟩ | ⟨rest, hstring, hdecimal⟩
    · exact hserver (continues_of_append_eq hne hi hj hstring hdecimal)
    · exact hother (continues_of_append_eq hne.symm hj hi hstring hdecimal)

/-- The labels of hosts `a` and `b` with port 1. -/
theorem labelsApart_two_hosts : LabelsApart 200 ⟨1, [97], 1, 1⟩ ⟨2, [98], 1, 1⟩ := by
  have hlen {front : Bytes} {v : Nat} (hlength : front.length = 2) :
      (front ++ decimal v).length ≠ 2 := by
    have hpos := List.length_pos_of_ne_nil (decimal_ne_nil v)
    rw [List.length_append]
    omega
  refine (labelsApart_iff (by decide)).mpr ⟨?_, ?_⟩
  · rintro ⟨-, v, -, -, hstring⟩
    exact hlen (by decide) (congrArg List.length hstring).symm
  · rintro ⟨-, v, -, -, hstring⟩
    exact hlen (by decide) (congrArg List.length hstring).symm

/-- Ports 1 and 11 of one host: replica 10 of the first is labelled as replica 0 of the
    second. -/
theorem not_labelsApart_ports :
    ServerItem.toString ⟨1, [97], 1, 1⟩ ≠ ServerItem.toString ⟨2, [97], 11, 1⟩ ∧
      ¬ LabelsApart 200 ⟨1, [97], 1, 1⟩ ⟨2, [97], 11, 1⟩ := by
  refine ⟨by decide, ?_⟩
  intro hapart
  exact hapart 10 (by decide) 0 (by decide) (by decide)

/-- Servers with a common label compete for a group of four points, whatever the digest. -/
theorem Continues.shared_points (md5 : Bytes → HexDigest) (h : Continues replis server other) :
    ∃ i j, ∀ k < 4,
      hash (md5 (label server i)).chars k ∈ points md5 replis server ∧
      hash (md5 (label server i)).chars k = hash (md5 (label other j)).chars k ∧
      hash (md5 (label other j)).chars k ∈ points md5 replis other := by
  obtain ⟨i, hi, j, hj, heq⟩ := h.exists_label_eq
  have hmem {server : ServerItem} {i k : Nat} (hi : i < rounds replis server.mWeight) (hk : k < 4) :
      hash (md5 (label server i)).chars k ∈ points md5 replis server := by
    rw [points_eq_flatMap]
    exact List.mem_flatMap.mpr ⟨i, List.mem_range.mpr hi,
      List.mem_map.mpr ⟨k, List.mem_range.mpr hk, rfl⟩⟩
  exact ⟨i, j, fun k hk => ⟨hmem hi hk, by rw [heq], hmem hj hk⟩⟩

end ConsistentHashDistri

end MemClient
