import Mathlib.Data.List.Palindrome
import MemClient.ByteCodec

/-!
# Host and network byte order

The byte-order conversions the client applies to protocol fields, on a
little-endian host: the C library's `htons`, `htonl` and their inverses reverse
the in-memory bytes; `htonll` and `ntohll` are the repository's own
(`network/HostNetConversion.cpp`).
-/

namespace MemClient

open ByteCodec

/-- Reverse the `n` in-memory bytes of an integer of `8 * n` bits. -/
def swapBytes (n : Nat) {w : Nat} (x : BitVec w) : BitVec w :=
  BitVec.ofNat w (beValue (leBytes n x.toNat))

theorem toNat_swapBytes {n w : Nat} (hw : 2 ^ w = 256 ^ n) (x : BitVec w) :
    (swapBytes n x).toNat = beValue (leBytes n x.toNat) := by
  have hlt := beValue_lt (leBytes n x.toNat)
  rw [length_leBytes, ← hw] at hlt
  rw [swapBytes, BitVec.toNat_ofNat, Nat.mod_eq_of_lt hlt]

theorem leBytes_swapBytes {n w : Nat} (hw : 2 ^ w = 256 ^ n) (x : BitVec w) :
    leBytes n (swapBytes n x).toNat = beBytes n x.toNat := by
  rw [toNat_swapBytes hw, beValue]
  exact leBytes_leValue_of_length (by simp)

theorem swapBytes_swapBytes {n w : Nat} (hw : 2 ^ w = 256 ^ n) (x : BitVec w) :
    swapBytes n (swapBytes n x) = x := by
  have hlt : x.toNat < 256 ^ n := hw ▸ x.isLt
  apply BitVec.eq_of_toNat_eq
  rw [toNat_swapBytes hw, leBytes_swapBytes hw, beValue_beBytes, Nat.mod_eq_of_lt hlt]

/-- Loading a field from its memory image and swapping it reads the image as a
    big-endian number. -/
theorem toNat_swapBytes_ofNat_leValue {n w : Nat} (hw : 2 ^ w = 256 ^ n) {bs : Bytes}
    (hbs : bs.length = n) : (swapBytes n (BitVec.ofNat w (leValue bs))).toNat = beValue bs := by
  have hlt := leValue_lt bs
  rw [hbs, ← hw] at hlt
  rw [toNat_swapBytes hw, BitVec.toNat_ofNat, Nat.mod_eq_of_lt hlt,
    leBytes_leValue_of_length hbs]

def htons (x : BitVec 16) : BitVec 16 := swapBytes 2 x
def htonl (x : BitVec 32) : BitVec 32 := swapBytes 4 x
def ntohs (x : BitVec 16) : BitVec 16 := swapBytes 2 x
def ntohl (x : BitVec 32) : BitVec 32 := swapBytes 4 x

/-- The macro that selects the swapping branch of `mc_swap64`; no build file of
    the repository defines it. -/
def ENDIAN_LITTLE : Bool := false

/-- The eight rounds of the swapping branch: the low byte of `val` moves to the
    low end of `rv`. -/
def mcSwapLoop : Nat → BitVec 64 → BitVec 64 → BitVec 64
  | 0, rv, _ => rv
  | rounds + 1, rv, val => mcSwapLoop rounds ((rv <<< 8) ||| (val &&& 0xff)) (val >>> 8)

def mcSwap64 (val : BitVec 64) : BitVec 64 :=
  if ENDIAN_LITTLE then mcSwapLoop 8 0 val else val

def ntohll (val : BitVec 64) : BitVec 64 := mcSwap64 val
def htonll (val : BitVec 64) : BitVec 64 := mcSwap64 val

/-! ## 64 bits in network order -/

/-- The two halves of a 64-bit number, converted and exchanged. -/
def exchangeHalves (x : BitVec 64) : BitVec 64 :=
  (htonl (x.setWidth 32)).setWidth 64 <<< 32 ||| (htonl ((x >>> 32).setWidth 32)).setWidth 64

/-- That is the reversal of all eight bytes. -/
theorem exchangeHalves_eq (x : BitVec 64) : exchangeHalves x = swapBytes 8 x := by
  have hlow : leBytes 4 (x.setWidth 32).toNat = leBytes 4 x.toNat := by
    rw [BitVec.toNat_setWidth]
    exact leBytes_mod 4 x.toNat
  have hhigh : leBytes 4 ((x >>> 32).setWidth 32).toNat = leBytes 4 (x.toNat / 256 ^ 4) := by
    rw [BitVec.toNat_setWidth, BitVec.toNat_ushiftRight, Nat.shiftRight_eq_div_pow]
    exact leBytes_mod 4 (x.toNat / 256 ^ 4)
  have hvalue : beValue (leBytes 8 x.toNat) =
      (htonl (x.setWidth 32)).toNat * 2 ^ 32 + (htonl ((x >>> 32).setWidth 32)).toNat := by
    rw [htonl, htonl, toNat_swapBytes (by norm_num), toNat_swapBytes (by norm_num), hlow, hhigh,
      leBytes_add 4 4, beValue, List.reverse_append, leValue_append, List.length_reverse,
      length_leBytes, beValue, beValue]
    ring
  have hlt := (htonl ((x >>> 32).setWidth 32)).isLt
  have hlt' := (htonl (x.setWidth 32)).isLt
  apply BitVec.eq_of_toNat_eq
  rw [toNat_swapBytes (by norm_num), hvalue, exchangeHalves, BitVec.toNat_or,
    BitVec.toNat_shiftLeft, BitVec.toNat_setWidth_of_le (by norm_num),
    BitVec.toNat_setWidth_of_le (by norm_num), Nat.shiftLeft_eq, Nat.mod_eq_of_lt (by omega),
    ← Nat.shiftLeft_eq, ← Nat.shiftLeft_add_eq_or_of_lt hlt, Nat.shiftLeft_eq]

/-- What the build leaves out would do it: after its rounds the low bytes of `val` stand
    in `rv`, the lowest first. -/
theorem toNat_mcSwapLoop (rounds : Nat) (rv val : BitVec 64) :
    (mcSwapLoop rounds rv val).toNat =
      (rv.toNat * 256 ^ rounds + beValue (leBytes rounds val.toNat)) % 2 ^ 64 := by
  induction rounds generalizing rv val with
  | zero =>
      have hlt := rv.isLt
      simp only [mcSwapLoop, leBytes, beValue, List.reverse_nil, leValue]
      omega
  | succ rounds ih =>
      have hlow : (val &&& 0xff).toNat = val.toNat % 256 :=
        (BitVec.toNat_and ..).trans (Nat.and_two_pow_sub_one_eq_mod val.toNat 8)
      have hshift : (rv <<< 8).toNat = rv.toNat % 2 ^ 56 * 256 := by
        rw [BitVec.toNat_shiftLeft, Nat.shiftLeft_eq]
        omega
      have hround : ((rv <<< 8) ||| (val &&& 0xff)).toNat =
          rv.toNat % 2 ^ 56 * 256 + val.toNat % 256 := by
        have hlt : val.toNat % 256 < 2 ^ 8 := Nat.mod_lt _ (by norm_num)
        have hadd := Nat.shiftLeft_add_eq_or_of_lt hlt (rv.toNat % 2 ^ 56)
        rw [Nat.shiftLeft_eq] at hadd
        rw [BitVec.toNat_or, hlow, hshift]
        exact hadd.symm
      have hmod : rv.toNat % 2 ^ 56 * 256 ≡ rv.toNat * 256 [MOD 2 ^ 64] :=
        (Nat.mod_modEq rv.toNat (2 ^ 56)).mul_right' 256
      rw [mcSwapLoop, ih, hround, BitVec.toNat_ushiftRight, Nat.shiftRight_eq_div_pow, leBytes,
        beValue, beValue, List.reverse_cons, leValue_append, List.length_reverse, length_leBytes]
      have hbyte : leValue [BitVec.ofNat 8 val.toNat] = val.toNat % 256 := by
        simp [leValue]
      rw [hbyte]
      calc (rv.toNat % 2 ^ 56 * 256 + val.toNat % 256) * 256 ^ rounds +
            leValue (leBytes rounds (val.toNat / 2 ^ 8)).reverse
          ≡ (rv.toNat * 256 + val.toNat % 256) * 256 ^ rounds +
            leValue (leBytes rounds (val.toNat / 2 ^ 8)).reverse [MOD 2 ^ 64] :=
          ((hmod.add_right _).mul_right _).add_right _
        _ = _ := by
          rw [show 2 ^ 8 = 256 by rfl]
          ring

theorem mcSwapLoop_eq (val : BitVec 64) : mcSwapLoop 8 0 val = swapBytes 8 val := by
  have hlt := (swapBytes 8 val).isLt
  apply BitVec.eq_of_toNat_eq
  rw [toNat_swapBytes (by norm_num)] at hlt ⊢
  rw [toNat_mcSwapLoop, show (0 : BitVec 64).toNat = 0 from rfl, Nat.zero_mul, Nat.zero_add,
    Nat.mod_eq_of_lt hlt]

/-- A number whose bytes are the same in both orders. -/
theorem leBytes_eq_beBytes_iff {n x : Nat} :
    leBytes n x = beBytes n x ↔ (leBytes n x).Palindrome := by
  rw [List.Palindrome.iff_reverse_eq, eq_comm]
  rfl

/-- **64 bits in network order.**  As built, `htonll` puts a number into network order
    exactly when the number's bytes read the same from both ends. -/
theorem htonll_iff (x : BitVec 64) :
    (htonll x = exchangeHalves x ∧ leBytes 8 (htonll x).toNat = beBytes 8 x.toNat ∧
      ntohll (htonll x) = x) ↔ (leBytes 8 x.toNat).Palindrome := by
  have hsame : htonll x = x := rfl
  rw [hsame, ← leBytes_eq_beBytes_iff]
  constructor
  · exact fun h => h.2.1
  · intro hbytes
    refine ⟨?_, hbytes, rfl⟩
    rw [exchangeHalves_eq]
    apply BitVec.eq_of_toNat_eq
    have hlt := x.isLt
    have hvalue := leValue_leBytes 8 x.toNat
    rw [hbytes, Nat.mod_eq_of_lt (by omega)] at hvalue
    rw [toNat_swapBytes (by norm_num)]
    exact hvalue.symm

/-- `htonll(1)` is 1, whose low byte comes first in memory. -/
theorem not_htonll_one :
    htonll 1 ≠ exchangeHalves 1 ∧ leBytes 8 (htonll 1).toNat ≠ beBytes 8 1 := by
  decide

end MemClient
