import MemClient.IncrementalMd5
import MemClient.KeyRouting
import MemClient.RingPoints

/-!
# Routing in two processes

The points of a ring come from MD5 digests of the servers' places, and whatever the
memory of the digest objects held before does not show in them.  So server lists in
different processes that list the same places on rings of the same replication send
every key to the same place, whatever their histories.
-/

namespace MemClient

open ByteCodec BlockHash EventRun

/-! ## 1. Digests -/

namespace MD5Object

theorem Holds.final_eq_md5 {m : MD5} {message : Bytes} (hm : Holds m message) :
    m.final = Rfc1321.md5 message := by
  have hlt : message.length % 64 < 64 := Nat.mod_lt _ (by norm_num)
  have hpad := length_pad message.length
  have hbits := length_leBytes 8 (8 * message.length)
  have hpadded := hm.update (show (pad message.length).length < 2 ^ 32 by omega)
  have hall := hpadded.update (show (leBytes 8 (8 * message.length)).length < 2 ^ 32 by omega)
  rw [List.append_assoc, ← padding_eq] at hall
  have hindex : ((m.countLow >>> 3) &&& 0x3f).toNat = message.length % 64 := hm.index_eq
  have hsame : MD5.PADDING.take (if message.length % 64 < 56 then 56 - message.length % 64
      else 120 - message.length % 64) = pad message.length := rfl
  unfold MD5.final
  simp only [hindex, hsame, hm.encode_count]
  rw [encode_state, hall.state, toBuffer_chain]
  rfl

end MD5Object

namespace MD5

/-- **MD5 of a string**, whatever the memory of the object held before. -/
theorem digest_eq_md5 (junk : Nat → Byte) {str : Bytes} (hstr : str.length < 2 ^ 32) :
    digest junk str = Rfc1321.md5 str :=
  ((MD5Object.holds_reset junk).update hstr).final_eq_md5

theorem toString_congr (junk junk' : Nat → Byte) {str : Bytes} (hstr : str.length < 2 ^ 32) :
    toString junk str = toString junk' str := by
  have hdigest : digest junk str = digest junk' str := by
    rw [digest_eq_md5 junk hstr, digest_eq_md5 junk' hstr]
  unfold toString
  simp only [hdigest]

end MD5

/-! ## 2. Points -/

theorem length_decimal_le {n k : Nat} (hk : 0 < k) (hn : n < 10 ^ k) : (decimal n).length ≤ k := by
  unfold decimal
  split
  · exact hk
  · rw [List.length_map, List.length_reverse]
    exact (Nat.digits_length_le_iff (by norm_num) n).mpr hn

namespace ConsistentHashDistri

variable {replis : BitVec 32}

theorem rounds_lt (replis weight : BitVec 32) : rounds replis weight < 2 ^ 31 := by
  unfold rounds
  generalize replis * weight &&& 0x8FFFFFF4 = total
  have hlt : total.toInt < 2 ^ 31 := BitVec.toInt_lt
  rcases le_or_gt 0 total.toInt with hpos | hneg
  · rw [Int.tdiv_eq_ediv_of_nonneg hpos]
    omega
  · have hopposite := Int.tdiv_nonneg (a := -total.toInt) (b := 4) (by omega) (by norm_num)
    rw [Int.neg_tdiv] at hopposite
    omega

/-- The labels of a server's digests, for a place that leaves room for the number. -/
theorem length_label_lt {server : ServerItem} (hplace : server.toString.length < 2 ^ 31)
    {i : Nat} (hi : i < rounds replis server.mWeight) :
    (server.toString ++ lexicalCast i).length < 2 ^ 32 := by
  have hrounds := rounds_lt replis server.mWeight
  have hcast : lexicalCast (i : Int) = decimal i := by
    rw [lexicalCast, if_neg (by omega), Int.natAbs_natCast]
  have hdecimal := length_decimal_le (n := i) (k := 10) (by norm_num) (by omega)
  rw [hcast, List.length_append]
  omega

theorem points_toString_congr (junk junk' : Nat → Byte) {server : ServerItem}
    (hplace : server.toString.length < 2 ^ 31) :
    points (MD5.toString junk) replis server = points (MD5.toString junk') replis server := by
  rw [points_eq_flatMap, points_eq_flatMap]
  apply List.flatMap_congr
  intro i hi
  rw [MD5.toString_congr junk junk' (length_label_lt hplace (List.mem_range.mp hi))]

/-- Rings whose points have servers of the same names give every hash to servers of the
    same name. -/
theorem get_map_congr {ring ring' : ConsistentHashDistri} {N : Type}
    {name : ServerItem → N}
    (hsame : ∀ p, (ring.mCircle.find? p).map name = (ring'.mCircle.find? p).map name) (h : HashT) :
    (ring.get h).map name = (ring'.get h).map name := by
  have hnone : ring.get h = none ↔ ring'.get h = none := by
    rw [get_eq_none_iff, get_eq_none_iff]
    apply forall_congr'
    intro p
    rw [← Option.map_eq_none_iff (f := name), hsame, Option.map_eq_none_iff]
  cases hget : ring.get h with
  | none => rw [hnone.mp hget]
  | some server =>
      cases hget' : ring'.get h with
      | none =>
          rw [hnone.mpr hget'] at hget
          cases hget
      | some server' =>
          have howner := (get_eq_some_iff.mp hget).name_eq hsame (get_eq_some_iff.mp hget')
          exact congrArg some howner

end ConsistentHashDistri

namespace ServerList

/-! ## 3. Two processes -/

variable {P P' : Platform} {s last : ServerList} {mHashFunc : Bytes → HashT} {replis : BitVec 32}

/-- The places of the list, as `host` with `port` behind it. -/
def places (s : ServerList) : Finset Bytes := (s.mServers.values.map ServerItem.toString).toFinset

/-- The points of a server depend on its string. -/
theorem points_congr {md5 : Bytes → HexDigest} {server server' : ServerItem}
    (hplace : server.toString = server'.toString) (hweight : server.mWeight = 1)
    (hweight' : server'.mWeight = 1) :
    ConsistentHashDistri.points md5 replis server =
      ConsistentHashDistri.points md5 replis server' := by
  unfold ConsistentHashDistri.points
  rw [hplace, hweight, hweight']

section Rings

variable {ring ring' : ConsistentHashDistri}

/-- A point of one list is a point of the other, of a server at the same place. -/
theorem OnRing.find?_of_places (h : OnRing P mHashFunc replis s)
    (hlast : OnRing P' mHashFunc replis last) (hplaces : s.places = last.places)
    (hpoints : ∀ server : ServerItem, server.toString ∈ s.places →
      ConsistentHashDistri.points P.md5 replis server =
        ConsistentHashDistri.points P'.md5 replis server)
    (hreplis : ring.mReplications = replis) (hreplis' : ring'.mReplications = replis)
    (howns : ConsistentHashDistri.Owns P.md5 s.mServers.values.toFinset ring)
    (howns' : ConsistentHashDistri.Owns P'.md5 last.mServers.values.toFinset ring') {p : HashT}
    {server : ServerItem} (hp : ring.mCircle.find? p = some server) :
    ∃ server', ring'.mCircle.find? p = some server' ∧ server.toString = server'.toString := by
  obtain ⟨hmem, hpoint⟩ := (howns p server).mp hp
  rw [List.mem_toFinset] at hmem
  have hplace : server.toString ∈ s.places :=
    List.mem_toFinset.mpr (List.mem_map_of_mem hmem)
  rw [hreplis, hpoints server hplace] at hpoint
  rw [hplaces] at hplace
  obtain ⟨server', hmem', hsame⟩ := List.mem_map.mp (List.mem_toFinset.mp hplace)
  refine ⟨server', (howns' p server').mpr ⟨List.mem_toFinset.mpr hmem', ?_⟩, hsame.symm⟩
  rwa [hreplis', points_congr hsame (hlast.weight _ hmem') (h.weight _ hmem)]

theorem OnRing.find?_eq (h : OnRing P mHashFunc replis s)
    (hlast : OnRing P' mHashFunc replis last) (hplaces : s.places = last.places)
    (hpoints : ∀ server : ServerItem, server.toString ∈ s.places →
      ConsistentHashDistri.points P.md5 replis server =
        ConsistentHashDistri.points P'.md5 replis server)
    (hreplis : ring.mReplications = replis) (hreplis' : ring'.mReplications = replis)
    (howns : ConsistentHashDistri.Owns P.md5 s.mServers.values.toFinset ring)
    (howns' : ConsistentHashDistri.Owns P'.md5 last.mServers.values.toFinset ring') (p : HashT) :
    (ring.mCircle.find? p).map ServerItem.toString =
      (ring'.mCircle.find? p).map ServerItem.toString := by
  cases hp : ring.mCircle.find? p with
  | some server =>
      obtain ⟨server', hp', hsame⟩ :=
        h.find?_of_places hlast hplaces hpoints hreplis hreplis' howns howns' hp
      rw [hp', Option.map_some, Option.map_some, hsame]
  | none =>
      cases hp' : ring'.mCircle.find? p with
      | none => rfl
      | some server' =>
          have hback (server : ServerItem) (hplace : server.toString ∈ last.places) :
              ConsistentHashDistri.points P'.md5 replis server =
                ConsistentHashDistri.points P.md5 replis server :=
            (hpoints server (hplaces ▸ hplace)).symm
          obtain ⟨server, hserver, -⟩ :=
            hlast.find?_of_places h hplaces.symm hback hreplis' hreplis howns' howns hp'
          rw [hp] at hserver
          cases hserver

end Rings

/-- **Lists in two processes agree.**  Two lists on rings of the same replication,
    with the same hash function, whose runs have no common points and end with the
    same places send each key to the same place; the digests are the program's own,
    over whatever was in memory. -/
theorem lists_agree {algorithms algorithms' : AlgorithmRef → DistributeAlgorithm}
    {first first' : AlgorithmRef} (hfirst : algorithms first = .consistentHashDistri (.new replis))
    (hfirst' : algorithms' first' = .consistentHashDistri (.new replis))
    {junk junk' : Nat → Byte} (hmd5 : P.md5 = MD5.toString junk)
    (hmd5' : P'.md5 = MD5.toString junk') {last last' next next' : ServerList}
    {es es' : List Event}
    (hrun : Run (step P) (Apart P) (installed P mHashFunc algorithms first) es last)
    (hrun' : Run (step P') (Apart P') (installed P' mHashFunc algorithms' first') es' last')
    (hplaces : last.places = last'.places) (hshort : ∀ place ∈ last.places, place.length < 2 ^ 31)
    {key : Bytes} {server server' : Option ServerItem} (hget : last.get P key = .ok (server, next))
    (hget' : last'.get P' key = .ok (server', next')) :
    server.map ServerItem.toString = server'.map ServerItem.toString := by
  have hlast := (onRing_installed P mHashFunc hfirst).run hrun
  have hlast' := (onRing_installed P' mHashFunc hfirst').run hrun'
  obtain ⟨ring, hreplis, howns, rfl⟩ := hlast.get_eq hget
  obtain ⟨ring', hreplis', howns', rfl⟩ := hlast'.get_eq hget'
  apply ConsistentHashDistri.get_map_congr
  intro p
  apply hlast.find?_eq hlast' hplaces _ hreplis hreplis' howns howns' p
  intro server hplace
  rw [hmd5, hmd5']
  exact ConsistentHashDistri.points_toString_congr junk junk' (hshort _ hplace)

/-- The program's digests, in a process whose memory holds `fill` everywhere. -/
def filledPlatform (fill : Byte) (ndebug : Bool) : Platform where
  md5 := MD5.toString fun _ => fill
  heap := (BinaryHeap.siftHeap ServerBalanceInfo).toHeapAlgorithms
  ndebug := ndebug

def fourReplications (_ : AlgorithmRef) : DistributeAlgorithm := .consistentHashDistri (.new 4)

def filledRing (fill : Byte) (ndebug : Bool) : ServerList :=
  installed (filledPlatform fill ndebug) exampleHash fourReplications 0

/-- The hosts `a` and `b` in one list, and in another after `c` has come and gone. -/
theorem lists_agree_filled :
    ∃ last last' : ServerList,
      exec (step (filledPlatform 0 false)) (filledRing 0 false) [.add [97] 1, .add [98] 1] =
        some last ∧
      exec (step (filledPlatform 7 true)) (filledRing 7 true)
        [.add [99] 1, .remove [99] 1, .add [98] 1, .add [97] 1] = some last' ∧
      ∀ key server server' next next',
        last.get (filledPlatform 0 false) key = .ok (server, next) →
        last'.get (filledPlatform 7 true) key = .ok (server', next') →
          server.map ServerItem.toString = server'.map ServerItem.toString := by
  have hexec : ((execGuarded (step (filledPlatform 0 false)) (Apart (filledPlatform 0 false))
      (filledRing 0 false) [.add [97] 1, .add [98] 1]).any fun last =>
        decide (last.places = {[97, 49], [98, 49]}) &&
        (execGuarded (step (filledPlatform 7 true)) (Apart (filledPlatform 7 true))
          (filledRing 7 true) [.add [99] 1, .remove [99] 1, .add [98] 1, .add [97] 1]).any
            fun last' => decide (last.places = last'.places)) = true := by
    decide +kernel
  obtain ⟨last, hlast, hrest⟩ := (Option.any_eq_true _ _).mp hexec
  obtain ⟨hlisted, hrest⟩ := (Bool.and_eq_true _ _).mp hrest
  obtain ⟨last', hlast', hplaces⟩ := (Option.any_eq_true _ _).mp hrest
  have hrun := run_of_execGuarded hlast
  have hrun' := run_of_execGuarded hlast'
  refine ⟨last, last', hrun.exec_eq, hrun'.exec_eq, ?_⟩
  intro key server server' next next' hget hget'
  have hshort : ∀ place ∈ last.places, place.length < 2 ^ 31 := by
    rw [of_decide_eq_true hlisted]
    decide
  have hfirst : fourReplications 0 = .consistentHashDistri (.new 4) := rfl
  exact lists_agree hfirst hfirst rfl rfl hrun hrun' (of_decide_eq_true hplaces) hshort hget hget'

end ServerList

end MemClient
