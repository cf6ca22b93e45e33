import MemClient.EventRun
import MemClient.ServerItem
import MemClient.SortedMap

/-!
# Consistent hashing

The ring of `serverManager/ConsistentHashDistri.cpp`: `std::map` from 64-bit
points to servers.  MD5 enters as a function from label strings to 32 hex
characters, so the results hold for every digest function, the code's own among
them.  Section 3: adding or removing a server moves only the keys it gains or
loses.  Section 4: the ring remembers its history where points of two servers
coincide, and only there.
-/

namespace MemClient

open ByteCodec EventRun

/-! ## 1. Digests and points -/

/-- What `MD5::toString` returns: 32 lower-case hex characters. -/
structure HexDigest where
  chars : Bytes
  length_eq : chars.length = 32
  hex : ∀ c ∈ chars, 48 ≤ c.toNat ∧ c.toNat ≤ 57 ∨ 97 ≤ c.toNat ∧ c.toNat ≤ 102

structure ConsistentHashDistri where
  mCircle : SortedMap HashT ServerItem
  mReplications : BitVec 32

namespace ConsistentHashDistri

def new (replis : BitVec 32) : ConsistentHashDistri := ⟨.empty, replis⟩

/-- One character as the low, second, third or high byte of an `int`. -/
def charAt (md5Value : Bytes) (i : Nat) : BitVec 32 := (md5Value.getD i 0).setWidth 32 &&& 0xFF

/-- `Hash`: four characters of the digest string as a little-endian `int`,
    widened to `hash_t`. -/
def hash (md5Value : Bytes) (offset : Nat) : HashT :=
  let startIndex := offset * 4
  let word := charAt md5Value (0 + startIndex) ||| charAt md5Value (1 + startIndex) <<< 8 |||
    charAt md5Value (2 + startIndex) <<< 16 ||| charAt md5Value (3 + startIndex) <<< 24
  Fin.ofNat (2 ^ 64) (word.signExtend 64).toNat

/-- `totalReplications / 4` of `Add`, as the number of rounds of its loop. -/
def rounds (mReplications weight : BitVec 32) : Nat :=
  (((mReplications * weight) &&& 0x8FFFFFF4).toInt.tdiv 4).toNat

variable (md5 : Bytes → HexDigest)

/-- The inner loop of `Add`: four points of one digest. -/
def addDigest (server : ServerItem) (md5Value : Bytes) (circle : SortedMap HashT ServerItem) :
    SortedMap HashT ServerItem :=
  (List.range 4).foldl (fun circle h => circle.insert (hash md5Value h) server) circle

def add (ring : ConsistentHashDistri) (pServer : ServerItem) : ConsistentHashDistri :=
  { ring with
    mCircle := (List.range (rounds ring.mReplications pServer.mWeight)).foldl
      (fun circle i =>
        let md5Value := (md5 (pServer.toString ++ lexicalCast i)).chars
        addDigest pServer md5Value circle)
      ring.mCircle }

/-- `Remove`: collect the entries of the server, then erase them. -/
def remove (ring : ConsistentHashDistri) (pServer : ServerItem) : ConsistentHashDistri :=
  { ring with mCircle := ring.mCircle.eraseValue pServer }

/-- `Get`; on an empty ring a debug build stops at the assertion, a release build
    returns the null pointer. -/
def get (ring : ConsistentHashDistri) (hash : HashT) : Option ServerItem :=
  if ring.mCircle.entries.length ≠ 0 then
    match ring.mCircle.find? hash with
    | some server => some server
    | none =>
        match ring.mCircle.upperBound hash with
        | some result => some result.2
        | none => ring.mCircle.first.map Prod.snd
  else none

def clear (ring : ConsistentHashDistri) : ConsistentHashDistri := { ring with mCircle := .empty }

/-! ## 2. What the operations do to the points -/

/-- The points `Add` computes for a server, in order. -/
def points (mReplications : BitVec 32) (server : ServerItem) : List HashT :=
  (List.range (rounds mReplications server.mWeight)).flatMap fun i =>
    (List.range 4).map fun h => hash (md5 (server.toString ++ lexicalCast i)).chars h

theorem find?_foldl_insert (server : ServerItem) (ps : List HashT)
    (circle : SortedMap HashT ServerItem) (q : HashT) :
    (ps.foldl (fun circle p => circle.insert p server) circle).find? q =
      if q ∈ ps then some server else circle.find? q := by
  induction ps generalizing circle with
  | nil => simp
  | cons p ps ih =>
      rw [List.foldl_cons, ih, SortedMap.find?_insert]
      by_cases hps : q ∈ ps
      · simp [hps]
      · by_cases hp : q = p
        · simp [hp]
        · simp [hps, hp]

/-- The nested loops of `Add` are one pass over `points`. -/
theorem add_mCircle (ring : ConsistentHashDistri) (server : ServerItem) :
    (add md5 ring server).mCircle = (points md5 ring.mReplications server).foldl
      (fun circle p => circle.insert p server) ring.mCircle := by
  simp only [add, points, addDigest, List.foldl_flatMap, List.foldl_map]

/-- **What `Add` does**: its points now belong to the server, whoever owned them. -/
theorem find?_add (ring : ConsistentHashDistri) (server : ServerItem) (q : HashT) :
    (add md5 ring server).mCircle.find? q =
      if q ∈ points md5 ring.mReplications server then some server
      else ring.mCircle.find? q := by
  rw [add_mCircle, find?_foldl_insert]

theorem find?_remove (ring : ConsistentHashDistri) (server : ServerItem) (q : HashT) :
    (remove ring server).mCircle.find? q =
      if ring.mCircle.find? q = some server then none else ring.mCircle.find? q :=
  ring.mCircle.find?_eraseValue server q

theorem get_eq_successor (ring : ConsistentHashDistri) (h : HashT) :
    get ring h = ring.mCircle.successor h := by
  unfold get
  split
  · unfold SortedMap.successor
    split
    · next server hfind => simp only [hfind]
    · next hfind =>
        split
        · next result hupper => simp only [hfind, hupper]
        · next hupper => simp only [hfind, hupper]
  · next hempty =>
      have hentries : ring.mCircle.entries = [] := by simpa using hempty
      have hnone : ∀ q, ring.mCircle.find? q = none := by simp [SortedMap.find?, hentries]
      exact (ring.mCircle.successor_eq_none_iff.mpr hnone).symm

theorem get_eq_some_iff {ring : ConsistentHashDistri} {h : HashT} {server : ServerItem} :
    get ring h = some server ↔ IsOwner ring.mCircle.find? h server := by
  rw [get_eq_successor, SortedMap.successor_eq_some_iff]

theorem get_eq_none_iff {ring : ConsistentHashDistri} {h : HashT} :
    get ring h = none ↔ ∀ q, ring.mCircle.find? q = none := by
  rw [get_eq_successor, SortedMap.successor_eq_none_iff]

theorem get_congr {ring ring' : ConsistentHashDistri}
    (hsame : ∀ q, ring.mCircle.find? q = ring'.mCircle.find? q) (h : HashT) :
    get ring h = get ring' h := by
  rw [get_eq_successor, get_eq_successor]
  exact SortedMap.successor_congr hsame h

/-! ## 3. Minimal disruption -/

theorem get_add (ring : ConsistentHashDistri) (server : ServerItem) (h : HashT) :
    get (add md5 ring server) h = some server ∨ get (add md5 ring server) h = get ring h := by
  have hext : ∀ p, (add md5 ring server).mCircle.find? p = some server ∨
      (add md5 ring server).mCircle.find? p = ring.mCircle.find? p := by
    intro p
    rw [find?_add]
    split
    · exact Or.inl rfl
    · exact Or.inr rfl
  have hsub : ∀ p, (ring.mCircle.find? p).isSome →
      ((add md5 ring server).mCircle.find? p).isSome := by
    intro p hp
    rcases hext p with hs | hsame
    · rw [hs]; rfl
    · rw [hsame]; exact hp
  cases hget : get (add md5 ring server) h with
  | none =>
      -- no point at all after `Add`, hence none before
      refine Or.inr (get_eq_none_iff.mpr fun q => ?_).symm
      have hnone := get_eq_none_iff.mp hget q
      rcases hext q with hs | hsame
      · rw [hs] at hnone; cases hnone
      · rw [← hsame]; exact hnone
  | some owner =>
      rcases (get_eq_some_iff.mp hget).of_extend hext hsub with rfl | hold
      · exact Or.inl rfl
      · exact Or.inr (get_eq_some_iff.mpr hold).symm

theorem get_remove_ne (ring : ConsistentHashDistri) (server : ServerItem) (h : HashT) :
    get (remove ring server) h ≠ some server := by
  intro hget
  obtain ⟨p, -, hp⟩ := get_eq_some_iff.mp hget
  rw [find?_remove] at hp
  split at hp
  · cases hp
  · next hne => exact hne hp

theorem get_remove_of_ne {ring : ConsistentHashDistri} {server : ServerItem} {h : HashT}
    (hne : get ring h ≠ some server) : get (remove ring server) h = get ring h := by
  cases hget : get ring h with
  | none =>
      apply get_eq_none_iff.mpr
      intro q
      rw [find?_remove, get_eq_none_iff.mp hget q]
      simp
  | some owner =>
      have howner : owner ≠ server := fun heq => hne (by rw [hget, heq])
      refine get_eq_some_iff.mpr ((get_eq_some_iff.mp hget).of_restrict ?_ ?_)
      · intro p hp
        rw [find?_remove, hp, if_neg (by simpa using howner)]
      · intro p hp
        rw [find?_remove] at hp
        split at hp
        · cases hp
        · exact hp

/-- `Get` returns null after `Remove(S)` only when `S` had every point. -/
theorem owner_of_get_remove_eq_none {ring : ConsistentHashDistri} {server : ServerItem} {h : HashT}
    (hnone : get (remove ring server) h = none) {p : HashT} {owner : ServerItem}
    (hp : ring.mCircle.find? p = some owner) : owner = server := by
  have hgone := get_eq_none_iff.mp hnone p
  rw [find?_remove, hp] at hgone
  by_contra hne
  rw [if_neg (by simpa using hne)] at hgone
  cases hgone

inductive RingOp where
  | add (server : ServerItem)
  | remove (server : ServerItem)
  | clear

def apply (ring : ConsistentHashDistri) : RingOp → ConsistentHashDistri
  | .add server => add md5 ring server
  | .remove server => remove ring server
  | .clear => clear ring

def runOps (replis : BitVec 32) (ops : List RingOp) : ConsistentHashDistri :=
  ops.foldl (apply md5) (new replis)

/-- **Minimal disruption.**  On every reachable ring, adding a server moves a
    hash to that server or not at all; removing one moves only its own hashes. -/
theorem minimal_disruption (replis : BitVec 32) (ops : List RingOp) (server : ServerItem)
    (h : HashT) :
    let ring := runOps md5 replis ops
    (get (add md5 ring server) h = some server ∨ get (add md5 ring server) h = get ring h) ∧
    (get ring h ≠ some server → get (remove ring server) h = get ring h) ∧
    get (remove ring server) h ≠ some server ∧
    (get (remove ring server) h = none →
      ∀ p owner, ring.mCircle.find? p = some owner → owner = server) :=
  ⟨get_add md5 _ server h, get_remove_of_ne, get_remove_ne _ server h,
    fun hnone _ _ => owner_of_get_remove_eq_none hnone⟩

/-! ## 4. History -/

/-- The set of present servers; a server is added only when absent and removed
    only when present. -/
def memberStep (present : Finset ServerItem) : RingOp → Option (Finset ServerItem)
  | .add server => if server ∈ present then none else some (insert server present)
  | .remove server => if server ∈ present then some (present.erase server) else none
  | .clear => none

/-- Two histories that end with the same servers give rings that answer alike. -/
def HistoryIndependent : Prop :=
  ∀ (replis : BitVec 32) (ops₁ ops₂ : List RingOp) (present : Finset ServerItem),
    exec memberStep ∅ ops₁ = some present → exec memberStep ∅ ops₂ = some present →
    ∀ h, get (runOps md5 replis ops₁) h = get (runOps md5 replis ops₂) h

theorem get_of_find? {ring : ConsistentHashDistri} {p : HashT} {server : ServerItem}
    (hp : ring.mCircle.find? p = some server) : get ring p = some server := by
  rw [get_eq_successor, SortedMap.successor, hp]

/-- No point of an added server is a point of a server present at that time. -/
def SharesNoPoint (replis : BitVec 32) (present : Finset ServerItem) : RingOp → Prop
  | .add server => ∀ other ∈ present, ∀ p ∈ points md5 replis server, p ∉ points md5 replis other
  | _ => True

/-- The ring is exactly the points of the present servers. -/
def Owns (present : Finset ServerItem) (ring : ConsistentHashDistri) : Prop :=
  ∀ p server, ring.mCircle.find? p = some server ↔
    server ∈ present ∧ p ∈ points md5 ring.mReplications server

theorem owns_add {present : Finset ServerItem} {ring : ConsistentHashDistri} {server : ServerItem}
    (hown : Owns md5 present ring)
    (hshare : SharesNoPoint md5 ring.mReplications present (.add server)) :
    Owns md5 (insert server present) (add md5 ring server) := by
  intro p owner
  rw [find?_add, Finset.mem_insert]
  show _ ↔ _ ∧ p ∈ points md5 ring.mReplications owner
  by_cases hp : p ∈ points md5 ring.mReplications server
  · rw [if_pos hp, Option.some.injEq]
    constructor
    · rintro rfl
      exact ⟨Or.inl rfl, hp⟩
    · rintro ⟨rfl | howner, hpowner⟩
      · rfl
      · -- a present owner of `p` would share it with the added server
        exact absurd hpowner (hshare owner howner p hp)
  · rw [if_neg hp, hown]
    constructor
    · rintro ⟨howner, hpowner⟩
      exact ⟨Or.inr howner, hpowner⟩
    · rintro ⟨rfl | howner, hpowner⟩
      · exact absurd hpowner hp
      · exact ⟨howner, hpowner⟩

theorem owns_remove {present : Finset ServerItem} {ring : ConsistentHashDistri}
    {server : ServerItem} (hown : Owns md5 present ring) :
    Owns md5 (present.erase server) (remove ring server) := by
  intro p owner
  rw [find?_remove, Finset.mem_erase]
  show _ ↔ _ ∧ p ∈ points md5 ring.mReplications owner
  split
  · next hserver =>
      constructor
      · intro h; cases h
      · rintro ⟨⟨hne, howner⟩, hp⟩
        have heq := (hown p owner).mpr ⟨howner, hp⟩
        rw [hserver] at heq
        exact absurd (Option.some.inj heq).symm hne
  · next hserver =>
      rw [hown, and_assoc]
      constructor
      · rintro ⟨howner, hp⟩
        refine ⟨?_, howner, hp⟩
        rintro rfl
        exact hserver ((hown p owner).mpr ⟨howner, hp⟩)
      · exact And.right

theorem owns_apply {present present' : Finset ServerItem} {ring : ConsistentHashDistri}
    {op : RingOp} (hown : Owns md5 present ring)
    (hshare : SharesNoPoint md5 ring.mReplications present op)
    (hstep : memberStep present op = some present') :
    Owns md5 present' (apply md5 ring op) ∧
      (apply md5 ring op).mReplications = ring.mReplications := by
  cases op with
  | add server =>
      simp only [memberStep] at hstep
      split at hstep
      · cases hstep
      · cases hstep
        exact ⟨owns_add md5 hown hshare, rfl⟩
  | remove server =>
      simp only [memberStep] at hstep
      split at hstep
      · cases hstep
        exact ⟨owns_remove md5 hown, rfl⟩
      · cases hstep
  | clear => cases hstep

theorem owns_foldl {replis : BitVec 32} {present present' : Finset ServerItem} {ops : List RingOp}
    (hrun : Run memberStep (SharesNoPoint md5 replis) present ops present')
    {ring : ConsistentHashDistri} (hown : Owns md5 present ring)
    (hreplis : ring.mReplications = replis) : Owns md5 present' (ops.foldl (apply md5) ring) ∧
      (ops.foldl (apply md5) ring).mReplications = replis := by
  induction hrun generalizing ring with
  | nil => exact ⟨hown, hreplis⟩
  | cons hshare hstep rest ih =>
      obtain ⟨hown', hsame⟩ := owns_apply md5 hown (hreplis ▸ hshare) hstep
      exact ih hown' (hsame.trans hreplis)

/-- **History independence without collisions.**  Two histories in which no added
    server shares a point with a present one, and which end with the same
    servers, give rings that answer every hash alike. -/
theorem history_independent {replis : BitVec 32} {ops₁ ops₂ : List RingOp}
    {present : Finset ServerItem}
    (h₁ : Run memberStep (SharesNoPoint md5 replis) ∅ ops₁ present)
    (h₂ : Run memberStep (SharesNoPoint md5 replis) ∅ ops₂ present) (h : HashT) :
    get (runOps md5 replis ops₁) h = get (runOps md5 replis ops₂) h := by
  have hempty : Owns md5 ∅ (new replis) := by
    intro p server
    simp [new]
  obtain ⟨hown₁, hreplis₁⟩ := owns_foldl md5 h₁ hempty rfl
  obtain ⟨hown₂, hreplis₂⟩ := owns_foldl md5 h₂ hempty rfl
  refine get_congr (fun q => Option.ext fun server => ?_) h
  have hfirst := hown₁ q server
  have hsecond := hown₂ q server
  rw [hreplis₁] at hfirst
  rw [hreplis₂] at hsecond
  exact hfirst.trans hsecond.symm

def firstLetterDigest (label : Bytes) : HexDigest :=
  if label.head? = some 97 then ⟨List.replicate 32 48, by decide, by decide⟩
  else ⟨List.replicate 32 49, by decide, by decide⟩

/-- Hosts `a` and `b` added in either order, without a common point, and a hash
    between their points. -/
theorem history_independent_two_servers :
    get (runOps firstLetterDigest 4 [.add ⟨1, [97], 1, 1⟩, .add ⟨2, [98], 1, 1⟩]) 0x30303031 =
      get (runOps firstLetterDigest 4 [.add ⟨2, [98], 1, 1⟩, .add ⟨1, [97], 1, 1⟩])
        0x30303031 := by
  let first : ServerItem := ⟨1, [97], 1, 1⟩
  let second : ServerItem := ⟨2, [98], 1, 1⟩
  have hfirst : memberStep ∅ (.add first) = some {first} := by decide
  have hsecond : memberStep ∅ (.add second) = some {second} := by decide
  have hboth : memberStep {first} (.add second) = some {first, second} := by decide
  have hboth' : memberStep {second} (.add first) = some {first, second} := by decide
  have hpoints : points firstLetterDigest 4 first = List.replicate 4 0x30303030 := by
    decide +kernel
  have hpoints' : points firstLetterDigest 4 second = List.replicate 4 0x31313131 := by
    decide +kernel
  have hapart : ∀ p ∈ points firstLetterDigest 4 first, p ∉ points firstLetterDigest 4 second := by
    intro p hp hp'
    rw [hpoints] at hp
    rw [hpoints'] at hp'
    have heq := (List.eq_of_mem_replicate hp).symm.trans (List.eq_of_mem_replicate hp')
    exact absurd heq (by decide)
  have hshare : SharesNoPoint firstLetterDigest 4 {first} (.add second) := by
    intro other hother p hp hp'
    rw [Finset.mem_singleton.mp hother] at hp'
    exact hapart p hp' hp
  have hshare' : SharesNoPoint firstLetterDigest 4 {second} (.add first) := by
    intro other hother p hp hp'
    rw [Finset.mem_singleton.mp hother] at hp'
    exact hapart p hp hp'
  exact history_independent firstLetterDigest
    (.cons (by simp [SharesNoPoint]) hfirst (.cons hshare hboth (.nil _)))
    (.cons (by simp [SharesNoPoint]) hsecond (.cons hshare' hboth' (.nil _))) 0x30303031

/-- Ports 1 and 11 of one host share the label `a110` (replica 10 of the first,
    replica 0 of the second), so whatever the digest is, the server added last
    owns that point. -/
theorem not_history_independent : ¬ ∃ md5, HistoryIndependent md5 := by
  rintro ⟨md5, hindep⟩
  let first : ServerItem := ⟨1, [97], 1, 1⟩
  let second : ServerItem := ⟨2, [97], 11, 1⟩
  have hlabel : first.toString ++ lexicalCast (10 : Nat) =
      second.toString ++ lexicalCast (0 : Nat) := by decide
  have hfirst : hash (md5 (first.toString ++ lexicalCast (10 : Nat))).chars 0 ∈
      points md5 200 first := by
    exact List.mem_flatMap.mpr ⟨10, by decide, List.mem_map.mpr ⟨0, by decide, rfl⟩⟩
  have hsecond : hash (md5 (first.toString ++ lexicalCast (10 : Nat))).chars 0 ∈
      points md5 200 second := by
    rw [hlabel]
    exact List.mem_flatMap.mpr ⟨0, by decide, List.mem_map.mpr ⟨0, by decide, rfl⟩⟩
  have hsame := hindep 200 [.add first, .add second] [.add second, .add first]
    {first, second} (by decide) (by decide)
    (hash (md5 (first.toString ++ lexicalCast (10 : Nat))).chars 0)
  have hget₁ := get_of_find? ((find?_add md5 (runOps md5 200 [.add first]) second
    (hash (md5 (first.toString ++ lexicalCast (10 : Nat))).chars 0)).trans (if_pos hsecond))
  have hget₂ := get_of_find? ((find?_add md5 (runOps md5 200 [.add second]) first
    (hash (md5 (first.toString ++ lexicalCast (10 : Nat))).chars 0)).trans (if_pos hfirst))
  have heq : second = first := Option.some.inj (hget₁.symm.trans (hsame.trans hget₂))
  exact absurd heq (by decide)

end ConsistentHashDistri

end MemClient
