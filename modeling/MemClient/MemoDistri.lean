import MemClient.BinaryHeap
import MemClient.EventRun
import MemClient.ServerItem
import MemClient.UnorderedMap

/-!
# Memorized distribution

`serverManager/MemoDistri.cpp`: a map that remembers the server of each hash seen
so far, and a heap of servers from which a new hash takes the front.  `operator<`
makes the front the server with the largest `KeyCount / Weight`, so the front
stays in front and every hash goes there until it is removed (`FrontOnly`).
Section 4: the counters are exact.  Section 5: what this means for the balance.
The heap algorithms are those of an arbitrary standard library.
-/

namespace MemClient

open BinaryHeap EventRun

/-! ## 1. Balance infos -/

/-- A weight as a natural number; a negative one counts as zero. -/
def ServerItem.weight (server : ServerItem) : Nat := server.mWeight.toInt.toNat

structure ServerBalanceInfo where
  Server : ServerItem
  KeyCount : BitVec 64
deriving DecidableEq

namespace ServerBalanceInfo

def new (server : ServerItem) : ServerBalanceInfo := ⟨server, 0⟩

/-- `++KeyCount`. -/
def increment (info : ServerBalanceInfo) : ServerBalanceInfo :=
  { info with KeyCount := info.KeyCount + 1 }

/-- `operator<`; the `int` weight is converted to `size_t` for the product. -/
def lt (lhs rhs : ServerBalanceInfo) : Bool :=
  decide (lhs.KeyCount * rhs.Server.mWeight.signExtend 64 <
    rhs.KeyCount * lhs.Server.mWeight.signExtend 64)

/-- The comparator written out in `Get`. -/
def balanceInfoCompare (lhs rhs : ServerBalanceInfo) : Bool :=
  decide (lhs.KeyCount * rhs.Server.mWeight.signExtend 64 <
    rhs.KeyCount * lhs.Server.mWeight.signExtend 64)

theorem balanceInfoCompare_eq : balanceInfoCompare = lt := rfl

end ServerBalanceInfo

/-! ## 2. Operations -/

/-- The map's key type `long` has the 64 bits of `hash_t`. -/
structure MemoDistri where
  mKeyServerMapping : UnorderedMap HashT ServerItem
  mBalanceInfos : List ServerBalanceInfo
deriving DecidableEq

namespace MemoDistri

def new : MemoDistri := ⟨∅, []⟩

variable (heap : HeapAlgorithms ServerBalanceInfo)

def add (memo : MemoDistri) (pServer : ServerItem) : MemoDistri :=
  { memo with
    mBalanceInfos := heap.push_heap ServerBalanceInfo.lt (memo.mBalanceInfos ++ [.new pServer]) }

/-- `Remove`: the first info of the server, and all hashes that map to it. -/
def remove (memo : MemoDistri) (pServer : ServerItem) : MemoDistri where
  mBalanceInfos := memo.mBalanceInfos.eraseP fun info => decide (info.Server = pServer)
  mKeyServerMapping := UnorderedMap.eraseValue memo.mKeyServerMapping pServer

/-- `Get`.  `result` is a reference to the front slot, so it is read after the
    heap was rearranged.  On an empty list a debug build stops at the assertion,
    a release build returns the null pointer. -/
def get (memo : MemoDistri) (hash : HashT) : Option ServerItem × MemoDistri :=
  match memo.mBalanceInfos with
  | [] => (none, memo)
  | front :: rest =>
      match memo.mKeyServerMapping.lookup hash with
      | some server => (some server, memo)
      | none =>
          let infos := heap.push_heap ServerBalanceInfo.balanceInfoCompare
            (heap.pop_heap ServerBalanceInfo.balanceInfoCompare (front.increment :: rest))
          match infos with
          | [] => (none, memo)
          | result :: _ =>
              (some result.Server,
                { mKeyServerMapping := memo.mKeyServerMapping.insert hash result.Server
                  mBalanceInfos := infos })

def clear (_ : MemoDistri) : MemoDistri := ⟨∅, []⟩

inductive Event where
  | add (server : ServerItem)
  | get (hash : HashT)
  | remove (server : ServerItem)
  | clear

def step (memo : MemoDistri) : Event → Option MemoDistri
  | .add server => some (add heap memo server)
  | .get hash => some (get heap memo hash).2
  | .remove server => some (remove memo server)
  | .clear => some (clear memo)

end MemoDistri

/-! ## 3. The comparison -/

namespace ServerBalanceInfo

theorem toNat_signExtend {server : ServerItem} (h : 0 < server.mWeight.toInt) :
    (server.mWeight.signExtend 64).toNat = server.weight := by
  have hint : (server.mWeight.signExtend 64).toInt = server.mWeight.toInt :=
    BitVec.toInt_signExtend_of_le (by omega)
  unfold ServerItem.weight
  have hlt : 2 * (server.mWeight.signExtend 64).toNat < 2 ^ 64 := by
    by_contra hge
    have hneg := BitVec.toInt_eq_toNat_cond (server.mWeight.signExtend 64)
    rw [if_neg hge] at hneg
    have hbound := (server.mWeight.signExtend 64).isLt
    omega
  have hnat := BitVec.toInt_eq_toNat_of_lt hlt
  omega

theorem weight_pos {server : ServerItem} (h : 0 < server.mWeight.toInt) : 0 < server.weight := by
  unfold ServerItem.weight
  omega

/-- The products of every key count with every weight stay below `2 ^ 64`. -/
def Fits (infos : List ServerBalanceInfo) : Prop :=
  ∀ x ∈ infos, ∀ y ∈ infos, x.KeyCount.toNat * y.Server.weight < 2 ^ 64

def Positive (infos : List ServerBalanceInfo) : Prop :=
  ∀ x ∈ infos, 0 < x.Server.mWeight.toInt

theorem toNat_increment {info : ServerBalanceInfo} (hpos : 0 < info.Server.mWeight.toInt)
    (hfit : (info.KeyCount.toNat + 1) * info.Server.weight < 2 ^ 64) :
    info.increment.KeyCount.toNat = info.KeyCount.toNat + 1 := by
  have hle : info.KeyCount.toNat + 1 ≤ (info.KeyCount.toNat + 1) * info.Server.weight :=
    Nat.le_mul_of_pos_right _ (weight_pos hpos)
  show (info.KeyCount + 1#64).toNat = _
  rw [BitVec.toNat_add]
  exact Nat.mod_eq_of_lt (hle.trans_lt hfit)

variable {infos : List ServerBalanceInfo}

/-- Without overflow, `operator<` compares the ratios `KeyCount / Weight`. -/
theorem lt_iff {x y : ServerBalanceInfo} (hpos : Positive infos) (hfits : Fits infos)
    (hx : x ∈ infos) (hy : y ∈ infos) :
    lt x y ↔ x.KeyCount.toNat * y.Server.weight < y.KeyCount.toNat * x.Server.weight := by
  unfold lt
  rw [decide_eq_true_iff, BitVec.lt_def, BitVec.toNat_mul, BitVec.toNat_mul,
    toNat_signExtend (hpos x hx), toNat_signExtend (hpos y hy),
    Nat.mod_eq_of_lt (hfits x hx y hy), Nat.mod_eq_of_lt (hfits y hy x hx)]

theorem strictWeakOn_lt (hpos : Positive infos) (hfits : Fits infos) : StrictWeakOn lt infos where
  irrefl := by
    intro x hx
    rw [Bool.eq_false_iff, Ne, lt_iff hpos hfits hx hx]
    omega
  trans := by
    intro x hx y hy z hz hxy hyz
    rw [lt_iff hpos hfits hx hy] at hxy
    rw [lt_iff hpos hfits hy hz] at hyz
    rw [lt_iff hpos hfits hx hz]
    have hw := weight_pos (hpos y hy)
    nlinarith [weight_pos (hpos x hx), weight_pos (hpos z hz)]
  cotrans := by
    intro x hx y hy z hz hxz
    rw [lt_iff hpos hfits hx hz] at hxz
    rw [lt_iff hpos hfits hx hy, lt_iff hpos hfits hy hz]
    by_contra hnot
    rw [not_or, not_lt, not_lt] at hnot
    nlinarith [weight_pos (hpos x hx), weight_pos (hpos y hy), weight_pos (hpos z hz)]

/-- Infos that have counted nothing form a heap behind any front. -/
theorem isHeap_of_zero {front : ServerBalanceInfo} {rest : List ServerBalanceInfo}
    (hzero : ∀ x ∈ rest, x.KeyCount = 0) : IsHeap lt (front :: rest) := by
  intro c hc a b _ hb
  obtain ⟨i, rfl⟩ : ∃ i, c = i + 1 := ⟨c - 1, by omega⟩
  rw [List.getElem?_cons_succ] at hb
  have hcount : b.KeyCount = 0#64 := hzero b (List.mem_of_getElem? hb)
  unfold lt
  rw [hcount, BitVec.zero_mul]
  exact decide_eq_false BitVec.not_lt_zero

end ServerBalanceInfo

/-! ## 4. Only the front counts -/

namespace MemoDistri

open ServerBalanceInfo

/-- Every hash seen so far maps to the front server and is counted there. -/
def FrontOnly (mapping : UnorderedMap HashT ServerItem) : List ServerBalanceInfo → Prop
  | [] => mapping.size = 0
  | front :: rest =>
      (∀ x ∈ rest, x.KeyCount = 0) ∧ front.KeyCount.toNat = mapping.size ∧
        ∀ server ∈ mapping.values, server = front.Server

structure Tidy (memo : MemoDistri) : Prop where
  front : FrontOnly memo.mKeyServerMapping memo.mBalanceInfos
  positive : Positive memo.mBalanceInfos
  fits : Fits memo.mBalanceInfos

/-- A step keeps the products below `2 ^ 64`, and adds positive weights only. -/
def Fitting (memo : MemoDistri) : Event → Prop
  | .add server =>
      0 < server.mWeight.toInt ∧
        ∀ x ∈ memo.mBalanceInfos, x.KeyCount.toNat * server.weight < 2 ^ 64
  | .get hash =>
      memo.mKeyServerMapping.lookup hash = none → ∀ x ∈ memo.mBalanceInfos.head?,
        ∀ y ∈ memo.mBalanceInfos, (x.KeyCount.toNat + 1) * y.Server.weight < 2 ^ 64
  | _ => True

theorem values_eq_nil {mapping : UnorderedMap HashT ServerItem} (h : mapping.size = 0) :
    mapping.values = [] := by
  unfold UnorderedMap.values
  rw [List.length_eq_zero_iff.mp h, List.map_nil]

theorem frontOnly_of_zero {mapping : UnorderedMap HashT ServerItem}
    {infos : List ServerBalanceInfo} (hsize : mapping.size = 0)
    (hzero : ∀ x ∈ infos, x.KeyCount = 0) : FrontOnly mapping infos := by
  cases infos with
  | nil => exact hsize
  | cons front rest =>
      refine ⟨fun x hx => hzero x (List.mem_cons_of_mem front hx), ?_, ?_⟩
      · rw [hzero front List.mem_cons_self, hsize]
        rfl
      · simp [values_eq_nil hsize]

theorem tidy_new : Tidy new := ⟨rfl, by simp [Positive, new], by simp [Fits, new]⟩

theorem tidy_clear (memo : MemoDistri) : Tidy (clear memo) := tidy_new

theorem FrontOnly.isHeap {mapping : UnorderedMap HashT ServerItem}
    {infos : List ServerBalanceInfo} (h : FrontOnly mapping infos) : IsHeap lt infos := by
  cases infos with
  | nil => intro c _ a b ha; simp at ha
  | cons front rest => exact isHeap_of_zero h.1

/-- A counting info exceeds one that has counted nothing. -/
theorem lt_of_zero {infos : List ServerBalanceInfo} (hpos : Positive infos) (hfits : Fits infos)
    {x y : ServerBalanceInfo} (hx : x ∈ infos) (hy : y ∈ infos) (hzero : x.KeyCount = 0#64)
    (hcount : y.KeyCount.toNat ≠ 0) : lt x y := by
  rw [lt_iff hpos hfits hx hy, hzero, BitVec.toNat_zero, Nat.zero_mul]
  exact Nat.mul_pos (Nat.pos_of_ne_zero hcount) (weight_pos (hpos x hx))

theorem FrontOnly.push_back {mapping : UnorderedMap HashT ServerItem}
    {infos : List ServerBalanceInfo} (h : FrontOnly mapping infos) (server : ServerItem) :
    FrontOnly mapping (infos ++ [.new server]) := by
  cases infos with
  | nil => exact frontOnly_of_zero h (by simp [ServerBalanceInfo.new])
  | cons front rest =>
      obtain ⟨hzero, hsize, hvalues⟩ := h
      refine ⟨fun x hx => ?_, hsize, hvalues⟩
      rcases List.mem_append.mp hx with hold | hnew
      · exact hzero x hold
      · rw [List.mem_singleton.mp hnew]
        rfl

/-- However a heap of the infos is arranged, the one that counts is in front. -/
theorem FrontOnly.arrange {mapping : UnorderedMap HashT ServerItem}
    {infos ys : List ServerBalanceInfo} (h : FrontOnly mapping infos) (hperm : ys.Perm infos)
    (hpos : Positive ys) (hfits : Fits ys) (hheap : IsHeap lt ys) : FrontOnly mapping ys := by
  cases infos with
  | nil =>
      rw [hperm.eq_nil]
      exact h
  | cons front rest =>
      obtain ⟨hzero, hsize, hvalues⟩ := h
      by_cases hcount : front.KeyCount.toNat = 0
      · refine frontOnly_of_zero (hsize ▸ hcount) fun x hx => ?_
        rcases List.mem_cons.mp (hperm.mem_iff.mp hx) with rfl | hrest
        · exact BitVec.eq_of_toNat_eq hcount
        · exact hzero x hrest
      · have hfront : front ∈ ys := hperm.mem_iff.mpr List.mem_cons_self
        have hmax : ∀ y ∈ rest, lt y front := fun y hy =>
          lt_of_zero hpos hfits (hperm.mem_iff.mpr (List.mem_cons_of_mem front hy)) hfront
            (hzero y hy) hcount
        obtain ⟨zs, rfl, hzs⟩ := hheap.eq_cons (strictWeakOn_lt hpos hfits) hperm hmax
        exact ⟨fun x hx => hzero x (hzs.mem_iff.mp hx), hsize, hvalues⟩

variable (heap : StdHeap ServerBalanceInfo)

theorem tidy_add {memo : MemoDistri} (h : Tidy memo) {server : ServerItem}
    (hfit : Fitting memo (.add server)) : Tidy (add heap.toHeapAlgorithms memo server) := by
  obtain ⟨hweight, hprod⟩ := hfit
  have hperm := heap.push_perm lt (memo.mBalanceInfos ++ [.new server])
  have hmem : ∀ x ∈ heap.push_heap lt (memo.mBalanceInfos ++ [.new server]),
      x ∈ memo.mBalanceInfos ∨ x = .new server := by
    intro x hx
    simpa using hperm.mem_iff.mp hx
  have hpos : Positive (heap.push_heap lt (memo.mBalanceInfos ++ [.new server])) := by
    intro x hx
    rcases hmem x hx with hold | rfl
    · exact h.positive x hold
    · exact hweight
  have hfits : Fits (heap.push_heap lt (memo.mBalanceInfos ++ [.new server])) := by
    intro x hx y hy
    rcases hmem x hx with hx | rfl
    · rcases hmem y hy with hy | rfl
      · exact h.fits x hx y hy
      · exact hprod x hx
    · simp [ServerBalanceInfo.new]
  have hheap : IsHeap lt (heap.push_heap lt (memo.mBalanceInfos ++ [.new server])) := by
    apply heap.push_isHeap
    · exact (strictWeakOn_lt hpos hfits).perm hperm.symm
    · rw [List.dropLast_concat]
      exact h.front.isHeap
  exact ⟨(h.front.push_back server).arrange hperm hpos hfits hheap, hpos, hfits⟩

theorem tidy_remove {memo : MemoDistri} (h : Tidy memo) (server : ServerItem) :
    Tidy (remove memo server) := by
  have hsub : ∀ x ∈ (remove memo server).mBalanceInfos, x ∈ memo.mBalanceInfos := fun x hx =>
    List.mem_of_mem_eraseP hx
  refine ⟨?_, fun x hx => h.positive x (hsub x hx),
    fun x hx y hy => h.fits x (hsub x hx) y (hsub y hy)⟩
  have hfront := h.front
  unfold remove
  cases hinfos : memo.mBalanceInfos with
  | nil =>
      rw [hinfos] at hfront
      have hnil : memo.mKeyServerMapping.entries = [] := List.length_eq_zero_iff.mp hfront
      simp [FrontOnly, UnorderedMap.size, UnorderedMap.eraseValue, hnil]
  | cons front rest =>
      rw [hinfos] at hfront
      obtain ⟨hzero, hsize, hvalues⟩ := hfront
      by_cases hserver : front.Server = server
      · -- every hash was the front's, so none is left
        rw [List.eraseP_cons_of_pos (by simpa using hserver)]
        refine frontOnly_of_zero ?_ hzero
        exact UnorderedMap.size_eraseValue_eq_zero fun other hother =>
          (hvalues other hother).trans hserver
      · rw [List.eraseP_cons_of_neg (by simpa using hserver),
          UnorderedMap.eraseValue_eq_self fun hmem => hserver (hvalues server hmem).symm]
        exact ⟨fun x hx => hzero x (List.mem_of_mem_eraseP hx), hsize, hvalues⟩

/-- What an increment of the front does to the conditions on the infos. -/
theorem positive_fits_increment {front : ServerBalanceInfo} {rest : List ServerBalanceInfo}
    (hpos : Positive (front :: rest)) (hfits : Fits (front :: rest))
    (hprod : ∀ y ∈ front :: rest, (front.KeyCount.toNat + 1) * y.Server.weight < 2 ^ 64) :
    Positive (front.increment :: rest) ∧ Fits (front.increment :: rest) := by
  have hcount : front.increment.KeyCount.toNat = front.KeyCount.toNat + 1 :=
    toNat_increment (hpos front List.mem_cons_self) (hprod front List.mem_cons_self)
  have hserver : ∀ y ∈ front.increment :: rest, ∃ y' ∈ front :: rest, y.Server = y'.Server := by
    intro y hy
    rcases List.mem_cons.mp hy with rfl | hrest
    · exact ⟨front, List.mem_cons_self, rfl⟩
    · exact ⟨y, List.mem_cons_of_mem front hrest, rfl⟩
  constructor
  · intro x hx
    obtain ⟨x', hx', hsame⟩ := hserver x hx
    rw [hsame]
    exact hpos x' hx'
  · intro x hx y hy
    obtain ⟨y', hy', hsame⟩ := hserver y hy
    rw [hsame]
    rcases List.mem_cons.mp hx with rfl | hrest
    · rw [hcount]
      exact hprod y' hy'
    · exact hfits x (List.mem_cons_of_mem front hrest) y' hy'

/-- `Get` of a new hash: the front is counted, stays in front and is returned. -/
theorem get_new {memo : MemoDistri} (h : Tidy memo) {hash : HashT}
    (hnew : memo.mKeyServerMapping.lookup hash = none) (hfit : Fitting memo (.get hash))
    {front : ServerBalanceInfo} {rest : List ServerBalanceInfo}
    (hinfos : memo.mBalanceInfos = front :: rest) :
    front.increment.KeyCount.toNat = front.KeyCount.toNat + 1 ∧
      ∃ rest', rest'.Perm rest ∧ Positive (front.increment :: rest') ∧
        Fits (front.increment :: rest') ∧ get heap.toHeapAlgorithms memo hash =
          (some front.Server,
            { mKeyServerMapping := memo.mKeyServerMapping.insert hash front.Server
              mBalanceInfos := front.increment :: rest' }) := by
  have hfront := h.front
  have hposold := h.positive
  have hfitsold := h.fits
  have hprod := hfit hnew
  rw [hinfos] at hfront hposold hfitsold hprod
  obtain ⟨hzero, -, -⟩ := hfront
  have hprod : ∀ y ∈ front :: rest, (front.KeyCount.toNat + 1) * y.Server.weight < 2 ^ 64 :=
    hprod front rfl
  have hcount : front.increment.KeyCount.toNat = front.KeyCount.toNat + 1 :=
    toNat_increment (hposold front List.mem_cons_self) (hprod front List.mem_cons_self)
  obtain ⟨hpos, hfits⟩ := positive_fits_increment hposold hfitsold hprod
  have hswo := strictWeakOn_lt hpos hfits
  have hperm := (heap.push_perm lt (heap.pop_heap lt (front.increment :: rest))).trans
    (heap.pop_perm lt (front.increment :: rest))
  have hheap := heap.reheap hswo (isHeap_of_zero hzero)
  have hmax : ∀ y ∈ rest, lt y front.increment := fun y hy =>
    lt_of_zero hpos hfits (List.mem_cons_of_mem _ hy) List.mem_cons_self (hzero y hy) (by omega)
  obtain ⟨rest', heq, hrest⟩ := hheap.eq_cons (hswo.perm hperm) hperm hmax
  have hback := (List.Perm.cons front.increment hrest).subset
  refine ⟨hcount, rest', hrest, fun x hx => hpos x (hback hx),
    fun x hx y hy => hfits x (hback hx) y (hback hy), ?_⟩
  unfold get
  rw [hinfos, balanceInfoCompare_eq]
  dsimp only
  rw [hnew, heq]
  rfl

theorem get_empty {memo : MemoDistri} (hinfos : memo.mBalanceInfos = [])
    (heap : HeapAlgorithms ServerBalanceInfo) (hash : HashT) :
    get heap memo hash = (none, memo) := by
  unfold get
  rw [hinfos]

theorem get_known {memo : MemoDistri} (hinfos : memo.mBalanceInfos ≠ [])
    (heap : HeapAlgorithms ServerBalanceInfo) {hash : HashT} {server : ServerItem}
    (hknown : memo.mKeyServerMapping.lookup hash = some server) :
    get heap memo hash = (some server, memo) := by
  unfold get
  split
  · next hnil => exact absurd hnil hinfos
  · rw [hknown]

theorem tidy_get {memo : MemoDistri} (h : Tidy memo) {hash : HashT}
    (hfit : Fitting memo (.get hash)) : Tidy (get heap.toHeapAlgorithms memo hash).2 := by
  cases hinfos : memo.mBalanceInfos with
  | nil =>
      rw [get_empty hinfos]
      exact h
  | cons front rest =>
      cases hlookup : memo.mKeyServerMapping.lookup hash with
      | some server =>
          rw [get_known (by simp [hinfos]) _ hlookup]
          exact h
      | none =>
          obtain ⟨hcount, rest', hrest, hpos, hfits, hget⟩ := get_new heap h hlookup hfit hinfos
          have hfront := h.front
          rw [hinfos] at hfront
          obtain ⟨hzero, hsize, hvalues⟩ := hfront
          rw [hget]
          refine ⟨⟨fun x hx => hzero x (hrest.mem_iff.mp hx), ?_, ?_⟩, hpos, hfits⟩
          · rw [hcount, hsize, UnorderedMap.size_insert_of_lookup_eq_none hlookup]
          · intro server hserver
            rw [UnorderedMap.values_insert_of_lookup_eq_none hlookup] at hserver
            rcases List.mem_cons.mp hserver with rfl | hold
            · rfl
            · exact hvalues server hold

theorem tidy_step {memo memo' : MemoDistri} {e : Event} (h : Tidy memo) (hfit : Fitting memo e)
    (hstep : step heap.toHeapAlgorithms memo e = some memo') : Tidy memo' := by
  cases e with
  | add server =>
      cases hstep
      exact tidy_add heap h hfit
  | get hash =>
      cases hstep
      exact tidy_get heap h hfit
  | remove server =>
      cases hstep
      exact tidy_remove h server
  | clear =>
      cases hstep
      exact tidy_clear memo

/-! ## 5. The books are exact -/

def servers (memo : MemoDistri) : List ServerItem :=
  memo.mBalanceInfos.map ServerBalanceInfo.Server

theorem servers_add (heap : HeapAlgorithms ServerBalanceInfo) (memo : MemoDistri)
    (server : ServerItem) : (add heap memo server).servers.Perm (server :: memo.servers) := by
  have hpush := (heap.push_perm lt (memo.mBalanceInfos ++ [.new server])).map
    ServerBalanceInfo.Server
  rw [List.map_append] at hpush
  exact hpush.trans (List.perm_append_singleton _ _)

theorem servers_remove (memo : MemoDistri) (server : ServerItem) :
    (remove memo server).servers = memo.servers.erase server := by
  unfold remove servers
  dsimp only
  induction memo.mBalanceInfos with
  | nil => rfl
  | cons info infos ih =>
      by_cases hserver : info.Server = server
      · rw [List.eraseP_cons_of_pos (by simpa using hserver), List.map_cons, hserver,
          List.erase_cons_head]
      · rw [List.eraseP_cons_of_neg (by simpa using hserver), List.map_cons, List.map_cons, ih,
          List.erase_cons_tail (by simpa using hserver)]

/-- What `Get` can do, for algorithms that only permute the infos. -/
theorem get_cases (heap : HeapAlgorithms ServerBalanceInfo) (memo : MemoDistri) (hash : HashT) :
    (memo.mBalanceInfos = [] ∧ get heap memo hash = (none, memo)) ∨
    (memo.mBalanceInfos ≠ [] ∧ ∃ server, memo.mKeyServerMapping.lookup hash = some server ∧
      get heap memo hash = (some server, memo)) ∨
    (memo.mKeyServerMapping.lookup hash = none ∧ ∃ server infos, server ∈ memo.servers ∧
      (infos.map ServerBalanceInfo.Server).Perm memo.servers ∧
      get heap memo hash =
        (some server, ⟨memo.mKeyServerMapping.insert hash server, infos⟩)) := by
  cases hinfos : memo.mBalanceInfos with
  | nil => exact Or.inl ⟨rfl, get_empty hinfos heap hash⟩
  | cons front rest =>
      cases hlookup : memo.mKeyServerMapping.lookup hash with
      | some server =>
          exact Or.inr (Or.inl ⟨by simp, server, rfl, get_known (by simp [hinfos]) heap hlookup⟩)
      | none =>
          have hperm := ((heap.push_perm balanceInfoCompare _).trans
            (heap.pop_perm balanceInfoCompare (front.increment :: rest))).map
            ServerBalanceInfo.Server
          have hservers : memo.servers =
              (front.increment :: rest).map ServerBalanceInfo.Server := by
            unfold servers
            rw [hinfos]
            rfl
          refine Or.inr (Or.inr ⟨rfl, ?_⟩)
          unfold get
          rw [hinfos, hservers]
          dsimp only
          rw [hlookup]
          dsimp only
          split
          · next hnil =>
              rw [hnil] at hperm
              exact absurd hperm.length_eq (by simp)
          · next result others hheap =>
              exact ⟨result.Server, _,
                hperm.mem_iff.mp (List.mem_map_of_mem (by rw [hheap]; exact List.mem_cons_self)),
                hperm, rfl⟩

theorem servers_get (heap : HeapAlgorithms ServerBalanceInfo) (memo : MemoDistri) (hash : HashT) :
    (get heap memo hash).2.servers.Perm memo.servers := by
  rcases get_cases heap memo hash with ⟨-, hget⟩ | ⟨-, _, -, hget⟩ | ⟨-, _, infos, -, hperm, hget⟩
  · rw [hget]
  · rw [hget]
  · rw [hget]
    exact hperm

/-- The server is not in the list when it is added. -/
def Fresh (memo : MemoDistri) : Event → Prop
  | .add server => server ∉ memo.servers
  | _ => True

theorem nodup_step {heap : HeapAlgorithms ServerBalanceInfo} {memo memo' : MemoDistri} {e : Event}
    (h : memo.servers.Nodup) (hfresh : Fresh memo e) (hstep : step heap memo e = some memo') :
    memo'.servers.Nodup := by
  cases e with
  | add server =>
      cases hstep
      exact (servers_add heap memo server).nodup_iff.mpr (List.nodup_cons.mpr ⟨hfresh, h⟩)
  | get hash =>
      cases hstep
      exact (servers_get heap memo hash).nodup_iff.mpr h
  | remove server =>
      cases hstep
      rw [servers_remove]
      exact h.erase server
  | clear =>
      cases hstep
      exact List.nodup_nil

/-- From `memo` to `memo'` the hash was assigned to `info`, and `info` counted it. -/
structure Counted (memo memo' : MemoDistri) (hash : HashT) (info : ServerBalanceInfo) : Prop where
  mapping : memo'.mKeyServerMapping = memo.mKeyServerMapping.insert hash info.Server
  infos : ∃ others, memo.mBalanceInfos.Perm (info :: others) ∧
    memo'.mBalanceInfos.Perm (info.increment :: others)

theorem keyCount_eq {memo : MemoDistri} (h : Tidy memo) (hnodup : memo.servers.Nodup)
    {info : ServerBalanceInfo} (hinfo : info ∈ memo.mBalanceInfos) :
    info.KeyCount.toNat = (memo.mKeyServerMapping.keysOf info.Server).length := by
  have hfront := h.front
  unfold servers at hnodup
  cases hinfos : memo.mBalanceInfos with
  | nil => simp [hinfos] at hinfo
  | cons front rest =>
      rw [hinfos] at hfront hinfo hnodup
      obtain ⟨hzero, hsize, hvalues⟩ := hfront
      rcases List.mem_cons.mp hinfo with rfl | hrest
      · rw [UnorderedMap.length_keysOf_eq_size hvalues, hsize]
      · -- another server than the front: it has counted nothing and no hash maps to it
        rw [List.map_cons, List.nodup_cons] at hnodup
        have hnone : memo.mKeyServerMapping.keysOf info.Server = [] := by
          apply List.eq_nil_iff_forall_not_mem.mpr
          intro hash hhash
          have hvalue := UnorderedMap.mem_values.mpr ⟨hash, UnorderedMap.mem_keysOf.mp hhash⟩
          exact hnodup.1 (List.mem_map.mpr ⟨info, hrest, hvalues _ hvalue⟩)
        rw [hzero info hrest, hnone]
        rfl

theorem mem_servers_of_lookup {memo : MemoDistri} (h : Tidy memo) {hash : HashT}
    {server : ServerItem} (hlookup : memo.mKeyServerMapping.lookup hash = some server) :
    server ∈ memo.servers := by
  have hfront := h.front
  have hvalue := UnorderedMap.mem_values.mpr ⟨hash, hlookup⟩
  unfold servers
  cases hinfos : memo.mBalanceInfos with
  | nil =>
      rw [hinfos] at hfront
      rw [values_eq_nil hfront] at hvalue
      cases hvalue
  | cons front rest =>
      rw [hinfos] at hfront
      obtain ⟨-, -, hvalues⟩ := hfront
      rw [hvalues server hvalue]
      exact List.mem_map_of_mem List.mem_cons_self

theorem counted_front {memo : MemoDistri} (h : Tidy memo) {hash : HashT}
    (hnew : memo.mKeyServerMapping.lookup hash = none) (hfit : Fitting memo (.get hash))
    {front : ServerBalanceInfo} {rest : List ServerBalanceInfo}
    (hinfos : memo.mBalanceInfos = front :: rest) :
    (get heap.toHeapAlgorithms memo hash).1 = some front.Server ∧
      Counted memo (get heap.toHeapAlgorithms memo hash).2 hash front := by
  obtain ⟨-, rest', hrest, -, -, hget⟩ := get_new heap h hnew hfit hinfos
  rw [hget]
  exact ⟨rfl, rfl, rest, .of_eq hinfos, hrest.cons _⟩

/-- **Bookkeeping.**  In every reachable state each count is the number of hashes
    that map to the server, mapped servers are in the list, and `Get` returns the
    server it counts. -/
theorem bookkeeping {es : List Event} {memo : MemoDistri}
    (hrun : Run (step heap.toHeapAlgorithms) (fun m e => Fitting m e ∧ Fresh m e) new es memo) :
    (∀ info ∈ memo.mBalanceInfos,
      info.KeyCount.toNat = (memo.mKeyServerMapping.keysOf info.Server).length) ∧
    (∀ hash server, memo.mKeyServerMapping.lookup hash = some server → server ∈ memo.servers) ∧
    ∀ hash, memo.mKeyServerMapping.lookup hash = none → Fitting memo (.get hash) →
      memo.mBalanceInfos ≠ [] →
      ∃ info ∈ memo.mBalanceInfos,
        (get heap.toHeapAlgorithms memo hash).1 = some info.Server ∧
          Counted memo (get heap.toHeapAlgorithms memo hash).2 hash info := by
  obtain ⟨htidy, hnodup⟩ : Tidy memo ∧ memo.servers.Nodup := by
    refine hrun.invariant (I := fun m => Tidy m ∧ m.servers.Nodup) ?_ ⟨tidy_new, List.nodup_nil⟩
    intro m e m' hm hguard hstep
    exact ⟨tidy_step heap hm.1 hguard.1 hstep, nodup_step hm.2 hguard.2 hstep⟩
  refine ⟨fun info => keyCount_eq htidy hnodup, fun hash server => mem_servers_of_lookup htidy, ?_⟩
  intro hash hnew hfit hne
  obtain ⟨front, rest, hinfos⟩ := List.exists_cons_of_ne_nil hne
  exact ⟨front, by simp [hinfos], counted_front heap htidy hnew hfit hinfos⟩

/-! ## 6. Executions -/

instance (memo : MemoDistri) (e : Event) : Decidable (Fitting memo e) :=
  match e with
  | .add _ => inferInstanceAs (Decidable (_ ∧ _))
  | .get _ => inferInstanceAs (Decidable (_ → _))
  | .remove _ => inferInstanceAs (Decidable True)
  | .clear => inferInstanceAs (Decidable True)

instance (memo : MemoDistri) (e : Event) : Decidable (Fresh memo e) :=
  match e with
  | .add _ => inferInstanceAs (Decidable (_ ∉ _))
  | .get _ => inferInstanceAs (Decidable True)
  | .remove _ => inferInstanceAs (Decidable True)
  | .clear => inferInstanceAs (Decidable True)

def first : ServerItem := ⟨0, [97], 11211, 1⟩

def second : ServerItem := ⟨1, [98], 11211, 1⟩

/-- Two servers of the same weight, and the first hash. -/
def oneHash : MemoDistri :=
  ⟨(∅ : UnorderedMap HashT ServerItem).insert 7 first, [⟨first, 1⟩, ⟨second, 0⟩]⟩

theorem run_oneHash :
    Run (step (siftHeap ServerBalanceInfo).toHeapAlgorithms) (fun m e => Fitting m e ∧ Fresh m e)
      new [.add first, .add second, .get 7] oneHash :=
  .cons ⟨by decide, by decide⟩ rfl (.cons ⟨by decide, by decide⟩ rfl
    (.cons ⟨by decide, by decide⟩ rfl (.nil _)))

theorem bookkeeping_oneHash :
    (∀ info ∈ oneHash.mBalanceInfos,
      info.KeyCount.toNat = (oneHash.mKeyServerMapping.keysOf info.Server).length) ∧
    (∀ hash server,
      oneHash.mKeyServerMapping.lookup hash = some server → server ∈ oneHash.servers) ∧
    ∀ hash, oneHash.mKeyServerMapping.lookup hash = none → Fitting oneHash (.get hash) →
      oneHash.mBalanceInfos ≠ [] →
      ∃ info ∈ oneHash.mBalanceInfos,
        (get (siftHeap ServerBalanceInfo).toHeapAlgorithms oneHash hash).1 = some info.Server ∧
          Counted oneHash (get (siftHeap ServerBalanceInfo).toHeapAlgorithms oneHash hash).2
            hash info :=
  bookkeeping (siftHeap ServerBalanceInfo) run_oneHash

/-! ## 7. Balance -/

/-- `Get` assigns the hash to an info with the least `KeyCount / Weight` of all,
    compared by cross-multiplication. -/
def AssignsLeast (heap : HeapAlgorithms ServerBalanceInfo) (memo : MemoDistri) (hash : HashT) :
    Prop :=
  ∃ info ∈ memo.mBalanceInfos,
    (get heap memo hash).1 = some info.Server ∧ Counted memo (get heap memo hash).2 hash info ∧
      ∀ other ∈ memo.mBalanceInfos,
        info.KeyCount.toNat * other.Server.weight ≤ other.KeyCount.toNat * info.Server.weight

theorem increment_ne (info : ServerBalanceInfo) : info.increment ≠ info := by
  intro heq
  have hcount : info.KeyCount + 1#64 = info.KeyCount := congrArg ServerBalanceInfo.KeyCount heq
  simp at hcount

/-- Two infos that could have been counted by the same step are the same. -/
theorem Counted.unique {memo memo' : MemoDistri} {hash : HashT} {x y : ServerBalanceInfo}
    (hx : Counted memo memo' hash x) (hy : Counted memo memo' hash y) : x = y := by
  obtain ⟨xs, hbefore, hafter⟩ := hx.infos
  obtain ⟨ys, hbefore', hafter'⟩ := hy.infos
  have hold := (hbefore.symm.trans hbefore').count_eq x
  have hnew := (hafter.symm.trans hafter').count_eq x
  by_contra hne
  -- `x` was one of the others for `y`, and is no longer there for `x`
  rw [List.count_cons_self, List.count_cons_of_ne (Ne.symm hne)] at hold
  rw [List.count_cons_of_ne (increment_ne x)] at hnew
  have hle : ys.count x ≤ (y.increment :: ys).count x := List.count_le_count_cons
  omega

theorem assignsLeast_iff {memo : MemoDistri} (h : Tidy memo) {hash : HashT}
    (hnew : memo.mKeyServerMapping.lookup hash = none) (hfit : Fitting memo (.get hash)) :
    AssignsLeast heap.toHeapAlgorithms memo hash ↔
      memo.mBalanceInfos ≠ [] ∧
        (memo.mKeyServerMapping.size = 0 ∨ memo.mBalanceInfos.length = 1) := by
  have hpos := h.positive
  have hfront := h.front
  cases hinfos : memo.mBalanceInfos with
  | nil =>
      constructor
      · rintro ⟨info, hinfo, -⟩
        simp [hinfos] at hinfo
      · rintro ⟨hne, -⟩
        exact absurd rfl hne
  | cons front rest =>
      have hcounted := counted_front heap h hnew hfit hinfos
      rw [hinfos] at hfront hpos
      obtain ⟨hzero, hsize, -⟩ := hfront
      constructor
      · rintro ⟨info, -, -, hinfo, hleast⟩
        rw [hinfo.unique hcounted.2, hinfos] at hleast
        refine ⟨by simp, ?_⟩
        rcases rest with - | ⟨other, rest⟩
        · exact Or.inr rfl
        · -- an idle server beside the front: the front must be idle too
          left
          have hidle : other.KeyCount = 0 := hzero other List.mem_cons_self
          have hle := hleast other (by simp)
          have hw := weight_pos (hpos other (by simp))
          have hother : other.KeyCount.toNat = 0 := by
            rw [hidle]
            rfl
          rw [hother, Nat.zero_mul, Nat.le_zero, Nat.mul_eq_zero] at hle
          omega
      · rintro ⟨-, hcond⟩
        refine ⟨front, by simp [hinfos], hcounted.1, hcounted.2, ?_⟩
        rw [hinfos]
        intro other hother
        rcases hcond with hempty | hone
        · rw [hsize, hempty, Nat.zero_mul]
          exact Nat.zero_le _
        · rw [List.length_cons, Nat.add_eq_right, List.length_eq_zero_iff] at hone
          subst hone
          rw [List.mem_singleton.mp hother]

/-- **Balance.**  `Get` takes a least loaded server for a new hash exactly when no
    hash was assigned before, or there is one server only. -/
theorem balances_iff {es : List Event} {memo : MemoDistri}
    (hrun : Run (step heap.toHeapAlgorithms) Fitting new es memo) {hash : HashT}
    (hnew : memo.mKeyServerMapping.lookup hash = none) (hfit : Fitting memo (.get hash)) :
    AssignsLeast heap.toHeapAlgorithms memo hash ↔
      memo.mBalanceInfos ≠ [] ∧
        (memo.mKeyServerMapping.size = 0 ∨ memo.mBalanceInfos.length = 1) :=
  assignsLeast_iff heap
    (hrun.invariant (fun _ _ _ hm hguard hstep => tidy_step heap hm hguard hstep) tidy_new)
    hnew hfit

theorem balances_iff_oneHash :
    AssignsLeast (siftHeap ServerBalanceInfo).toHeapAlgorithms oneHash 8 ↔
      oneHash.mBalanceInfos ≠ [] ∧
        (oneHash.mKeyServerMapping.size = 0 ∨ oneHash.mBalanceInfos.length = 1) :=
  balances_iff (siftHeap ServerBalanceInfo) (run_oneHash.mono fun _ _ hguard => hguard.1)
    rfl (by decide)

/-- Two equal servers: the second hash goes to the first server again. -/
theorem not_balances :
    ¬ ∀ (heap : StdHeap ServerBalanceInfo) (es : List Event) (memo : MemoDistri),
      Run (step heap.toHeapAlgorithms) Fitting new es memo → ∀ hash,
        memo.mKeyServerMapping.lookup hash = none → Fitting memo (.get hash) →
          AssignsLeast heap.toHeapAlgorithms memo hash := by
  intro hall
  obtain ⟨info, hinfo, hserver, -, hleast⟩ :=
    hall (siftHeap ServerBalanceInfo) _ _ (run_oneHash.mono fun _ _ hguard => hguard.1) 8 rfl
      (by decide)
  have hfirst : first = info.Server := Option.some.inj (Eq.trans (by decide) hserver)
  have hle := hleast ⟨second, 0⟩ (by decide)
  rcases List.mem_cons.mp hinfo with rfl | hrest
  · exact absurd hle (by decide)
  · rw [List.mem_singleton.mp hrest] at hfirst
    exact absurd hfirst (by decide)

end MemoDistri

end MemClient
