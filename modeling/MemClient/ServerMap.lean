import MemClient.ServerList

/-!
# The server list as a map

The calls of `ServerList` that name a server by host and port, against a finite
map from pairs.  The table's own key is the host followed by the decimal port, so
the two agree as long as no two pairs in use have the same string, and differ as
soon as a call meets one (`map_of_pairs_iff`).
-/

namespace MemClient

open ByteCodec

namespace ServerList

/-! ## 1. Calls and the reference -/

/-- The calls that name a server by host and port. -/
inductive MapOp where
  | add (host : Bytes) (port : BitVec 32)
  | remove (host : Bytes) (port : BitVec 32)
  | get (host : Bytes) (port : BitVec 32)

/-- The pair a call is about. -/
def MapOp.pair : MapOp → Bytes × BitVec 32
  | .add host port => (host, port)
  | .remove host port => (host, port)
  | .get host port => (host, port)

/-- What a caller sees: a success flag, or the `Host()` and `Port()` of the
    returned server. -/
inductive Answer where
  | flag (b : Bool)
  | server (pair : Option (Bytes × BitVec 32))
deriving DecidableEq

def hostPort (server : ServerItem) : Bytes × BitVec 32 := (server.mHost, server.mPort)

def keyOf (pair : Bytes × BitVec 32) : Bytes := ServerItem.toStringOf pair.1 pair.2

/-- One call: its answer, and the list after it. -/
def call (P : Platform) (s : ServerList) : MapOp → Except MissingFault (Answer × ServerList)
  | .add host port => (s.add P host port).map fun (b, s) => (.flag b, s)
  | .remove host port => (s.remove host port).map fun (b, s) => (.flag b, s)
  | .get host port => .ok (.server ((s.getServer host port).map hostPort), s)

/-- The answers of a sequence of calls, each with the `Count` after it. -/
def answers (P : Platform) (s : ServerList) : List MapOp → Except MissingFault (List (Answer × Nat))
  | [] => .ok []
  | op :: ops => do
      let outcome ← call P s op
      let rest ← answers P outcome.2 ops
      return (outcome.1, outcome.2.count) :: rest

/-- The reference: a finite map that has a server for each of a set of pairs. -/
def pairCall (present : Finset (Bytes × BitVec 32)) : MapOp → Answer × Finset (Bytes × BitVec 32)
  | .add host port => (.flag (decide ((host, port) ∉ present)), insert (host, port) present)
  | .remove host port => (.flag (decide ((host, port) ∈ present)), present.erase (host, port))
  | .get host port =>
      (.server (if (host, port) ∈ present then some (host, port) else none), present)

def pairAnswers (present : Finset (Bytes × BitVec 32)) : List MapOp → List (Answer × Nat)
  | [] => []
  | op :: ops =>
      ((pairCall present op).1, (pairCall present op).2.card) ::
        pairAnswers (pairCall present op).2 ops

/-! ## 2. Pairs with the same string -/

/-- At every call no other present pair has the string of the call's pair. -/
def Distinguished (present : Finset (Bytes × BitVec 32)) : List MapOp → Prop
  | [] => True
  | op :: ops =>
      (∀ pair ∈ present, keyOf pair = keyOf op.pair → pair = op.pair) ∧
        Distinguished (pairCall present op).2 ops

/-- The table has one server for each present pair, under its string. -/
structure InSync (s : ServerList) (present : Finset (Bytes × BitVec 32)) : Prop where
  installed : s.mDistributeAlgorithm.isSome
  sound : ∀ key server, s.mServers.lookup key = some server →
    hostPort server ∈ present ∧ key = keyOf (hostPort server)
  complete : ∀ pair ∈ present, ∃ server,
    s.mServers.lookup (keyOf pair) = some server ∧ hostPort server = pair
  count : s.count = present.card

variable {P : Platform} {s : ServerList} {present : Finset (Bytes × BitVec 32)}

/-- No other present pair shares the string: the table answers for the pair. -/
theorem InSync.lookup_pair (h : InSync s present) {pair : Bytes × BitVec 32}
    (hdist : ∀ other ∈ present, keyOf other = keyOf pair → other = pair) :
    (s.mServers.lookup (keyOf pair)).map hostPort = if pair ∈ present then some pair else none := by
  cases hlookup : s.mServers.lookup (keyOf pair) with
  | none =>
      rw [if_neg]
      · rfl
      · intro hmem
        obtain ⟨server, hserver, -⟩ := h.complete pair hmem
        rw [hlookup] at hserver
        cases hserver
  | some server =>
      obtain ⟨hmem, hkey⟩ := h.sound _ _ hlookup
      have hpair := hdist _ hmem hkey.symm
      rw [if_pos (hpair ▸ hmem), Option.map_some, hpair]

theorem InSync.pair_eq (h : InSync s present) {pair other : Bytes × BitVec 32}
    (hpair : pair ∈ present) (hother : other ∈ present) (hkey : keyOf pair = keyOf other) :
    pair = other := by
  obtain ⟨server, hserver, rfl⟩ := h.complete pair hpair
  obtain ⟨server', hserver', rfl⟩ := h.complete other hother
  rw [hkey, hserver'] at hserver
  rw [Option.some.inj hserver]

theorem inSync_add (h : InSync s present) {host : Bytes} {port : BitVec 32}
    (hdist : ∀ other ∈ present, keyOf other = keyOf (host, port) → other = (host, port)) :
    ∃ s', s.add P host port = .ok (decide ((host, port) ∉ present), s') ∧
      InSync s' (insert (host, port) present) := by
  have hpair := h.lookup_pair hdist
  obtain ⟨ref, hinst⟩ := Option.isSome_iff_exists.mp h.installed
  by_cases hmem : (host, port) ∈ present
  · obtain ⟨server, hserver, -⟩ := h.complete _ hmem
    have hserver : s.mServers.lookup (ServerItem.toStringOf host port) = some server := hserver
    refine ⟨s, ?_, ?_⟩
    · unfold add
      rw [hserver]
      simp [hmem]
    · rw [Finset.insert_eq_of_mem hmem]
      exact h
  · rw [if_neg hmem, Option.map_eq_none_iff] at hpair
    have hnone : s.mServers.lookup (ServerItem.toStringOf host port) = none := hpair
    refine ⟨(s.insertServer host port).2.setAlgorithm ref
      ((s.algorithms ref).add P (s.insertServer host port).1), ?_, ?_⟩
    · unfold add
      rw [hnone]
      have hsame : (s.insertServer host port).2.mDistributeAlgorithm = some ref := hinst
      simp only [hsame]
      simp [hmem]
      rfl
    · constructor
      · exact h.installed
      · intro key server hlookup
        have hlookup : (s.mServers.insert (keyOf (host, port))
          (s.insertServer host port).1).lookup key = some server := hlookup
        rw [UnorderedMap.lookup_insert_eq] at hlookup
        split at hlookup
        · next hkey =>
            cases hlookup
            exact ⟨Finset.mem_insert_self _ _, hkey⟩
        · obtain ⟨hold, hkey⟩ := h.sound _ _ hlookup
          exact ⟨Finset.mem_insert_of_mem hold, hkey⟩
      · intro pair hpairmem
        show ∃ server, (s.mServers.insert (keyOf (host, port))
          (s.insertServer host port).1).lookup (keyOf pair) = some server ∧ hostPort server = pair
        rw [UnorderedMap.lookup_insert_eq]
        rcases Finset.mem_insert.mp hpairmem with rfl | hold
        · exact ⟨(s.insertServer host port).1, if_pos rfl, rfl⟩
        · rw [if_neg]
          · exact h.complete pair hold
          · intro hkey
            exact hmem (hdist pair hold hkey ▸ hold)
      · rw [Finset.card_insert_of_notMem hmem, ← h.count]
        exact UnorderedMap.size_insert_of_lookup_eq_none hnone _

theorem inSync_remove (h : InSync s present) {host : Bytes} {port : BitVec 32}
    (hdist : ∀ other ∈ present, keyOf other = keyOf (host, port) → other = (host, port)) :
    ∃ s', s.remove host port = .ok (decide ((host, port) ∈ present), s') ∧
      InSync s' (present.erase (host, port)) := by
  have hpair := h.lookup_pair hdist
  obtain ⟨ref, hinst⟩ := Option.isSome_iff_exists.mp h.installed
  by_cases hmem : (host, port) ∈ present
  · obtain ⟨server, hserver, hserverpair⟩ := h.complete _ hmem
    have hserver : s.mServers.lookup (ServerItem.toStringOf host port) = some server := hserver
    refine ⟨{ s.setAlgorithm ref ((s.algorithms ref).remove server) with
      mServers := s.mServers.erase (ServerItem.toStringOf host port) }, ?_, ?_⟩
    · unfold remove
      simp only [hserver, hinst]
      simp [hmem]
      rfl
    · constructor
      · exact h.installed
      · intro key other hlookup
        have hlookup : (s.mServers.erase (keyOf (host, port))).lookup key = some other := hlookup
        rw [UnorderedMap.lookup_erase_eq] at hlookup
        split at hlookup
        · cases hlookup
        · next hne =>
            obtain ⟨hold, hkey⟩ := h.sound _ _ hlookup
            refine ⟨Finset.mem_erase.mpr ⟨?_, hold⟩, hkey⟩
            intro heq
            exact hne (heq ▸ hkey)
      · intro pair hpairmem
        obtain ⟨hne, hold⟩ := Finset.mem_erase.mp hpairmem
        obtain ⟨other, hother, hotherpair⟩ := h.complete pair hold
        refine ⟨other, ?_, hotherpair⟩
        show (s.mServers.erase (keyOf (host, port))).lookup (keyOf pair) = some other
        rw [UnorderedMap.lookup_erase_eq, if_neg fun hkey => hne (hdist pair hold hkey), hother]
      · rw [Finset.card_erase_of_mem hmem, ← h.count]
        have hsize := UnorderedMap.size_erase_of_lookup_eq_some hserver
        show UnorderedMap.size (s.mServers.erase (ServerItem.toStringOf host port)) = s.count - 1
        unfold count
        omega
  · rw [if_neg hmem, Option.map_eq_none_iff] at hpair
    have hnone : s.mServers.lookup (ServerItem.toStringOf host port) = none := hpair
    refine ⟨s, ?_, ?_⟩
    · unfold remove
      simp only [hnone]
      simp [hmem]
    · rw [Finset.erase_eq_of_notMem hmem]
      exact h

/-- A call about a pair that shares its string with no other present pair is
    answered as by the reference. -/
theorem call_distinguished (h : InSync s present) {op : MapOp}
    (hdist : ∀ pair ∈ present, keyOf pair = keyOf op.pair → pair = op.pair) :
    ∃ s', call P s op = .ok ((pairCall present op).1, s') ∧ InSync s' (pairCall present op).2 := by
  cases op with
  | add host port =>
      obtain ⟨s', hadd, hsync⟩ := inSync_add (P := P) h hdist
      exact ⟨s', by rw [call, hadd]; rfl, hsync⟩
  | remove host port =>
      obtain ⟨s', hremove, hsync⟩ := inSync_remove h hdist
      exact ⟨s', by rw [call, hremove]; rfl, hsync⟩
  | get host port =>
      refine ⟨s, ?_, h⟩
      have hpair : (s.mServers.lookup (keyOf (host, port))).map hostPort =
          if (host, port) ∈ present then some (host, port) else none := h.lookup_pair hdist
      show Except.ok (Answer.server ((s.mServers.lookup (keyOf (host, port))).map hostPort), s) = _
      rw [hpair]
      rfl

/-- A call about a pair whose string belongs to another present pair is not. -/
theorem call_confused (h : InSync s present) {op : MapOp} {pair : Bytes × BitVec 32}
    (hmem : pair ∈ present) (hkey : keyOf pair = keyOf op.pair) (hne : pair ≠ op.pair) :
    ∃ answer s', call P s op = .ok (answer, s') ∧ answer ≠ (pairCall present op).1 := by
  have hnot : op.pair ∉ present := fun hop => hne (h.pair_eq hmem hop hkey)
  obtain ⟨server, hserver, hserverpair⟩ := h.complete pair hmem
  rw [hkey] at hserver
  obtain ⟨ref, hinst⟩ := Option.isSome_iff_exists.mp h.installed
  cases op with
  | add host port =>
      have hserver : s.mServers.lookup (ServerItem.toStringOf host port) = some server := hserver
      have hnot : (host, port) ∉ present := hnot
      refine ⟨.flag false, s, ?_, ?_⟩
      · rw [call, add, hserver]
        rfl
      · simp [pairCall, hnot]
  | remove host port =>
      have hserver : s.mServers.lookup (ServerItem.toStringOf host port) = some server := hserver
      have hnot : (host, port) ∉ present := hnot
      refine ⟨.flag true, { s.setAlgorithm ref ((s.algorithms ref).remove server) with
        mServers := s.mServers.erase (ServerItem.toStringOf host port) }, ?_, ?_⟩
      · rw [call, remove]
        simp only [hserver, hinst]
        rfl
      · simp [pairCall, hnot]
  | get host port =>
      have hserver : s.mServers.lookup (ServerItem.toStringOf host port) = some server := hserver
      have hnot : (host, port) ∉ present := hnot
      refine ⟨.server (some pair), s, ?_, ?_⟩
      · rw [call, getServer, hserver, Option.map_some, hserverpair]
      · simp [pairCall, hnot]

theorem answers_cons {op : MapOp} {ops : List MapOp} {answer : Answer} {s' : ServerList}
    (hcall : call P s op = .ok (answer, s')) :
    answers P s (op :: ops) = (answers P s' ops).map fun rest => (answer, s'.count) :: rest := by
  rw [answers, hcall]
  cases hrest : answers P s' ops with
  | error fault => simp [bind, Except.bind, hrest, Except.map]
  | ok rest => simp [bind, Except.bind, hrest, Except.map, pure, Except.pure]

theorem answers_eq_iff {ops : List MapOp} (h : InSync s present) :
    answers P s ops = .ok (pairAnswers present ops) ↔ Distinguished present ops := by
  induction ops generalizing s present with
  | nil => exact ⟨fun _ => trivial, fun _ => rfl⟩
  | cons op ops ih =>
      by_cases hdist : ∀ pair ∈ present, keyOf pair = keyOf op.pair → pair = op.pair
      · obtain ⟨s', hcall, hsync⟩ := call_distinguished (P := P) h hdist
        have hrest := ih hsync
        rw [answers_cons hcall, pairAnswers, hsync.count]
        constructor
        · intro heq
          refine ⟨hdist, hrest.mp ?_⟩
          cases hanswers : answers P s' ops with
          | error fault => simp [hanswers, Except.map] at heq
          | ok rest => simpa [hanswers, Except.map] using heq
        · rintro ⟨-, htail⟩
          rw [hrest.mpr htail]
          rfl
      · have hconfused := hdist
        push Not at hdist
        obtain ⟨pair, hmem, hkey, hne⟩ := hdist
        obtain ⟨answer, s', hcall, hdiffer⟩ := call_confused (P := P) h hmem hkey hne
        constructor
        · intro heq
          rw [answers_cons hcall, pairAnswers] at heq
          cases hanswers : answers P s' ops with
          | error fault => simp [hanswers, Except.map] at heq
          | ok rest =>
              simp only [hanswers, Except.map, Except.ok.injEq, List.cons.injEq,
                Prod.mk.injEq] at heq
              exact absurd heq.1.1 hdiffer
        · rintro ⟨hhead, -⟩
          exact absurd hhead hconfused

theorem inSync_new (P : Platform) (mHashFunc : Bytes → HashT)
    (algorithms : AlgorithmRef → DistributeAlgorithm) (ref : AlgorithmRef) :
    InSync ((new mHashFunc algorithms).setDistributeAlgorithm P ref []).2 ∅ where
  installed := rfl
  sound := by
    intro key server hlookup
    cases hlookup
  complete := by simp
  count := rfl

/-- **A map from pairs.**  From the empty list with an algorithm installed, every
    answer and every count is the reference map's, exactly when no call meets
    another present pair with the same string. -/
theorem map_of_pairs_iff (P : Platform) (mHashFunc : Bytes → HashT)
    (algorithms : AlgorithmRef → DistributeAlgorithm) (ref : AlgorithmRef) (ops : List MapOp) :
    answers P ((new mHashFunc algorithms).setDistributeAlgorithm P ref []).2 ops =
      .ok (pairAnswers ∅ ops) ↔ Distinguished ∅ ops :=
  answers_eq_iff (inSync_new P mHashFunc algorithms ref)

/-- Hosts `a` and `a1`: port 11 of the first and port 1 of the second are both `a11`. -/
theorem not_map_of_pairs :
    ¬ ∀ (P : Platform) (mHashFunc : Bytes → HashT)
      (algorithms : AlgorithmRef → DistributeAlgorithm) (ref : AlgorithmRef) (ops : List MapOp),
      answers P ((new mHashFunc algorithms).setDistributeAlgorithm P ref []).2 ops =
        .ok (pairAnswers ∅ ops) := by
  intro hall
  have heq := hall examplePlatform (fun _ => 0) (fun _ => .memoDistri .new) 0
    [.add [97] 11, .add [97, 49] 1]
  have hdist := (answers_eq_iff (inSync_new _ _ _ _)).mp heq
  obtain ⟨-, hsecond, -⟩ := hdist
  have hpair := hsecond ([97], 11) (by decide) (by decide)
  exact absurd hpair (by decide)

end ServerList

end MemClient
