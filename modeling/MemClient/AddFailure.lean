import MemClient.ServerList

/-!
# A server that cannot be resolved

`ServerList::Add` lists the new server and hands it to the distribution algorithm before it
calls `TcpClient::Connect`, whose resolver throws for a host that it cannot resolve; nothing
of `Add` undoes the first two on the way out.  Section 1 is `Add` with that exception,
Section 2 what it leaves behind, for this call and for those after it.
-/

namespace MemClient

open ByteCodec EventRun

/-! ## 1. Add with an exception -/

/-- How a call of `Add` ends. -/
inductive AddOutcome where
  | returned (added : Bool)
  | threw
deriving DecidableEq

namespace ServerList

variable (P : Platform)

/-- `Add`; `resolved` says whether `resolver.resolve(query)` returns, and otherwise the
    exception leaves `Connect` and `Add`. -/
def tryAdd (s : ServerList) (host : Bytes) (port : BitVec 32) (resolved : Bool) :
    Except MissingFault (AddOutcome × ServerList) :=
  match s.mServers.lookup (ServerItem.toStringOf host port) with
  | some _ => .ok (.returned false, s)
  | none =>
      let (server, s) := s.insertServer host port
      match s.mDistributeAlgorithm with
      | some ref =>
          let s := s.setAlgorithm ref ((s.algorithms ref).add P server)
          -- `Connect`, then `OnServerAdded`
          if resolved then .ok (.returned true, s) else .ok (.threw, s)
      | none => .error .nullAlgorithm

/-- If the call throws, it leaves the table and the answers of the installed algorithm as
    they were, and a later call of the same `Add` succeeds. -/
def AllOrNothing (s : ServerList) (host : Bytes) (port : BitVec 32) : Prop :=
  ∀ after, s.tryAdd P host port false = .ok (.threw, after) →
    after.mServers = s.mServers ∧
    (∀ ref, s.mDistributeAlgorithm = some ref → ∀ hash,
      ((after.algorithms ref).get P hash).map Prod.fst =
        ((s.algorithms ref).get P hash).map Prod.fst) ∧
    ∃ done, after.tryAdd P host port true = .ok (.returned true, done)

/-! ## 2. What is left behind -/

variable {P} {s s' after : ServerList} {host : Bytes} {port : BitVec 32}

/-- When the host is resolved, this is `Add` as it is used elsewhere. -/
theorem tryAdd_true (s : ServerList) (host : Bytes) (port : BitVec 32) :
    s.tryAdd P host port true =
      (s.add P host port).map fun (added, s') => (.returned added, s') := by
  unfold tryAdd add
  cases s.mServers.lookup (ServerItem.toStringOf host port) with
  | some server => rfl
  | none =>
      have hsame : (s.insertServer host port).2.mDistributeAlgorithm = s.mDistributeAlgorithm := rfl
      simp only [hsame]
      cases s.mDistributeAlgorithm with
      | none => rfl
      | some ref => rfl

/-- An `Add` of a server that is listed does not get as far as `Connect`. -/
theorem tryAdd_of_listed (h : (s.getServer host port).isSome) (resolved : Bool) :
    s.tryAdd P host port resolved = .ok (.returned false, s) := by
  obtain ⟨server, hserver⟩ := Option.isSome_iff_exists.mp h
  have hlookup : s.mServers.lookup (ServerItem.toStringOf host port) = some server := hserver
  unfold tryAdd
  rw [hlookup]

/-- An `Add` that throws leaves what a successful one leaves. -/
theorem tryAdd_of_unlisted {ref : AlgorithmRef} (hinst : s.mDistributeAlgorithm = some ref)
    (hnone : s.getServer host port = none) :
    s.tryAdd P host port false = .ok (.threw,
      (s.insertServer host port).2.setAlgorithm ref
        ((s.algorithms ref).add P (s.insertServer host port).1)) := by
  have hlookup : s.mServers.lookup (ServerItem.toStringOf host port) = none := hnone
  have hsame : (s.insertServer host port).2.mDistributeAlgorithm = some ref := hinst
  unfold tryAdd
  rw [hlookup]
  simp only [hsame]
  rfl

theorem isSome_getServer_insertServer (s : ServerList) (host : Bytes) (port : BitVec 32) :
    ((s.insertServer host port).2.getServer host port).isSome := by
  show ((s.mServers.insert (ServerItem.toStringOf host port)
    (s.insertServer host port).1).lookup (ServerItem.toStringOf host port)).isSome
  rw [UnorderedMap.lookup_insert_eq, if_pos rfl]
  rfl

/-- The server that could not be reached is listed. -/
theorem listed_of_threw (hthrew : s.tryAdd P host port false = .ok (.threw, after)) :
    (after.getServer host port).isSome := by
  cases hnone : s.getServer host port with
  | some server =>
      rw [tryAdd_of_listed (by rw [hnone]; rfl)] at hthrew
      cases hthrew
  | none =>
      cases hinst : s.mDistributeAlgorithm with
      | none =>
          have hlookup : s.mServers.lookup (ServerItem.toStringOf host port) = none := hnone
          have hsame : (s.insertServer host port).2.mDistributeAlgorithm = none := hinst
          unfold tryAdd at hthrew
          rw [hlookup] at hthrew
          simp only [hsame] at hthrew
          cases hthrew
      | some ref =>
          rw [tryAdd_of_unlisted hinst hnone] at hthrew
          cases hthrew
          exact isSome_getServer_insertServer s host port

theorem not_allOrNothing_of_unlisted {ref : AlgorithmRef}
    (hinst : s.mDistributeAlgorithm = some ref) (hnone : s.getServer host port = none) :
    ¬ AllOrNothing P s host port := by
  intro hatomic
  have hthrew := tryAdd_of_unlisted (P := P) hinst hnone
  obtain ⟨-, -, done, hdone⟩ := hatomic _ hthrew
  rw [tryAdd_of_listed (listed_of_threw hthrew)] at hdone
  cases hdone

/-- **Adding a server that cannot be resolved.**  The call is all or nothing exactly when the
    server is listed already, so that nothing is tried. -/
theorem allOrNothing_iff {ref : AlgorithmRef} (hinst : s.mDistributeAlgorithm = some ref) :
    AllOrNothing P s host port ↔ (s.getServer host port).isSome := by
  constructor
  · intro hatomic
    by_contra hnone
    exact not_allOrNothing_of_unlisted hinst (Option.not_isSome_iff_eq_none.mp hnone) hatomic
  · intro hlisted after hthrew
    rw [tryAdd_of_listed hlisted] at hthrew
    cases hthrew

/-- The second `Add` of a server is all or nothing. -/
theorem allOrNothing_second_add :
    ∃ s, exampleList.add examplePlatform [97] 1 = .ok (true, s) ∧
      AllOrNothing examplePlatform s [97] 1 := by
  exact ⟨_, rfl, (allOrNothing_iff (rfl : _ = some (1 : AlgorithmRef))).mpr
    (isSome_getServer_insertServer exampleList [97] 1)⟩

/-- `Add("a", 1)` to an empty list, when the host cannot be resolved. -/
theorem not_allOrNothing_first_add : ¬ AllOrNothing examplePlatform exampleList [97] 1 :=
  not_allOrNothing_of_unlisted (show exampleList.mDistributeAlgorithm = some 1 from rfl) rfl

/-- A step that does not remove the server keeps it listed. -/
theorem listed_step (h : (s.getServer host port).isSome) {e : Event}
    (hkeep : ∀ host' port', e = .remove host' port' →
      ServerItem.toStringOf host' port' ≠ ServerItem.toStringOf host port)
    (hstep : step P s e = some s') : (s'.getServer host port).isSome := by
  cases e with
  | add host' port' =>
      obtain ⟨b, hadd⟩ := step_add_iff.mp hstep
      rcases add_eq_ok hadd with ⟨-, rfl⟩ | ⟨-, -, ref, -, rfl⟩
      · exact h
      · show ((s.mServers.insert (ServerItem.toStringOf host' port') _).lookup _).isSome
        rw [UnorderedMap.lookup_insert_eq]
        split
        · rfl
        · exact h
  | remove host' port' =>
      obtain ⟨b, hremove⟩ := step_remove_iff.mp hstep
      rcases remove_eq_ok hremove with ⟨-, rfl, -⟩ | ⟨-, server, -, ref, -, rfl⟩
      · exact h
      · show ((s.mServers.erase (ServerItem.toStringOf host' port')).lookup _).isSome
        rw [UnorderedMap.lookup_erase_eq, if_neg (Ne.symm (hkeep host' port' rfl))]
        exact h
  | get key =>
      obtain ⟨server, hget⟩ := step_get_iff.mp hstep
      obtain ⟨ref, -, -, rfl⟩ := get_eq_ok hget
      exact h
  | setDistributeAlgorithm ref order =>
      obtain ⟨-, rfl⟩ := step_setDistributeAlgorithm_iff.mp hstep
      rw [getServer, (s.setDistributeAlgorithm_frame ref order).1]
      exact h

/-- After an `Add` that threw, every `Add` of the same host and port returns false until the
    server is removed, whether or not the host can be resolved by then. -/
theorem add_blocked_after_threw (hthrew : s.tryAdd P host port false = .ok (.threw, after))
    {es : List Event}
    (hrun : Run (step P) (fun _ e => ∀ host' port', e = .remove host' port' →
      ServerItem.toStringOf host' port' ≠ ServerItem.toStringOf host port) after es s')
    (resolved : Bool) : s'.tryAdd P host port resolved = .ok (.returned false, s') := by
  have hlisted : (s'.getServer host port).isSome :=
    hrun.invariant (I := fun s => (s.getServer host port).isSome)
      (fun _ _ _ h hkeep hstep => listed_step h hkeep hstep) (listed_of_threw hthrew)
  exact tryAdd_of_listed hlisted resolved

end ServerList

end MemClient
