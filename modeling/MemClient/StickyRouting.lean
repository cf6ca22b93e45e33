import MemClient.MemoDistri

/-!
# Sticky hashes

A memorized distribution answers a hash with the same server until that server is
removed, and does not answer with a removed server until it is added again.  Of
the heap algorithms it is only used that they permute the infos.
-/

namespace MemClient

open BinaryHeap EventRun

namespace MemoDistri

variable {heap : HeapAlgorithms ServerBalanceInfo} {memo memo' : MemoDistri} {e : Event}
  {server : ServerItem}

/-! ## 1. Mapped servers are listed -/

/-- Every server is listed once, and hashes map to listed servers only. -/
structure Listed (memo : MemoDistri) : Prop where
  nodup : memo.servers.Nodup
  mapped : ∀ server ∈ memo.mKeyServerMapping.values, server ∈ memo.servers

theorem listed_new : Listed new := ⟨List.nodup_nil, by simp [new]⟩

theorem listed_step (h : Listed memo) (hfresh : Fresh memo e)
    (hstep : step heap memo e = some memo') : Listed memo' := by
  refine ⟨nodup_step h.nodup hfresh hstep, ?_⟩
  cases e with
  | add server =>
      cases hstep
      intro other hvalue
      have hperm := servers_add heap memo server
      exact hperm.mem_iff.mpr (List.mem_cons_of_mem server (h.mapped other hvalue))
  | get hash =>
      cases hstep
      intro other hvalue
      have hperm := servers_get heap memo hash
      rcases get_cases heap memo hash with
        ⟨-, hget⟩ | ⟨-, _, -, hget⟩ | ⟨hnew, server, infos, hmem, -, hget⟩
      · rw [hget] at hvalue ⊢
        exact h.mapped other hvalue
      · rw [hget] at hvalue ⊢
        exact h.mapped other hvalue
      · apply hperm.mem_iff.mpr
        rw [hget, UnorderedMap.values_insert_of_lookup_eq_none hnew] at hvalue
        rcases List.mem_cons.mp hvalue with rfl | hold
        · exact hmem
        · exact h.mapped other hold
  | remove server =>
      cases hstep
      intro other hvalue
      obtain ⟨hold, hne⟩ := UnorderedMap.mem_values_eraseValue.mp hvalue
      rw [servers_remove]
      exact (List.Nodup.mem_erase_iff h.nodup).mpr ⟨hne, h.mapped other hold⟩
  | clear =>
      cases hstep
      simp [clear]

/-! ## 2. A known hash -/

/-- The event does not remove the server. -/
def Keeps (server : ServerItem) (_ : MemoDistri) : Event → Prop
  | .remove other => other ≠ server
  | .clear => False
  | _ => True

theorem lookup_step (hkeeps : Keeps server memo e) (hstep : step heap memo e = some memo')
    {hash : HashT} (hlookup : memo.mKeyServerMapping.lookup hash = some server) :
    memo'.mKeyServerMapping.lookup hash = some server := by
  cases e with
  | add other =>
      cases hstep
      exact hlookup
  | get other =>
      cases hstep
      rcases get_cases heap memo other with
        ⟨-, hget⟩ | ⟨-, _, -, hget⟩ | ⟨hnew, _, infos, -, -, hget⟩
      · rw [hget]
        exact hlookup
      · rw [hget]
        exact hlookup
      · have hne : hash ≠ other := by
          rintro rfl
          rw [hnew] at hlookup
          cases hlookup
        rw [hget]
        exact (AList.lookup_insert_ne hne).trans hlookup
  | remove other =>
      cases hstep
      have hne : some server ≠ some other := fun heq => hkeeps (Option.some.inj heq).symm
      show (UnorderedMap.eraseValue memo.mKeyServerMapping other).lookup hash = some server
      rw [UnorderedMap.lookup_eraseValue, hlookup, if_neg hne]
  | clear => exact hkeeps.elim

/-- What `Get` answers is remembered. -/
theorem lookup_get {hash : HashT} (hget : (get heap memo hash).1 = some server) :
    (get heap memo hash).2.mKeyServerMapping.lookup hash = some server := by
  rcases get_cases heap memo hash with
    ⟨-, heq⟩ | ⟨-, other, hknown, heq⟩ | ⟨-, other, infos, -, -, heq⟩
  · rw [heq] at hget
    cases hget
  · rw [heq] at hget ⊢
    rw [hknown]
    exact hget
  · rw [heq] at hget ⊢
    exact (AList.lookup_insert _).trans hget

theorem Listed.get_known (h : Listed memo) {hash : HashT}
    (hlookup : memo.mKeyServerMapping.lookup hash = some server) :
    (get heap memo hash).1 = some server := by
  have hlisted := h.mapped server (UnorderedMap.mem_values.mpr ⟨hash, hlookup⟩)
  have hne : memo.mBalanceInfos ≠ [] := by
    obtain ⟨info, hinfo, -⟩ := List.mem_map.mp hlisted
    exact List.ne_nil_of_mem hinfo
  rw [MemoDistri.get_known hne heap hlookup]

/-! ## 3. A removed server -/

/-- Nothing refers to the server. -/
structure Absent (server : ServerItem) (memo : MemoDistri) : Prop where
  servers : server ∉ memo.servers
  mapping : server ∉ memo.mKeyServerMapping.values

theorem absent_remove (h : Listed memo) : Absent server (remove memo server) where
  servers := by
    rw [servers_remove]
    exact fun hmem => ((List.Nodup.mem_erase_iff h.nodup).mp hmem).1 rfl
  mapping := fun hvalue => (UnorderedMap.mem_values_eraseValue.mp hvalue).2 rfl

theorem absent_step (h : Absent server memo) (hne : e ≠ .add server)
    (hstep : step heap memo e = some memo') : Absent server memo' := by
  cases e with
  | add other =>
      cases hstep
      refine ⟨fun hmem => ?_, h.mapping⟩
      rcases List.mem_cons.mp ((servers_add heap memo other).mem_iff.mp hmem) with rfl | hold
      · exact hne rfl
      · exact h.servers hold
  | get hash =>
      cases hstep
      refine ⟨fun hmem => h.servers ((servers_get heap memo hash).mem_iff.mp hmem), ?_⟩
      intro hvalue
      rcases get_cases heap memo hash with
        ⟨-, hget⟩ | ⟨-, _, -, hget⟩ | ⟨hnew, other, infos, hmem, -, hget⟩
      · rw [hget] at hvalue
        exact h.mapping hvalue
      · rw [hget] at hvalue
        exact h.mapping hvalue
      · rw [hget, UnorderedMap.values_insert_of_lookup_eq_none hnew] at hvalue
        rcases List.mem_cons.mp hvalue with rfl | hold
        · exact h.servers hmem
        · exact h.mapping hold
  | remove other =>
      cases hstep
      refine ⟨fun hmem => h.servers ?_, fun hvalue => h.mapping ?_⟩
      · rw [servers_remove] at hmem
        exact List.mem_of_mem_erase hmem
      · exact (UnorderedMap.mem_values_eraseValue.mp hvalue).1
  | clear =>
      cases hstep
      exact ⟨by simp [servers, clear], by simp [clear]⟩

theorem Absent.get_ne (h : Absent server memo) (hash : HashT) :
    (get heap memo hash).1 ≠ some server := by
  intro hget
  rcases get_cases heap memo hash with
    ⟨-, heq⟩ | ⟨-, other, hknown, heq⟩ | ⟨-, other, infos, hmem, -, heq⟩
  · rw [heq] at hget
    cases hget
  · rw [heq] at hget
    cases hget
    exact h.mapping (UnorderedMap.mem_values.mpr ⟨hash, hknown⟩)
  · rw [heq] at hget
    cases hget
    exact h.servers hmem

/-- **Sticky hashes.**  In every reachable state: a hash that `Get` answers with a
    server is answered with it after any run that does not remove the server, and
    after `Remove` no hash is answered with it in any run that does not add it. -/
theorem sticky {es : List Event} (hrun : Run (step heap) Fresh new es memo)
    (server : ServerItem) :
    (∀ hash es' memo', (get heap memo hash).1 = some server →
      Run (step heap) (fun m e => Fresh m e ∧ Keeps server m e) (get heap memo hash).2 es' memo' →
      (get heap memo' hash).1 = some server) ∧
    ∀ es' memo', Run (step heap) (fun m e => Fresh m e ∧ e ≠ .add server) (remove memo server)
      es' memo' → ∀ hash, (get heap memo' hash).1 ≠ some server := by
  have hlisted : Listed memo :=
    hrun.invariant (fun _ _ _ h hfresh hstep => listed_step h hfresh hstep) listed_new
  constructor
  · intro hash es' memo' hget hafter
    have hstart : Listed (get heap memo hash).2 :=
      listed_step (e := .get hash) hlisted trivial rfl
    obtain ⟨hend, hlookup⟩ := hafter.invariant
      (I := fun m => Listed m ∧ m.mKeyServerMapping.lookup hash = some server)
      (fun _ _ _ h hguard hstep =>
        ⟨listed_step h.1 hguard.1 hstep, lookup_step hguard.2 hstep h.2⟩)
      ⟨hstart, lookup_get hget⟩
    exact hend.get_known hlookup
  · intro es' memo' hafter hash
    have habsent : Absent server memo' := hafter.invariant
      (fun _ _ _ h hguard hstep => absent_step h hguard.2 hstep) (absent_remove hlisted)
    exact habsent.get_ne hash

/-- The first server keeps the hash 7 when the second is removed; once it is removed
    itself, the hash goes elsewhere. -/
theorem sticky_oneHash :
    (get (siftHeap ServerBalanceInfo).toHeapAlgorithms (remove oneHash second) 7).1 =
        some first ∧
      (get (siftHeap ServerBalanceInfo).toHeapAlgorithms (remove oneHash first) 7).1 ≠
        some first := by
  have hrun : Run (step _) Fresh new _ oneHash := run_oneHash.mono fun _ _ hguard => hguard.2
  obtain ⟨hknown, hremoved⟩ := sticky hrun first
  constructor
  · exact hknown 7 [.remove second] _ (by decide)
      (.cons ⟨trivial, (by decide : second ≠ first)⟩ rfl (.nil _))
  · exact hremoved [] _ (.nil _) 7

end MemoDistri

end MemClient
