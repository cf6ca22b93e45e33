import MemClient.IncrementalMd5

/-!
# Reading an MD5 object more than once

`digest` pads through `update` and restores the state and the count, not the buffer: after it
the object stands for the message with its leftover bytes taken from the last block of the
padding (`afterDigest`).  They are what they were where they leave eight free bytes in their
block.
-/

namespace MemClient

open ByteCodec BlockHash

namespace MD5Object

/-! ## 1. Calls -/

inductive Call
  | update (input : Bytes)
  | digest
  | toString

def Call.reads : Call → Bool
  | .update _ => false
  | .digest | .toString => true

def call (fuel : Nat) (o : MD5Object) : Call → Option (Option Bytes × MD5Object)
  | .update input => (o.update fuel input).map fun o => (none, o)
  | .digest => (o.digest fuel).map fun (digest, o) => (some digest, o)
  | .toString => (o.digest fuel).map fun (digest, o) => (some (MD5.bytesToHexString digest), o)

/-- What the calls return, one after the other. -/
def run (fuel : Nat) : MD5Object → List Call → Option (List (Option Bytes))
  | _, [] => some []
  | o, c :: calls => do
      let (result, o) ← o.call fuel c
      let results ← run fuel o calls
      some (result :: results)

/-- What they return where a read leaves the message `after` it. -/
def answers (after : Bytes → Bytes) : Bytes → List Call → List (Option Bytes)
  | _, [] => []
  | data, .update input :: calls => none :: answers after (data ++ input) calls
  | data, .digest :: calls => some (Rfc1321.md5 data) :: answers after (after data) calls
  | data, .toString :: calls =>
      some (MD5.bytesToHexString (Rfc1321.md5 data)) :: answers after (after data) calls

/-- No update gets so much that its 32-bit index wraps; `length` bytes came before. -/
def Fits : Nat → List Call → Prop
  | _, [] => True
  | length, .update input :: calls =>
      length % 64 + input.length < 2 ^ 32 ∧ Fits (length + input.length) calls
  | length, _ :: calls => Fits length calls

/-- The leftover bytes survive a read: the padding leaves their places alone, or has in them
    what they are. -/
def Kept (data : Bytes) : Prop :=
  data.length % 64 < 56 ∨ leftover 64 data =
    (List.replicate 56 0 ++ leBytes 8 (8 * data.length)).take (data.length % 64)

instance (data : Bytes) : Decidable (Kept data) := inferInstanceAs (Decidable (_ ∨ _))

/-- Every read that another read follows keeps the leftover bytes. -/
def Undisturbed : Bytes → List Call → Prop
  | _, [] => True
  | data, .update input :: calls => Undisturbed (data ++ input) calls
  | data, _ :: calls => (Kept data ∨ ∀ c ∈ calls, c.reads = false) ∧ Undisturbed data calls

/-! ## 2. Runs -/

section Run

variable {o : MD5Object} {message : Bytes} {calls : List Call} {fuel : Nat}

/-- One call: an update that does not fit never returns, and every other call answers and leaves
    a message for the rest of the run. -/
theorem StandsFor.call_cases (ho : StandsFor o message) (hfuel : 2 ^ 32 ≤ fuel) (c : Call)
    (calls : List Call) : (o.call fuel c = none ∧ ¬Fits message.length (c :: calls)) ∨
      ∃ result o' message', o.call fuel c = some (result, o') ∧ StandsFor o' message' ∧
        (Fits message.length (c :: calls) ↔ Fits message'.length calls) ∧
          answers afterDigest message (c :: calls) =
            result :: answers afterDigest message' calls := by
  cases c with
  | update input =>
      by_cases hfit : message.length % 64 + input.length < 2 ^ 32
      · obtain ⟨o', hupdate, ho'⟩ := ho.update hfit (show input.length < fuel by omega)
        refine Or.inr ⟨none, o', message ++ input, ?_, ho', ?_, rfl⟩
        · rw [call, hupdate, Option.map_some]
        · rw [Fits, List.length_append]
          exact and_iff_right hfit
      · refine Or.inl ⟨?_, fun hfits => hfit hfits.1⟩
        have hnone : o.update fuel input = none := by
          apply update_eq_none
          rw [ho.holds.index_eq]
          omega
        rw [call, hnone, Option.map_none]
  | digest =>
      obtain ⟨o', hdigest, ho'⟩ := ho.digest (show 64 < fuel by omega)
      refine Or.inr ⟨_, o', afterDigest message, ?_, ho', ?_, rfl⟩
      · rw [call, hdigest, Option.map_some]
      · rw [Fits, length_afterDigest]
        simp
  | toString =>
      obtain ⟨o', hdigest, ho'⟩ := ho.digest (show 64 < fuel by omega)
      refine Or.inr ⟨_, o', afterDigest message, ?_, ho', ?_, rfl⟩
      · rw [call, hdigest, Option.map_some]
      · rw [Fits, length_afterDigest]
        simp

/-- **A run** returns the digests of the messages that its reads leave. -/
theorem run_eq (ho : StandsFor o message) (hfits : Fits message.length calls)
    (hfuel : 2 ^ 32 ≤ fuel) : run fuel o calls = some (answers afterDigest message calls) := by
  induction calls generalizing o message with
  | nil => rfl
  | cons c calls ih =>
      rcases ho.call_cases hfuel c calls with
        ⟨-, hnot⟩ | ⟨result, o', message', hcall, ho', hiff, hanswers⟩
      · exact absurd hfits hnot
      · rw [run, hcall, hanswers, Option.bind_eq_bind, Option.bind_some]
        simp only [ih ho' (hiff.mp hfits), Option.bind_eq_bind, Option.bind_some]

theorem take_lastBlock_of_lt (hshort : message.length % 64 < 56) :
    (lastBlock message).take (message.length % 64) = leftover 64 message := by
  have hpad := length_pad message.length
  have hlen : (leftover 64 message ++ pad message.length).length < 64 := by
    rw [List.length_append, length_leftover, hpad]
    omega
  rw [lastBlock, leftover_append (by norm_num), leftover_of_lt hlen, List.append_assoc,
    List.take_left' (length_leftover message)]

/-- The padding ends the block and begins another. -/
theorem lastBlock_of_ge (hlong : 56 ≤ message.length % 64) :
    lastBlock message = List.replicate 56 0 ++ leBytes 8 (8 * message.length) := by
  have hlt : message.length % 64 < 64 := Nat.mod_lt _ (by norm_num)
  have hzeros : pad message.length = 0x80 :: List.replicate (63 - message.length % 64) 0 ++
      List.replicate 56 0 := by
    rw [pad_eq, List.cons_append, List.replicate_append_replicate]
    congr 2
    omega
  have hblock : (leftover 64 message ++
      0x80 :: List.replicate (63 - message.length % 64) 0).length = 64 := by
    rw [List.length_append, length_leftover, List.length_cons, List.length_replicate]
    omega
  rw [lastBlock, leftover_append (by norm_num), hzeros, ← List.append_assoc,
    leftover_block_append (by norm_num) hblock, leftover_of_lt (by simp)]

theorem afterDigest_eq_self_iff : afterDigest message = message ↔ Kept message := by
  have hsplit : afterDigest message = message ↔
      (lastBlock message).take (message.length % 64) = leftover 64 message := by
    have hmessage : message.take (64 * (message.length / 64)) ++ leftover 64 message = message :=
      take_append_leftover message
    conv_lhs => rhs; rw [← hmessage]
    rw [afterDigest, List.append_cancel_left_eq]
  rw [hsplit, Kept]
  rcases Nat.lt_or_ge (message.length % 64) 56 with hshort | hlong
  · exact iff_of_true (take_lastBlock_of_lt hshort) (Or.inl hshort)
  · rw [lastBlock_of_ge hlong, eq_comm, or_iff_right (Nat.not_lt.mpr hlong)]

theorem answers_of_forall_not_reads (hcalls : ∀ c ∈ calls, c.reads = false)
    (after after' : Bytes → Bytes) (data data' : Bytes) :
    answers after data calls = answers after' data' calls := by
  induction calls generalizing data data' with
  | nil => rfl
  | cons c calls ih =>
      obtain ⟨hhead, htail⟩ := List.forall_mem_cons.mp hcalls
      cases c with
      | update input => exact congrArg (none :: ·) (ih htail _ _)
      | digest => cases hhead
      | toString => cases hhead

theorem answers_after_read (hkept : Kept message ∨ ∀ c ∈ calls, c.reads = false)
    (hrest : answers afterDigest message calls = answers id message calls) :
    answers afterDigest (afterDigest message) calls = answers id message calls := by
  rcases hkept with hkept | hlast
  · rwa [afterDigest_eq_self_iff.mpr hkept]
  · exact answers_of_forall_not_reads hlast _ _ _ _

theorem answers_afterDigest (h : Undisturbed message calls) :
    answers afterDigest message calls = answers id message calls := by
  induction calls generalizing message with
  | nil => rfl
  | cons c calls ih =>
      cases c with
      | update input =>
          rw [Undisturbed] at h
          rw [answers, answers, ih h]
      | digest =>
          obtain ⟨hkept, hrest⟩ := h
          rw [answers, answers, answers_after_read hkept (ih hrest), id]
      | toString =>
          obtain ⟨hkept, hrest⟩ := h
          rw [answers, answers, answers_after_read hkept (ih hrest), id]

/-- An update that does not fit never returns. -/
theorem run_eq_none (ho : StandsFor o message) (hfits : ¬Fits message.length calls)
    (hfuel : 2 ^ 32 ≤ fuel) : run fuel o calls = none := by
  induction calls generalizing o message with
  | nil => exact absurd trivial hfits
  | cons c calls ih =>
      rcases ho.call_cases hfuel c calls with
        ⟨hnone, -⟩ | ⟨result, o', message', hcall, ho', hiff, -⟩
      · rw [run, hnone, Option.bind_eq_bind, Option.bind_none]
      · rw [run, hcall, Option.bind_eq_bind, Option.bind_some]
        simp only [ih ho' (fun h => hfits (hiff.mpr h)), Option.bind_eq_bind, Option.bind_none]

end Run

/-! ## 3. Runs that no read disturbs -/

/-- **A read does not disturb the object** in a run whose updates fit 32 bits and whose reads
    keep the leftover bytes. -/
theorem run_undisturbed (junk : Nat → Byte) {calls : List Call} (hfits : Fits 0 calls)
    (hkept : Undisturbed [] calls) : ∃ enough, ∀ fuel ≥ enough,
      run fuel (reset junk) calls = some (answers id [] calls) := by
  refine ⟨2 ^ 32, fun fuel hfuel => ?_⟩
  rw [run_eq (standsFor_reset junk) hfits hfuel, answers_afterDigest hkept]

theorem run_undisturbed_ab :
    (Fits 0 [.update [97], .digest, .update [98], .toString] ∧
      Undisturbed [] [.update [97], .digest, .update [98], .toString]) ∧
    ∃ enough, ∀ fuel ≥ enough,
      run fuel (reset fun _ => 7) [.update [97], .digest, .update [98], .toString] =
        some (answers id [] [.update [97], .digest, .update [98], .toString]) := by
  have hfits : Fits 0 [.update [97], .digest, .update [98], .toString] := by
    simp [Fits]
  have hkept : Undisturbed [] [.update [97], .digest, .update [98], .toString] := by
    simp [Undisturbed, Kept]
  exact ⟨⟨hfits, hkept⟩, run_undisturbed (fun _ => 7) hfits hkept⟩

/-- With 56 bytes left over, the second digest is that of another message. -/
theorem not_run_undisturbed : ¬∀ (junk : Nat → Byte) (calls : List Call), ∃ enough,
    ∀ fuel ≥ enough, run fuel (reset junk) calls = some (answers id [] calls) := by
  intro h
  let calls : List Call := [.update (List.replicate 56 97), .digest, .digest]
  obtain ⟨enough, hrun⟩ := h (fun _ => 7) calls
  have hfits : Fits ([] : Bytes).length calls := by simp [calls, Fits]
  have hcode := run_eq (standsFor_reset fun _ => 7) hfits
    (le_max_right enough (2 ^ 32))
  have hsame : answers afterDigest [] calls = answers id [] calls :=
    Option.some.inj (hcode.symm.trans (hrun _ (le_max_left enough (2 ^ 32))))
  have hdiffer : answers afterDigest [] calls ≠ answers id [] calls := by
    decide +kernel
  exact hdiffer hsame

end MD5Object

end MemClient
