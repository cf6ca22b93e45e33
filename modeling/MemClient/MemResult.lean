import MemClient.ByteCodec

/-!
# Result objects

`MemResult` and its subclasses (`memcachedClient/MemResult.h`, `.cpp`): where the
body of a reply is received, and the error code that `Notify` sets.  A result
lives on a heap that outlasts the request; a receive buffer names the result and
the field its bytes land in.
-/

namespace MemClient

open ByteCodec

/-! ## 1. Status codes and buffers -/

/-- `ERequestStatus`; a status cast from the wire need not be an enumerator. -/
abbrev ERequestStatus := BitVec 16

def ERequest_SUCCESS : ERequestStatus := 0x00
def ERequest_NETWORK_ERROR : ERequestStatus := 0x86
def ERequest_PENDING : ERequestStatus := 0xFF

/-- The address of a result object. -/
abbrev ResultRef := Nat

/-- The memory behind a `Buffer`: its size, and its bytes once it was filled. -/
structure SharedBuffer where
  size : Nat
  data : Option Bytes
deriving DecidableEq

/-- The field of a result object that a receive buffer points into. -/
inductive BufferTarget where
  | value
  | flag
  | counter
  | statKey (i : Nat)
  | statValue (i : Nat)
deriving DecidableEq

/-- An element of the `VBuffer` given to `async_read`. -/
structure Buffer where
  owner : ResultRef
  target : BufferTarget
  size : Nat
deriving DecidableEq

/-- An `int` passed where a `size_t` is expected. -/
def sizeOfInt (n : Int) : Nat := (n % 2 ^ 64).toNat

theorem sizeOfInt_natCast {n : Nat} (h : n < 2 ^ 64) : sizeOfInt n = n := by
  unfold sizeOfInt
  omega

/-! ## 2. The classes -/

structure Stat where
  Key : Bytes
  Value : Bytes
deriving DecidableEq

/-- What the subclasses add; `none` is a field the constructor leaves
    uninitialised.  `mHasMoreResult` is also uninitialised, but it is read, so a
    new result carries whatever value was in memory. -/
inductive ResultClass where
  | mem
  | get (mFlag : Option Bytes)
  | inc (mValue : Option Bytes)
  | stat (mStats : List Stat) (mHasMoreResult : Bool)
deriving DecidableEq

structure MemResult where
  mKey : Bytes
  mErrorCode : ERequestStatus
  mValue : Option SharedBuffer
  cls : ResultClass
deriving DecidableEq

namespace MemResult

/-- The base constructor `MemResult(key, buffer)`. -/
def new (key : Bytes) (buffer : Option SharedBuffer) (cls : ResultClass) : MemResult where
  mKey := key
  mErrorCode := ERequest_PENDING
  mValue := buffer
  cls := cls

/-- `MemResult::FillReceiveBuffer`: receive into `mValue`, allocated here unless
    it already has memory. -/
def baseFillReceiveBuffer (r : MemResult) (self : ResultRef) (bufs : List Buffer)
    (valueLen : Int) : MemResult × Bool × List Buffer :=
  match r.mValue with
  | some buffer => (r, true, bufs ++ [⟨self, .value, buffer.size⟩])
  | none =>
      ({ r with mValue := some ⟨sizeOfInt valueLen, none⟩ }, true,
        bufs ++ [⟨self, .value, sizeOfInt valueLen⟩])

/-- The virtual `FillReceiveBuffer`. -/
def fillReceiveBuffer (r : MemResult) (self : ResultRef) (status : ERequestStatus)
    (valueLen : Int) (keyLen : Nat) : MemResult × Bool × List Buffer :=
  match r.cls with
  | .mem => r.baseFillReceiveBuffer self [] valueLen
  | .get _ =>
      let bufs := if status = ERequest_SUCCESS then [⟨self, .flag, 4⟩] else []
      r.baseFillReceiveBuffer self bufs valueLen
  | .inc _ =>
      if status = ERequest_SUCCESS then (r, true, [⟨self, .counter, 8⟩])
      else r.baseFillReceiveBuffer self [] valueLen
  | .stat mStats mHasMoreResult =>
      if valueLen = 0 then ({ r with cls := .stat mStats false }, false, [])
      else
        let stat : Stat :=
          ⟨List.replicate keyLen 0, List.replicate (sizeOfInt valueLen) 0⟩
        ({ r with cls := .stat (mStats ++ [stat]) mHasMoreResult }, true,
          [⟨self, .statKey mStats.length, keyLen⟩,
            ⟨self, .statValue mStats.length, sizeOfInt valueLen⟩])

/-- The virtual `HasMoreResult`. -/
def hasMoreResult (r : MemResult) : Bool :=
  match r.cls with
  | .stat _ mHasMoreResult => mHasMoreResult
  | _ => false

/-- `MemResult::Notify`, without the wake-up of waiting threads. -/
def notify (r : MemResult) (err : ERequestStatus) : MemResult := { r with mErrorCode := err }

/-- Received bytes land in the memory behind a buffer. -/
def write (r : MemResult) (target : BufferTarget) (bytes : Bytes) : MemResult :=
  match target, r.cls with
  | .value, _ => { r with mValue := r.mValue.map fun buffer => { buffer with data := some bytes } }
  | .flag, .get _ => { r with cls := .get (some bytes) }
  | .counter, .inc _ => { r with cls := .inc (some bytes) }
  | .statKey i, .stat mStats more =>
      { r with cls := .stat (mStats.modify i fun stat => { stat with Key := bytes }) more }
  | .statValue i, .stat mStats more =>
      { r with cls := .stat (mStats.modify i fun stat => { stat with Value := bytes }) more }
  | _, _ => r

@[simp] theorem hasMoreResult_notify (r : MemResult) (err : ERequestStatus) :
    (r.notify err).hasMoreResult = r.hasMoreResult := rfl

@[simp] theorem hasMoreResult_write (r : MemResult) (target : BufferTarget) (bytes : Bytes) :
    (r.write target bytes).hasMoreResult = r.hasMoreResult := by
  obtain ⟨mKey, mErrorCode, mValue, cls⟩ := r
  cases target <;> cases cls <;> rfl

/-- Only a reply without a value changes whether a result asks for more. -/
theorem hasMoreResult_fillReceiveBuffer (r : MemResult) (self : ResultRef)
    (status : ERequestStatus) {valueLen : Int} (hlen : valueLen ≠ 0) (keyLen : Nat) :
    (r.fillReceiveBuffer self status valueLen keyLen).1.hasMoreResult = r.hasMoreResult := by
  have hbase : ∀ bufs,
      (r.baseFillReceiveBuffer self bufs valueLen).1.hasMoreResult = r.hasMoreResult := by
    intro bufs
    unfold baseFillReceiveBuffer
    split <;> rfl
  unfold fillReceiveBuffer
  split
  · exact hbase _
  · exact hbase _
  · split
    · rfl
    · exact hbase _
  · next mStats mHasMoreResult hcls =>
      rw [if_neg hlen]
      unfold hasMoreResult
      rw [hcls]

end MemResult

end MemClient
