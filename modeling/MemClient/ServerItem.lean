import MemClient.ByteCodec

/-!
# Servers

`ServerItem::Ptr` as a value: the address of the object and the fields the
constructor fixes for its lifetime (`serverManager/ServerItem.h`).  Comparing two
pointers is comparing two values, since one address never carries two different
sets of fields.  The pending-request list, which changes, is kept by the client
system.
-/

namespace MemClient

open ByteCodec

/-- `hash_t`, a 64-bit `size_t`. -/
abbrev HashT := Fin (2 ^ 64)

instance hashT_neZero : NeZero (2 ^ 64) := ⟨by decide⟩

structure ServerItem where
  address : Nat
  mHost : Bytes
  mPort : BitVec 32
  mWeight : BitVec 32
deriving DecidableEq

/-- Decimal digits of a natural number in ASCII. -/
def decimal (n : Nat) : Bytes :=
  if n = 0 then [48] else (Nat.digits 10 n).reverse.map fun d => BitVec.ofNat 8 (48 + d)

/-- `boost::lexical_cast<std::string>(int)`. -/
def lexicalCast (n : Int) : Bytes :=
  if n < 0 then 45 :: decimal n.natAbs else decimal n.natAbs

/-- `ServerItem::ToString(host, port)`. -/
def ServerItem.toStringOf (host : Bytes) (port : BitVec 32) : Bytes :=
  host ++ lexicalCast port.toInt

def ServerItem.toString (server : ServerItem) : Bytes :=
  ServerItem.toStringOf server.mHost server.mPort

end MemClient
