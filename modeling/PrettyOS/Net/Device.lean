import PrettyOS.Lib.Bitmap

/-!
Contract: a `struct net_device` of `netdevice.h` as the protocols read it.
-/

namespace PrettyOS.Net

def iffUp : BitVec 8 := 0x1

def iffNoarp : BitVec 8 := 0x80

structure NetDevice where
  mtu : BitVec 16
  addrLen : BitVec 8
  type : BitVec 16
  paAddr : BitVec 32
  paMask : BitVec 32
  hardHeaderLen : BitVec 16
  flags : BitVec 8
  devAddr : Nat → Lib.Byte
  broadcast : Nat → Lib.Byte

end PrettyOS.Net
