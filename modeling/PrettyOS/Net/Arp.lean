import PrettyOS.Lib.Words
import PrettyOS.Lib.PhysCopy
import PrettyOS.Net.Defrag
import PrettyOS.Net.Device

/-!
Contract: `arp_send` and `arp_rcv` of `net/inet/arp.c` as encoder and decoder of ARP packets.

`alloc_skb`, which returns `NULL` in the source, is taken to return a packet.

The decoder walks over the packet that the encoder left: it puts a `'\0'` behind each hardware
address before it reads what stands there, and it does not step over the second one.
-/

namespace PrettyOS.Net

open Lib (Byte byteOf store store_of_outside toNat_byteOf uPhysCopy uPhysCopy_add uPhysCopy_end
  uPhysCopy_of_before uPhysCopy_of_behind word16 word16_congr word16_store word32)
open Function Option
open Library (overwrite overwrite_add overwrite_of_outside)

def ethPIp : BitVec 16 := 0x0800

def ipAlen : Nat := 4

def arphdrSize : Nat := 8

def arphrdEther : BitVec 16 := 0x01

def arphrdAx25 : BitVec 16 := 0x03

def arpopRequest : BitVec 32 := 0x01

def arpopReply : BitVec 32 := 0x02

def inaddrLoopback : BitVec 32 := 0x7f000001

def ipBytes (ip : BitVec 32) : Nat → Byte := byteOf ip.toNat

def ethHeader (dev : NetDevice) (daddr saddr : Nat → Byte) (len : Nat) (buff : Nat → Byte) :
    Nat → Byte :=
  let buff := store buff 12 2 (len % 2 ^ 16)
  let buff := uPhysCopy buff 6 saddr 0 dev.addrLen.toNat
  uPhysCopy buff 0 daddr 0 dev.addrLen.toNat

def arpHeader (dev : NetDevice) (type : BitVec 32) (arph : Nat) (data : Nat → Byte) : Nat → Byte :=
  let data := store data arph 2 (htons dev.type).toNat
  let data := store data (arph + 2) 2 (htons ethPIp).toNat
  let data := update data (arph + 4) dev.addrLen
  let data := update data (arph + 5) (BitVec.ofNat 8 ipAlen)
  update data (arph + 6) (type.setWidth 8)

def copyTarget (destHw : Option (Nat → Byte)) (hlen arpPtr : Nat) (data : Nat → Byte) :
    Nat → Byte :=
  match destHw with
  | some hw => uPhysCopy data arpPtr hw 0 hlen
  | none => overwrite data arpPtr hlen (fun _ => 0)

def arpBody (dev : NetDevice) (destIp srcIp : BitVec 32) (destHw : Option (Nat → Byte))
    (srcHw : Nat → Byte) (arpPtr : Nat) (data : Nat → Byte) : Nat → Byte :=
  let hlen := dev.addrLen.toNat
  let data := uPhysCopy data arpPtr srcHw 0 hlen
  let data := uPhysCopy data (arpPtr + hlen) (ipBytes srcIp) 0 ipAlen
  let data := copyTarget destHw hlen (arpPtr + hlen + ipAlen) data
  uPhysCopy data (arpPtr + hlen + ipAlen + hlen) (ipBytes destIp) 0 ipAlen

def arpSend (type : BitVec 32) (destIp : BitVec 32) (dev : NetDevice) (srcIp : BitVec 32)
    (destHw : Option (Nat → Byte)) (srcHw fresh : Nat → Byte) : Option (Nat → Byte) :=
  if dev.flags &&& iffNoarp ≠ 0 then none
  else
    let arph := dev.hardHeaderLen.toNat
    let len := arphdrSize + arph + 2 * (dev.addrLen.toNat + ipAlen)
    let data := ethHeader dev (destHw.getD dev.broadcast) srcHw len fresh
    let data := arpHeader dev type arph data
    some (arpBody dev destIp srcIp destHw srcHw (arph + arphdrSize) data)

structure ArpFrame where
  sip : Nat
  dip : Nat
  apart : sip + 4 ≤ dip ∨ dip + 4 ≤ sip

structure ArpAddresses where
  sha : Nat → Byte
  sip : BitVec 32
  dip : BitVec 32

def arpChecks (dev : NetDevice) (data : Nat → Byte) (arp : Nat) : Bool :=
  if data (arp + 4) ≠ dev.addrLen ∨ BitVec.ofNat 16 (word16 data arp) ≠ htons dev.type ∨
      dev.flags &&& iffNoarp ≠ 0 ∨
      data (arp + 5) ≠ BitVec.ofNat 8 ipAlen then false
  else if dev.type = arphrdAx25 then true
  else if dev.type = arphrdEther then
    decide (BitVec.ofNat 16 (word16 data (arp + 2)) = htons ethPIp)
  else false

def arpWalk (dev : NetDevice) (data : Nat → Byte) (arp : Nat) (frame : ArpFrame)
    (stack : Nat → Byte) : ArpAddresses :=
  let hlen := dev.addrLen.toNat
  let sha := arp + arphdrSize
  let data := update data (sha + hlen) 0
  let stack := uPhysCopy stack frame.sip data (sha + hlen) ipAlen
  let dha := sha + hlen + ipAlen
  let data := update data (dha + hlen) 0
  let stack := uPhysCopy stack frame.dip data dha 4
  ⟨fun i => data (sha + i), BitVec.ofNat 32 (word32 stack frame.sip),
    BitVec.ofNat 32 (word32 stack frame.dip)⟩

def arpRcv (dev : NetDevice) (data : Nat → Byte) (arp : Nat) (frame : ArpFrame)
    (stack : Nat → Byte) : Option ArpAddresses :=
  if arpChecks dev data arp = true then some (arpWalk dev data arp frame stack) else none

inductive ArpReaction where
  | dropped
  | noted
  | answered (packet : Option (Nat → Byte))

def arpReact (dev : NetDevice) (op : BitVec 8) (hint : Int) (addresses : ArpAddresses)
    (fresh : Nat → Byte) : ArpReaction :=
  if addresses.dip = inaddrLoopback then .dropped
  else if op = arpopReply.setWidth 8 then if hint ≠ 1 then .dropped else .noted
  else if addresses.dip ≠ dev.paAddr then .dropped
  else
    .answered (arpSend arpopReply addresses.sip dev addresses.dip (some addresses.sha) dev.devAddr
      fresh)

variable {dev rcv : NetDevice} {type destIp srcIp : BitVec 32} {destHw : Option (Nat → Byte)}
  {srcHw data : Nat → Byte} {arpPtr arph hlen i k : Nat}

def targetHw (destHw : Option (Nat → Byte)) : Nat → Byte := destHw.getD (fun _ => 0)

lemma copyTarget_of_before (before : i < arpPtr) :
    copyTarget destHw hlen arpPtr data i = data i := by
  unfold copyTarget
  cases destHw with
  | none => exact overwrite_of_outside (Or.inl before)
  | some hw => exact uPhysCopy_of_before before

lemma copyTarget_add (inside : i < hlen) :
    copyTarget destHw hlen arpPtr data (arpPtr + i) = targetHw destHw i := by
  unfold copyTarget
  cases destHw with
  | none => exact overwrite_add inside
  | some hw =>
    have isCopy := @uPhysCopy_add data hw arpPtr 0 hlen i inside
    rwa [Nat.zero_add] at isCopy

lemma arpBody_of_before (before : i < arpPtr) :
    arpBody dev destIp srcIp destHw srcHw arpPtr data i = data i := by
  unfold arpBody
  rw [uPhysCopy_of_before (by omega), copyTarget_of_before (by omega),
    uPhysCopy_of_before (by omega), uPhysCopy_of_before before]

lemma arpBody_srcHw (inside : i < dev.addrLen.toNat) :
    arpBody dev destIp srcIp destHw srcHw arpPtr data (arpPtr + i) = srcHw i := by
  unfold arpBody
  rw [uPhysCopy_of_before (by omega), copyTarget_of_before (by omega),
    uPhysCopy_of_before (by omega), uPhysCopy_add inside, Nat.zero_add]

lemma arpBody_srcIp (inside : k < ipAlen) :
    arpBody dev destIp srcIp destHw srcHw arpPtr data (arpPtr + dev.addrLen.toNat + k) =
      ipBytes srcIp k := by
  unfold arpBody
  rw [uPhysCopy_of_before (by omega), copyTarget_of_before (by omega), uPhysCopy_add inside,
    Nat.zero_add]

lemma arpBody_destHw (inside : i < dev.addrLen.toNat) :
    arpBody dev destIp srcIp destHw srcHw arpPtr data
      (arpPtr + dev.addrLen.toNat + ipAlen + i) = targetHw destHw i := by
  unfold arpBody
  rw [uPhysCopy_of_before (by omega), copyTarget_add inside]

lemma arpHeader_hwt : word16 (arpHeader dev type arph data) arph = (htons dev.type).toNat := by
  have stored := @word16_store data arph (htons dev.type).toNat (htons dev.type).isLt
  refine Eq.trans (word16_congr ?_) stored
  intro k small
  unfold arpHeader
  rw [update_of_ne (by omega), update_of_ne (by omega), update_of_ne (by omega)]
  exact store_of_outside (by omega)

lemma arpHeader_prot :
    word16 (arpHeader dev type arph data) (arph + 2) = (htons ethPIp).toNat := by
  have stored := @word16_store (store data arph 2 (htons dev.type).toNat) (arph + 2)
    (htons ethPIp).toNat (htons ethPIp).isLt
  refine Eq.trans (word16_congr ?_) stored
  intro k small
  unfold arpHeader
  rw [update_of_ne (by omega), update_of_ne (by omega), update_of_ne (by omega)]

lemma arpHeader_hlen : arpHeader dev type arph data (arph + 4) = dev.addrLen := by
  unfold arpHeader
  rw [update_of_ne (by omega), update_of_ne (by omega), update_self]

lemma arpHeader_plen : arpHeader dev type arph data (arph + 5) = BitVec.ofNat 8 ipAlen := by
  unfold arpHeader
  rw [update_of_ne (by omega), update_self]

lemma arpChecks_arpBody (isEther : dev.type = arphrdEther) (sameType : rcv.type = dev.type)
    (sameLen : rcv.addrLen = dev.addrLen) (takesArp : rcv.flags &&& iffNoarp = 0) :
    arpChecks rcv (arpBody dev destIp srcIp destHw srcHw (arph + arphdrSize)
      (arpHeader dev type arph data)) arph = true := by
  have header : ∀ i < 8, arpBody dev destIp srcIp destHw srcHw (arph + arphdrSize)
      (arpHeader dev type arph data) (arph + i) = arpHeader dev type arph data (arph + i) :=
    fun i inside => arpBody_of_before (Nat.add_lt_add_left inside arph)
  generalize arpBody dev destIp srcIp destHw srcHw (arph + arphdrSize)
    (arpHeader dev type arph data) = packet at header
  have hwt := word16_congr fun k small => header k (by omega)
  have prot : word16 packet (arph + 2) = word16 (arpHeader dev type arph data) (arph + 2) := by
    apply word16_congr
    intro k small
    rw [Nat.add_assoc]
    exact header (2 + k) (by omega)
  have notAx25 : dev.type ≠ arphrdAx25 := by
    rw [isEther]
    decide
  unfold arpChecks
  rw [hwt, prot, header 4 (by decide), header 5 (by decide), arpHeader_hwt, arpHeader_prot,
    arpHeader_hlen, arpHeader_plen, sameLen, sameType, takesArp, BitVec.ofNat_toNat,
    BitVec.ofNat_toNat, BitVec.setWidth_eq, BitVec.setWidth_eq]
  rw [if_neg (by simp), if_neg notAx25, if_pos isEther]
  exact decide_eq_true rfl

variable {frame : ArpFrame} {stack : Nat → Byte}

lemma word32_eq_iff {mem : Nat → Byte} {addr : Nat} {ip : BitVec 32} :
    BitVec.ofNat 32 (word32 mem addr) = ip ↔ ∀ k < 4, mem (addr + k) = ipBytes ip k := by
  have byteLt : ∀ k, (mem (addr + k)).toNat < 2 ^ 8 := fun k => (mem (addr + k)).isLt
  have small := ip.isLt
  have isWord : word32 mem addr = (mem (addr + 0)).toNat + 2 ^ 8 * (mem (addr + 1)).toNat +
      2 ^ 16 * ((mem (addr + 2)).toNat + 2 ^ 8 * (mem (addr + 3)).toNat) := rfl
  have byte0 := byteLt 0
  have byte1 := byteLt 1
  have byte2 := byteLt 2
  have byte3 := byteLt 3
  constructor
  · intro isIp k inside
    have isNat := congrArg BitVec.toNat isIp
    rw [BitVec.toNat_ofNat, isWord] at isNat
    apply BitVec.eq_of_toNat_eq
    rw [ipBytes, toNat_byteOf]
    interval_cases k <;> omega
  · intro same
    have isNat : ∀ k < 4, (mem (addr + k)).toNat = ip.toNat / 2 ^ (8 * k) % 2 ^ 8 := by
      intro k inside
      rw [same k inside, ipBytes, toNat_byteOf]
    have value0 := isNat 0 (by decide)
    have value1 := isNat 1 (by decide)
    have value2 := isNat 2 (by decide)
    have value3 := isNat 3 (by decide)
    apply BitVec.eq_of_toNat_eq
    rw [BitVec.toNat_ofNat, isWord]
    omega

lemma arpWalk_sha (inside : i < dev.addrLen.toNat) :
    (arpWalk dev data arph frame stack).sha i = data (arph + arphdrSize + i) := by
  unfold arpWalk
  dsimp only
  rw [update_of_ne (by omega), update_of_ne (by omega)]

lemma sip_kept {source : Nat → Byte} {origin : Nat} {value : Byte}
    (isValue : stack (frame.sip + k) = value) (cleared : k = 0 → value = 0) (inside : k < 4) :
    uPhysCopy stack frame.dip source origin 4 (frame.sip + k) = value := by
  rcases frame.apart with sipFirst | dipFirst
  · rw [uPhysCopy_of_before (by omega), isValue]
  by_cases isEnd : frame.dip + 4 = frame.sip + k
  · rw [← isEnd, uPhysCopy_end, cleared (by omega)]
  · rw [uPhysCopy_of_behind (by omega), isValue]

lemma arpWalk_sip_iff {ip : BitVec 32} : (arpWalk dev data arph frame stack).sip = ip ↔
    ipBytes ip 0 = 0 ∧ ∀ k < 4, 0 < k →
      data (arph + arphdrSize + dev.addrLen.toNat + k) = ipBytes ip k := by
  have read : ∀ k < 4,
      uPhysCopy stack frame.sip (update data (arph + arphdrSize + dev.addrLen.toNat) 0)
        (arph + arphdrSize + dev.addrLen.toNat) ipAlen (frame.sip + k) =
      if k = 0 then 0 else data (arph + arphdrSize + dev.addrLen.toNat + k) := by
    intro k inside
    rw [uPhysCopy_add (show k < ipAlen from inside)]
    split_ifs with isFirst
    · rw [isFirst]
      exact update_self _ _ _
    · exact update_of_ne (by omega) _ _
  unfold arpWalk
  dsimp only
  rw [word32_eq_iff]
  constructor
  · intro same
    have kept : ∀ k < 4, (if k = 0 then 0 else data (arph + arphdrSize + dev.addrLen.toNat + k)) =
        ipBytes ip k := by
      intro k inside
      rw [← same k inside]
      exact (sip_kept (read k inside) (fun isFirst => if_pos isFirst) inside).symm
    refine ⟨(kept 0 (by decide)).symm, fun k inside later => ?_⟩
    have isByte := kept k inside
    rwa [if_neg (Nat.ne_of_gt later)] at isByte
  · rintro ⟨first, others⟩ k inside
    rw [sip_kept (read k inside) (fun isFirst => if_pos isFirst) inside]
    split_ifs with isFirst
    · rw [isFirst, first]
    · exact others k inside (Nat.pos_of_ne_zero isFirst)

lemma arpWalk_dip_iff {ip : BitVec 32} (long : 4 ≤ dev.addrLen.toNat) :
    (arpWalk dev data arph frame stack).dip = ip ↔
      ∀ k < 4, data (arph + arphdrSize + dev.addrLen.toNat + ipAlen + k) = ipBytes ip k := by
  unfold arpWalk
  dsimp only
  rw [word32_eq_iff]
  have alen : ipAlen = 4 := rfl
  apply forall₂_congr
  intro k inside
  rw [uPhysCopy_add inside, update_of_ne (by omega), update_of_ne (by omega)]

/-- Of an ARP packet between Ethernet devices the sender hardware address always survives; both
addresses survive exactly if the first byte of the sender address is zero and the target address
is the first four bytes of the target hardware address. -/
theorem arpRcv_addresses_iff {fresh packet : Nat → Byte} (isEther : dev.type = arphrdEther)
    (sixBytes : dev.addrLen = 6) (sameType : rcv.type = dev.type)
    (sameLen : rcv.addrLen = dev.addrLen) (takesArp : rcv.flags &&& iffNoarp = 0)
    (built : arpSend type destIp dev srcIp destHw srcHw fresh = some packet) :
    (∃ addresses, arpRcv rcv packet dev.hardHeaderLen.toNat frame stack = some addresses ∧
        (∀ i < 6, addresses.sha i = srcHw i) ∧ addresses.sip = srcIp ∧ addresses.dip = destIp) ↔
      ipBytes srcIp 0 = 0 ∧ ∀ k < 4, targetHw destHw k = ipBytes destIp k := by
  have len : dev.addrLen.toNat = 6 := by rw [sixBytes]; rfl
  have long : 4 ≤ rcv.addrLen.toNat := by rw [sameLen, len]; decide
  unfold arpSend at built
  split_ifs at built with noArp
  rw [← some.inj built, arpRcv, if_pos (arpChecks_arpBody isEther sameType sameLen takesArp)]
  constructor
  · rintro ⟨addresses, isSome, -, sip, dip⟩
    cases isSome
    refine ⟨(arpWalk_sip_iff.mp sip).1, fun k inside => ?_⟩
    rw [← (arpWalk_dip_iff long).mp dip k inside, sameLen]
    exact (arpBody_destHw (by omega)).symm
  · rintro ⟨first, target⟩
    refine ⟨_, rfl, fun i inside => ?_, arpWalk_sip_iff.mpr ⟨first, fun k inside _ => ?_⟩,
      (arpWalk_dip_iff long).mpr fun k inside => ?_⟩
    · rw [arpWalk_sha (by rw [sameLen, len]; exact inside)]
      exact arpBody_srcHw (by omega)
    · rw [sameLen]
      exact arpBody_srcIp inside
    · rw [sameLen, ← target k inside]
      exact arpBody_destHw (by omega)

def ethernetAt (paAddr : BitVec 32) : NetDevice :=
  ⟨1500, 6, arphrdEther, paAddr, 0x00ffffff, 14, iffUp, fun _ => 0x52, fun _ => 0xff⟩

/-- The addresses 0.168.192.1 and 82.82.82.82, the second one on hardware 52:52:52:52:52:52. -/
theorem arpRcv_addresses_iff_repeated :
    ∃ packet, arpSend arpopRequest 0x52525252 (ethernetAt 0x01c0a800) 0x01c0a800
        (some fun _ => 0x52) (fun _ => 0x52) (fun _ => 0) = some packet ∧
      ∃ addresses, arpRcv (ethernetAt 0x52525252) packet 14 ⟨0, 4, by decide⟩ (fun _ => 0) =
          some addresses ∧
        (∀ i < 6, addresses.sha i = 0x52) ∧ addresses.sip = 0x01c0a800 ∧
        addresses.dip = 0x52525252 :=
  ⟨_, rfl, (arpRcv_addresses_iff rfl rfl rfl rfl (by decide) rfl).mpr ⟨by decide, by decide⟩⟩

/-- The request of 192.168.0.1 for 192.168.0.2 is read as one of 0.168.0.1 for 0.0.0.0. -/
theorem not_addresses_request :
    ∃ packet addresses, arpSend arpopRequest 0x0200a8c0 (ethernetAt 0x0100a8c0) 0x0100a8c0 none
        (fun _ => 0x52) (fun _ => 0) = some packet ∧
      arpRcv (ethernetAt 0x0200a8c0) packet 14 ⟨0, 4, by decide⟩ (fun _ => 0) = some addresses ∧
      addresses.sip = 0x0100a800 ∧ addresses.dip = 0 :=
  ⟨_, _, rfl, rfl, by decide, by decide⟩

/-- A request that `arp_send` broadcasts, for any address and from any host, is dropped by every
Ethernet host that accepts its header and has an address. -/
theorem arp_request_dropped {fresh packet answer : Nat → Byte} {addresses : ArpAddresses}
    {hint : Int} (sixBytes : dev.addrLen = 6) (sameLen : rcv.addrLen = dev.addrLen)
    (hasAddr : rcv.paAddr ≠ 0)
    (built : arpSend arpopRequest destIp dev srcIp none srcHw fresh = some packet)
    (received : arpRcv rcv packet dev.hardHeaderLen.toNat frame stack = some addresses) :
    arpReact rcv (packet (dev.hardHeaderLen.toNat + 6)) hint addresses answer = .dropped := by
  have len : dev.addrLen.toNat = 6 := by rw [sixBytes]; rfl
  have long : 4 ≤ rcv.addrLen.toNat := by rw [sameLen, len]; decide
  unfold arpSend at built
  unfold arpRcv at received
  split_ifs at built with noArp
  split_ifs at received with passes
  have isZero : addresses.dip = 0 := by
    rw [← some.inj received, ← some.inj built, arpWalk_dip_iff long, sameLen]
    intro k inside
    have isByte : ipBytes 0 k = BitVec.ofNat 8 (0 / 2 ^ (8 * k)) := rfl
    rw [arpBody_destHw (by omega), isByte, Nat.zero_div]
    rfl
  have notLoopback : addresses.dip ≠ inaddrLoopback := by rw [isZero]; decide
  have isRequest : packet (dev.hardHeaderLen.toNat + 6) = arpopRequest.setWidth 8 := by
    rw [← some.inj built, arpBody_of_before (by unfold arphdrSize; omega)]
    exact update_self _ _ _
  rw [arpReact, if_neg notLoopback, isRequest, if_neg (by decide), isZero, if_pos hasAddr.symm]

theorem arp_request_dropped_ethernet :
    ∃ packet addresses, arpSend arpopRequest 2 (ethernetAt 1) 1 none (fun _ => 0x52)
        (fun _ => 0) = some packet ∧
      arpRcv (ethernetAt 2) packet 14 ⟨0, 4, by decide⟩ (fun _ => 0) = some addresses ∧
      arpReact (ethernetAt 2) (packet 20) 0 addresses (fun _ => 0) = .dropped := by
  have drops {packet addresses} built received := @arp_request_dropped (ethernetAt 1)
    (ethernetAt 2) 2 1 (fun _ => 0x52) ⟨0, 4, by decide⟩ (fun _ => 0) (fun _ => 0) packet
    (fun _ => 0) addresses 0 rfl rfl (by decide) built received
  exact ⟨_, _, rfl, rfl, drops rfl rfl⟩

end PrettyOS.Net
