import PrettyOS.Lib.String
import PrettyOS.Net.Device

/-!
Contract: the routing table of `net/inet/route.c`.

`ip_rt_add` is given the object of the allocation that is commented out.

A `struct rtable *` is a number, with `0` for the null pointer. The field `rt_next` stands first in
an entry, so that `&rt->rt_next` is the address of the entry; with `&rt_base` as one more address
the table is one map from cells to entries. `rt_loopback` is never set and stays a null pointer.
`none` is a dereference of a null pointer, or a loop that has run out of fuel.
-/

namespace PrettyOS.Net

open Lib (Byte strcmp)
open Function

def rtfUp : BitVec 16 := 0x0001

def rtfGateway : BitVec 16 := 0x0002

def rtfHost : BitVec 16 := 0x0004

def rtfMss : BitVec 8 := 0x40

def rtfWindow : BitVec 8 := 0x80

structure RouteEnv where
  base : Nat
  device : Nat → NetDevice
  name : Nat → Nat
  mem : Nat → Byte
  readable : Nat

structure Routes where
  next : Nat → Nat
  dst : Nat → BitVec 32
  mask : Nat → BitVec 32
  gateway : Nat → BitVec 32
  flags : Nat → BitVec 8
  use : Nat → BitVec 32
  mss : Nat → BitVec 16
  window : Nat → BitVec 32
  dev : Nat → Nat

def unlinkLoop (drops : Nat → Option Bool) : Nat → Nat → (Nat → Nat) → Option (Nat → Nat)
  | 0, _, _ => none
  | fuel + 1, rtp, next =>
      let rt := next rtp
      if rt ≠ 0 then
        (drops rt).bind fun isDropped =>
          if isDropped = true then
            unlinkLoop drops fuel rtp (update next rtp (next rt))
          else unlinkLoop drops fuel rt next
      else some next

def rtDelDrops (env : RouteEnv) (t : Routes) (dst : BitVec 32) (devname rt : Nat) : Option Bool :=
  if t.dst rt ≠ dst then some false
  else if devname ≠ 0 then
    (strcmp env.mem env.readable (env.name (t.dev rt)) devname).map fun ret => decide (ret = 0)
  else some true

def rtDel (env : RouteEnv) (fuel : Nat) (dst : BitVec 32) (devname : Nat) (t : Routes) :
    Option Routes :=
  (unlinkLoop (rtDelDrops env t dst devname) fuel env.base t.next).map fun next =>
    { t with next := next }

def ipRtFlush (env : RouteEnv) (fuel dev : Nat) (t : Routes) : Option Routes :=
  (unlinkLoop (fun rt => some (decide (t.dev rt = dev))) fuel env.base t.next).map fun next =>
    { t with next := next }

def defaultNetmask (dst : BitVec 32) : BitVec 32 :=
  if dst &&& 0x80000000 = 0 then 0x7f000000
  else if dst &&& 0x40000000 = 0 then 0xbf000000
  else if dst &&& 0x20000000 = 0 then 0xdf000000
  else 0

def guessMask (dst : BitVec 32) (dev : NetDevice) : BitVec 32 :=
  if dst = 0 then 0
  else if (dst ^^^ dev.paAddr) &&& defaultNetmask dst ≠ 0 then defaultNetmask dst
  else dev.paMask

structure RouteRequest where
  flags : BitVec 16
  dst : BitVec 32
  mask : BitVec 32
  gw : BitVec 32
  dev : Nat
  mtu : BitVec 16
  window : BitVec 32

def RouteRequest.settled (request : RouteRequest) (dev : NetDevice) : RouteRequest :=
  if request.flags &&& rtfHost ≠ 0 then { request with mask := 0xffffffff }
  else if request.mask = 0 then
    if (request.dst ^^^ dev.paAddr) &&& dev.paMask = 0 then
      { request with mask := dev.paMask, flags := request.flags &&& ~~~rtfGateway,
                     dst := request.dst &&& dev.paMask }
    else
      { request with mask := guessMask request.dst dev,
                     dst := request.dst &&& guessMask request.dst dev }
  else request

def getGwDev (gw : BitVec 32) (t : Routes) : Nat → Nat → Option Nat
  | 0, _ => none
  | fuel + 1, rt =>
      if rt ≠ 0 then
        if (gw &&& t.mask rt) ^^^ t.dst rt ≠ 0 then getGwDev gw t fuel (t.next rt)
        else if (t.flags rt).setWidth 16 &&& rtfGateway ≠ 0 then some 0
        else some (t.dev rt)
      else some 0

def fillRoute (rt : Nat) (request : RouteRequest) (t : Routes) : Routes :=
  let flags := (request.flags ||| rtfUp).setWidth 8
  { next := update t.next rt 0
    dst := update t.dst rt request.dst
    mask := update t.mask rt request.mask
    gateway := update t.gateway rt request.gw
    flags := update t.flags rt flags
    use := update t.use rt 0
    mss := update t.mss rt (if flags &&& rtfMss ≠ 0 then request.mtu else 0)
    window := update t.window rt (if flags &&& rtfWindow ≠ 0 then request.window else 0)
    dev := update t.dev rt request.dev }

def placeLoop (mask : BitVec 32) (t : Routes) : Nat → Nat → Nat → Option (Nat × Nat)
  | 0, _, _ => none
  | fuel + 1, rtp, prev =>
      let r := t.next rtp
      if r ≠ 0 then
        if t.mask r &&& mask ≠ mask then some (r, prev) else placeLoop mask t fuel r r
      else some (0, prev)

def linkRoute (env : RouteEnv) (fuel rt prev : Nat) (request : RouteRequest) (t : Routes) :
    Option Routes :=
  if rt = 0 then some t
  else
    let t := fillRoute rt request t
    let same := fun r => some (decide (t.dst r = request.dst ∧ t.mask r = request.mask))
    (unlinkLoop same fuel env.base t.next).bind fun next =>
      let t := { t with next := next }
      (placeLoop request.mask t fuel env.base prev).bind fun place =>
        if place.2 = 0 then none
        else
          some { t with
            next := update (update t.next rt place.1) place.2 rt }

def ipRtAdd (env : RouteEnv) (fuel rt prev : Nat) (request : RouteRequest) (t : Routes) :
    Option Routes :=
  let dev := env.device request.dev
  let request := request.settled dev
  let flags := if request.gw = dev.paAddr then request.flags &&& ~~~rtfGateway else request.flags
  if flags &&& rtfGateway ≠ 0 then
    (getGwDev request.gw t fuel (t.next env.base)).bind fun found =>
      if request.dev ≠ found then some t
      else linkRoute env fuel rt prev { request with flags := flags ||| rtfGateway } t
  else linkRoute env fuel rt prev { request with flags := flags, gw := 0 } t

def routeLoop (daddr : BitVec 32) (t : Routes) : Nat → Nat → Option Nat
  | 0, _ => none
  | fuel + 1, rt =>
      if rt ≠ 0 then
        if (daddr &&& t.mask rt) ^^^ t.dst rt = 0 then some rt
        else routeLoop daddr t fuel (t.next rt)
      else some 0

structure Routed where
  rt : Nat
  src : Option (BitVec 32)

def ipRtRoute (env : RouteEnv) (fuel : Nat) (daddr : BitVec 32) (wantsSrc : Bool) (t : Routes) :
    Option (Routed × Routes) :=
  (routeLoop daddr t fuel (t.next env.base)).bind fun rt =>
    -- `rt->rt_dev->pa_addr` is read whether or not an entry was found
    if rt = 0 then none
    else
      let paAddr := (env.device (t.dev rt)).paAddr
      let src := if wantsSrc = true then some paAddr else none
      if daddr = paAddr then some (⟨0, src⟩, t)
      else some (⟨rt, src⟩, { t with use := update t.use rt (t.use rt + 1) })

end PrettyOS.Net
