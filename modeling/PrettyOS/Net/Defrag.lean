import PrettyOS.Kernel.Timer

/-!
Contract: `ip_defrag` of `net/inet/ip.c` on the fragments of one datagram.

The commented-out allocations are taken to succeed: that of a queue always, that of a fragment
with the object that is given to the call. The timer of the queue is on the list of
`kernel/timer.c`, with the timers of everybody else.

A `struct ipfrag *` is a number, with `0` for the null pointer. `none` is a dereference of a null
pointer, or a loop that has run out of fuel.
-/

namespace PrettyOS.Net

open Function Kernel

/-! ## Header fields -/

def htons (x : BitVec 16) : BitVec 16 := x

def ntohs (x : BitVec 16) : BitVec 16 := x

def ipOffset : BitVec 16 := 0x1FFF

def ipFlags : BitVec 16 := 0xE000

def ipDf : BitVec 16 := 0x0010

def ipMf : BitVec 16 := 0x0020

def flagsIn (flagsOff : BitVec 16) : BitVec 16 := ntohs flagsOff &&& ipFlags

def offsetIn (flagsOff : BitVec 16) : Nat := (ntohs flagsOff &&& ipOffset).toNat

def moreIn (flagsOff : BitVec 16) : Bool := decide (flagsIn flagsOff &&& ipMf ≠ 0)

/-- `IP_MF` lies outside of `IP_FLAGS`: no packet has more fragments to come. -/
theorem moreIn_eq_false (flagsOff : BitVec 16) : moreIn flagsOff = false := by
  have disjoint : ipFlags &&& ipMf = 0 := by decide
  apply decide_eq_false
  rw [not_not, flagsIn, BitVec.and_assoc, disjoint]
  exact BitVec.and_zero

structure IpPacket where
  flagsOff : BitVec 16
  totLen : BitVec 16
  ihl : BitVec 4
  skb : Nat
  data : Int

def IpPacket.headerLen (packet : IpPacket) : Nat := packet.ihl.toNat * 4

def IpPacket.first (packet : IpPacket) : Int := (offsetIn packet.flagsOff <<< 3 : Nat)

def IpPacket.behind (packet : IpPacket) : Int :=
  packet.first + (ntohs packet.totLen).toNat - packet.headerLen

/-! ## The queue of one datagram -/

/-- A `struct ipfq` and the fragments behind it; `timer` is the address of its timer. -/
structure FragQueue where
  present : Bool
  timer : Nat
  len : Int
  fragments : Nat
  offset : Nat → Int
  fin : Nat → Int
  fragLen : Nat → Int
  skb : Nat → Nat
  ptr : Nat → Int
  next : Nat → Nat
  prev : Nat → Nat

inductive Defragged where
  | whole
  | kept
  | glued
deriving DecidableEq

namespace FragQueue

def findPlace (q : FragQueue) (offset : Int) : Nat → Nat → Nat → Option (Nat × Nat)
  | 0, _, _ => none
  | fuel + 1, prev, next =>
      if next ≠ 0 then
        if offset < q.offset next then some (prev, next)
        else findPlace q offset fuel next (q.next next)
      else some (prev, 0)

def shrink (fin : Int) (next : Nat) (q : FragQueue) : FragQueue :=
  let i := fin - q.offset next
  { q with
    fragLen := update q.fragLen next (q.fragLen next - i)
    offset := update q.offset next (q.offset next + i)
    ptr := update q.ptr next (q.ptr next + i) }

def unlinkEmpty (next : Nat) (q : FragQueue) : FragQueue :=
  if q.fragLen next ≤ 0 then
    if q.prev next ≠ 0 then
      { q with next := update q.next (q.prev next) (q.next next) }
    else { q with fragments := q.next next }
  else q

def passOn (tfp next : Nat) (q : FragQueue) : FragQueue :=
  if tfp ≠ 0 then { q with prev := update q.prev tfp (q.prev next) } else q

def swallow (fin : Int) : Nat → Nat → FragQueue → Option (Nat × FragQueue)
  | 0, _, _ => none
  | fuel + 1, next, q =>
      if next ≠ 0 then
        if fin ≤ q.offset next then some (next, q)
        else
          swallow fin fuel (q.next next)
            (passOn (q.next next) next (unlinkEmpty next (shrink fin next q)))
      else some (0, q)

def ipFragCreate (fp : Nat) (offset fin : Int) (skb : Nat) (ptr : Int) (q : FragQueue) :
    FragQueue :=
  { q with
    offset := update q.offset fp offset
    fin := update q.fin fp fin
    fragLen := update q.fragLen fp (fin - offset)
    skb := update q.skb fp skb
    ptr := update q.ptr fp ptr
    next := update q.next fp 0
    prev := update q.prev fp 0 }

def linkFragment (tfp prev next : Nat) (q : FragQueue) : FragQueue :=
  let nextLinks := update q.next tfp next
  let prevLinks := update q.prev tfp prev
  { q with
    next := if prev ≠ 0 then update nextLinks prev tfp else nextLinks
    prev := if next ≠ 0 then update prevLinks next tfp else prevLinks
    fragments := if prev ≠ 0 then q.fragments else tfp }

def frqDoneLoop (q : FragQueue) : Nat → Nat → Int → Option Bool
  | 0, _, _ => none
  | fuel + 1, frag, offset =>
      if frag ≠ 0 then
        if offset < q.offset frag then some false
        else frqDoneLoop q fuel (q.next frag) (q.fin frag)
      else some true

def ipFrqDone (fuel : Nat) (q : FragQueue) : Option Bool :=
  if q.len = 0 then some false else frqDoneLoop q fuel q.fragments 0

def enter (fuel tfp : Nat) (packet : IpPacket) (q : FragQueue) :
    Option (Defragged × FragQueue) :=
  let offset := packet.first
  let fin := packet.behind
  let ptr := packet.data + packet.headerLen
  let q := if moreIn packet.flagsOff = false then { q with len := fin } else q
  (findPlace q offset fuel 0 q.fragments).bind fun place =>
    let i := if place.1 ≠ 0 ∧ offset < q.fin place.1 then q.fin place.1 - offset else 0
    (swallow fin fuel place.2 q).bind fun rest =>
      if tfp = 0 then some (.kept, rest.2)
      else
        let linked := linkFragment tfp place.1 rest.1
          (ipFragCreate tfp (offset + i) fin packet.skb (ptr + i) rest.2)
        (ipFrqDone fuel linked).map fun done => (if done then .glued else .kept, linked)

end FragQueue

/-! ## The timer of the queue -/

def ipFragTime : UInt32 := 30 * 100

/-- The search for the queue of a packet; it takes the timer of the queue it finds off the
list. -/
def ipFrqFind (timerHeader fuel : Nat) (q : FragQueue) (timers : Timers) : Option Timers :=
  if q.present = true then (delTimer timerHeader fuel q.timer timers).map Prod.snd
  else some timers

def startTimer (timerHeader fuel timer : Nat) (timers : Timers) : Option Timers :=
  (addTimer timerHeader fuel timer
    { timers with expires := update timers.expires timer ipFragTime }).map Prod.snd

def ipFrqCreate (timerHeader fuel : Nat) (q : FragQueue) (timers : Timers) :
    Option (FragQueue × Timers) :=
  -- `memset` has cleared the links of the timer
  (startTimer timerHeader fuel q.timer (initTimer q.timer timers).2).map fun timers =>
    ({ q with present := true, len := 0, fragments := 0 }, timers)

def restartTimer (timerHeader fuel : Nat) (q : FragQueue) (timers : Timers) :
    Option (FragQueue × Timers) :=
  (delTimer timerHeader fuel q.timer timers).bind fun stopped =>
    (startTimer timerHeader fuel q.timer stopped.2).map fun timers => (q, timers)

def ipDefrag (timerHeader fuel tfp : Nat) (packet : IpPacket) (q : FragQueue)
    (timers : Timers) : Option (Defragged × FragQueue × Timers) :=
  (ipFrqFind timerHeader fuel q timers).bind fun timers =>
    if moreIn packet.flagsOff = false ∧ offsetIn packet.flagsOff = 0 then
      -- `if(ifq == NULL) ip_frq_free(ifq)`
      if q.present = false then none else some (.whole, q, timers)
    else
      (if q.present = true then restartTimer timerHeader fuel q timers
        else ipFrqCreate timerHeader fuel q timers).bind fun found =>
          (FragQueue.enter fuel tfp packet found.1).map fun done => (done.1, done.2, found.2)

end PrettyOS.Net
