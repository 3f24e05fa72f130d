import PrettyOS.Library.IndexChain

/-!
Contract: the chains set up at start: `dev_init` of `net/inet/dev.c`, and the registration loop of
`inet_proto_init` with `inet_add_protocol` and the delivery loop of `ip_rcv`.

A pointer is a number, with `0` for the null pointer; `dev++` adds the size of the structure, and
no structure reaches the end of the address space. `none` is a read where no device is, or a loop
that has run out of fuel.
-/

namespace PrettyOS.Net

open Function List
open Library.IndexChain (Linked)

structure Probe where
  size : Nat
  isDevice : Nat → Bool
  next : Nat → Nat
  init : Nat → Option Int

namespace Probe

def fails (env : Probe) (dev : Nat) : Bool := (env.init dev).any (· ≠ 0)

def devInitFrom (env : Probe) : Nat → Nat → Nat → Nat → Option (List Nat × Nat)
  | 0, _, _, _ => none
  | fuel + 1, dev, devPrev, devBase =>
      if dev = 0 then some ([], devBase)
      else if env.isDevice dev = false then none
      else
        -- `dev_prev = dev->next` sets the local variable only
        let kept :=
          if env.fails dev then
            if devPrev = 0 then (devPrev, env.next dev) else (env.next dev, devBase)
          else (dev, devBase)
        (env.devInitFrom fuel (dev + env.size) kept.1 kept.2).map fun done =>
          (if (env.init dev).isSome then dev :: done.1 else done.1, done.2)

def devInit (env : Probe) (fuel devBase : Nat) : Option (List Nat × Nat) :=
  env.devInitFrom fuel devBase 0 devBase

def Keeps (env : Probe) (chain called : List Nat) (devBase : Nat) : Prop :=
  called.Sublist chain ∧ Linked env.next 0 devBase (chain.filter fun dev => !env.fails dev)

lemma devInitFrom_of_device (env : Probe) (fuel : Nat) {dev : Nat} (device : dev ≠ 0)
    (devPrev devBase : Nat) : env.devInitFrom fuel dev devPrev devBase = none := by
  induction fuel generalizing dev devPrev devBase with
  | zero => rfl
  | succ fuel ih =>
    have later : dev + env.size ≠ 0 := by omega
    rw [devInitFrom, if_neg device]
    simp only [ih later, Option.map_none, ite_self]

/-- The loop goes on by address and not along the chain, so it ends on the empty chain only. -/
theorem devInit_keeps_iff (env : Probe) {devBase : Nat} {chain : List Nat}
    (linked : Linked env.next 0 devBase chain) (notNull : 0 ∉ chain) :
    (∃ fuel called left, env.devInit fuel devBase = some (called, left) ∧
      env.Keeps chain called left) ↔ devBase = 0 := by
  constructor
  · rintro ⟨fuel, called, left, ran, -⟩
    by_contra device
    rw [devInit, devInitFrom_of_device env fuel device] at ran
    cases ran
  · rintro rfl
    obtain rfl := linked.unique (show Linked env.next 0 0 [] from rfl) notNull not_mem_nil
    exact ⟨1, [], 0, rfl, Sublist.refl _, rfl⟩

/-- One device that works. -/
def single : Probe := ⟨200, fun dev => dev = 1000, fun _ => 0, fun _ => some 0⟩

/-- Two devices, and the first one fails. -/
def pair : Probe where
  size := 200
  isDevice dev := dev = 1000 ∨ dev = 1200
  next dev := if dev = 1000 then 1200 else 0
  init dev := some (if dev = 1000 then 1 else 0)

theorem devInit_keeps_iff_pair :
    (∃ fuel called left, pair.devInit fuel 0 = some (called, left) ∧ pair.Keeps [] called left) ∧
      ¬ ∃ fuel called left, pair.devInit fuel 1000 = some (called, left) ∧
        pair.Keeps [1000, 1200] called left := by
  have linked : Linked pair.next 0 1000 [1000, 1200] := ⟨rfl, rfl, rfl⟩
  refine ⟨(devInit_keeps_iff pair (show Linked pair.next 0 0 [] from rfl) not_mem_nil).mpr rfl, ?_⟩
  intro keeps
  exact absurd ((devInit_keeps_iff pair linked (by decide)).mp keeps) (by decide)

theorem devInit_leaves_devices : Linked single.next 0 1000 [1000] ∧
    ∀ fuel, single.devInit fuel 1000 = none :=
  ⟨⟨rfl, rfl⟩, fun fuel => devInitFrom_of_device single fuel (by decide) _ _⟩

end Probe

def maxInetProtos : Nat := 32

structure InetProtocols where
  protocol : Nat → UInt8
  next : Nat → Nat
  inetProtos : Nat → Nat

namespace InetProtocols

def hash (protocol : UInt8) : Nat := protocol.toNat &&& (maxInetProtos - 1)

def inetAddProtocol (prot : Nat) (t : InetProtocols) : InetProtocols :=
  { t with
    next := update t.next prot (t.inetProtos (hash (t.protocol prot)))
    inetProtos := update t.inetProtos (hash (t.protocol prot)) prot }

def inetProtoInit (p : Nat) : Nat → InetProtocols → Option InetProtocols
  | 0, _ => none
  | fuel + 1, t => if p = 0 then some t else inetProtoInit p fuel (inetAddProtocol p t)

def deliver (t : InetProtocols) (wanted : UInt8) : Nat → Nat → Option (List Nat)
  | 0, _ => none
  | fuel + 1, ipprot =>
      if ipprot = 0 then some []
      else (t.deliver wanted fuel (t.next ipprot)).map fun called =>
        if t.protocol ipprot ≠ wanted then called else ipprot :: called

structure Registered (chain : List Nat) (t : InetProtocols) : Prop where
  finite : ∀ bucket < maxInetProtos, ∃ l, Linked t.next 0 (t.inetProtos bucket) l ∧ 0 ∉ l ∧
    ∀ p ∈ chain, hash (t.protocol p) = bucket → l.count p = 1
  delivers : ∀ wanted, ∃ fuel called,
    t.deliver wanted fuel (t.inetProtos (hash wanted)) = some called

lemma inetProtoInit_of_protocol {p : Nat} (isProtocol : p ≠ 0) (fuel : Nat) (t : InetProtocols) :
    inetProtoInit p fuel t = none := by
  induction fuel generalizing t with
  | zero => rfl
  | succ fuel ih =>
    rw [inetProtoInit, if_neg isProtocol]
    exact ih _

/-- The loop never leaves its first protocol, so it ends on the empty chain only. -/
theorem registered_iff {t : InetProtocols} {base : Nat} {chain : List Nat}
    (linked : Linked t.next 0 base chain) (notNull : 0 ∉ chain)
    (empty : ∀ bucket, t.inetProtos bucket = 0) :
    (∃ fuel after, inetProtoInit base fuel t = some after ∧ after.Registered chain) ↔
      base = 0 := by
  constructor
  · rintro ⟨fuel, after, ran, -⟩
    by_contra isProtocol
    rw [inetProtoInit_of_protocol isProtocol] at ran
    cases ran
  · rintro rfl
    obtain rfl := linked.unique (show Linked t.next 0 0 [] from rfl) notNull not_mem_nil
    refine ⟨1, t, rfl, ?_, ?_⟩
    · intro bucket _
      exact ⟨[], empty bucket, not_mem_nil, fun _ mem => absurd mem not_mem_nil⟩
    · intro wanted
      refine ⟨1, [], ?_⟩
      rw [deliver, if_pos (empty _)]

/-- The chain of the source, with the entry for ICMP alone. -/
def icmpOnly : InetProtocols := ⟨fun _ => 1, fun _ => 0, fun _ => 0⟩

theorem registered_iff_icmp :
    (∃ fuel after, inetProtoInit 0 fuel icmpOnly = some after ∧ after.Registered []) ∧
      ¬ ∃ fuel after, inetProtoInit 1000 fuel icmpOnly = some after ∧
        after.Registered [1000] := by
  have none : Linked icmpOnly.next 0 0 [] := rfl
  have linked : Linked icmpOnly.next 0 1000 [1000] := ⟨rfl, rfl⟩
  refine ⟨(registered_iff none not_mem_nil fun _ => rfl).mpr rfl, fun registered => ?_⟩
  exact absurd ((registered_iff linked (by decide) fun _ => rfl).mp registered) (by decide)

theorem icmp_registers_for_ever : Linked icmpOnly.next 0 1000 [1000] ∧
    (∀ fuel, inetProtoInit 1000 fuel icmpOnly = none) ∧
    (inetAddProtocol 1000 (inetAddProtocol 1000 icmpOnly)).next 1000 = 1000 :=
  ⟨⟨rfl, rfl⟩, fun fuel => inetProtoInit_of_protocol (by decide) fuel _, by decide⟩

end InetProtocols

end PrettyOS.Net
