import PrettyOS.Library.IndexChain
import PrettyOS.Net.SkbQueue

/-!
Contract: receiving packets, `netif_rx` and `net_bh` of `net/inet/dev.c`.

A handler may call `netif_rx`, also with the packet it was given; it changes neither the
registrations nor the device of that packet.

A `struct sk_buff *` and a `struct packet_type *` are numbers, with `0` for the null pointer. The
field `next` of a packet type is the cell with the number of the packet type, and `ptype_base` is
the cell `0`. The packets are different objects in memory, so `backlog_size` does not overflow.
-/

namespace PrettyOS.Net

open Library List Nat
open Function

structure PacketType where
  type : BitVec 16
  dev : Nat

structure RxEnv where
  backlog : Nat
  ptypes : Nat → PacketType

structure RxPacket where
  skb : Nat
  dev : Nat
  type : BitVec 16
  deriving DecidableEq

structure HandlerCall where
  pt : Nat
  skb : Nat
  dev : Nat
  deriving DecidableEq

inductive Control where
  | idle
  | transmit
  | deliver (skb : Nat) (type : BitVec 16) (ptPrev ptype : Nat)
  | leave
  deriving DecidableEq

structure NetRx where
  links : SkbLinks
  backlogSize : Int
  dropping : Int
  inBh : Bool
  packs : Nat → Nat
  dev : Nat → Nat
  trans : Nat → BitVec 16
  control : Control

def devAddPack (pt : Nat) (packs : Nat → Nat) : Nat → Nat :=
  update (update packs pt (packs 0)) 0 pt

def devRemovePackFrom (packetT : Nat) : Nat → Nat → (Nat → Nat) → Option (Nat → Nat)
  | 0, _, _ => none
  | fuel + 1, pt, packs =>
      if packs pt = 0 then some packs
      else if packs pt = packetT then some (update packs pt (packs packetT))
      else devRemovePackFrom packetT fuel (packs pt) packs

def devRemovePack (fuel packetT : Nat) (packs : Nat → Nat) : Option (Nat → Nat) :=
  devRemovePackFrom packetT fuel 0 packs

def logicalNot (x : Int) : Int := if x = 0 then 1 else 0

def RxEnv.accepts (env : RxEnv) (packet : RxPacket) (pt : Nat) : Bool :=
  (env.ptypes pt).type = packet.type ∧ ((env.ptypes pt).dev = 0 ∨ (env.ptypes pt).dev = packet.dev)

inductive RxEvent where
  | rx (skb dev : Nat) (type : BitVec 16)
  | addPack (pt : Nat)
  | removePack (fuel pt : Nat)
  | netBh
  | proceed

inductive RxEffect where
  | quiet
  | took (packet : RxPacket)
  | called (call : HandlerCall)

namespace NetRx

variable (env : RxEnv)

def packet (s : NetRx) (skb : Nat) : RxPacket := ⟨skb, s.dev skb, s.trans skb⟩

def netifRx (skb : Nat) (s : NetRx) : NetRx :=
  let dropping :=
    if s.backlogSize = 0 then 0
    else if logicalNot s.backlogSize > 300 then 1
    else s.dropping
  if dropping ≠ 0 then { s with dropping := dropping }
  else
    { s with
      dropping := dropping
      links := skbQueueTail env.backlog skb s.links
      backlogSize := s.backlogSize + 1 }

def netBh (s : NetRx) : NetRx :=
  if s.inBh then s else { s with inBh := true, control := .transmit }

def callPrev (s : NetRx) (skb ptPrev : Nat) : RxEffect :=
  if ptPrev ≠ 0 then .called ⟨ptPrev, skb, s.dev skb⟩ else .quiet

def proceed (s : NetRx) : RxEffect × NetRx :=
  match s.control with
  | .idle => (.quiet, s)
  | .transmit =>
      let (skb, links) := skbDequeue env.backlog s.links
      if skb = 0 then (.quiet, { s with links := links, inBh := false, control := .leave })
      else
        (.took (s.packet skb),
          { s with
            links := links
            backlogSize := s.backlogSize - 1
            control := .deliver skb (s.trans skb) 0 (s.packs 0) })
  | .deliver skb type ptPrev ptype =>
      if ptype = 0 then (s.callPrev skb ptPrev, { s with control := .transmit })
      else if env.accepts ⟨skb, s.dev skb, type⟩ ptype then
        (s.callPrev skb ptPrev, { s with control := .deliver skb type ptype (s.packs ptype) })
      else (.quiet, { s with control := .deliver skb type ptPrev (s.packs ptype) })
  | .leave => (.quiet, { s with control := .idle })

def step : RxEvent → NetRx → Option (RxEffect × NetRx)
  | .rx skb dev type, s =>
      some (.quiet, netifRx env skb
        { s with
          dev := update s.dev skb dev
          trans := update s.trans skb type })
  | .addPack pt, s => some (.quiet, { s with packs := devAddPack pt s.packs })
  | .removePack fuel pt, s =>
      (devRemovePack fuel pt s.packs).map fun packs => (.quiet, { s with packs := packs })
  | .netBh, s => some (.quiet, s.netBh)
  | .proceed, s => some (s.proceed env)

end NetRx

structure Delivery where
  packet : RxPacket
  registered : List Nat

def Delivery.calls (env : RxEnv) (delivery : Delivery) : List HandlerCall :=
  (delivery.registered.filter (env.accepts delivery.packet)).map fun pt =>
    ⟨pt, delivery.packet.skb, delivery.packet.dev⟩

def RxEvent.register : RxEvent → List Nat → List Nat
  | addPack pt, registered => pt :: registered
  | removePack _ pt, registered => registered.erase pt
  | _, registered => registered

def RxEvent.arrivals : RxEvent → List RxPacket
  | rx skb dev type => [⟨skb, dev, type⟩]
  | _ => []

def RxEffect.deliveries (registered : List Nat) : RxEffect → List Delivery
  | took packet => [⟨packet, registered⟩]
  | _ => []

def RxEffect.calls : RxEffect → List HandlerCall
  | called call => [call]
  | _ => []

def Control.inHand : Control → Option Nat
  | deliver skb _ _ _ => some skb
  | _ => none

structure RxRun where
  rx : NetRx
  registered : List Nat
  arrived : List RxPacket
  taken : List Delivery
  called : List HandlerCall

namespace RxRun

def step (env : RxEnv) (event : RxEvent) (s : RxRun) : Option (RxEffect × RxRun) :=
  (s.rx.step env event).map fun (effect, rx) =>
    (effect, ⟨rx, event.register s.registered, s.arrived ++ event.arrivals,
      s.taken ++ effect.deliveries s.registered, s.called ++ effect.calls⟩)

def waiting (s : RxRun) : List Nat := (s.arrived.drop s.taken.length).map RxPacket.skb

def Admits (env : RxEnv) : RxEvent → RxRun → Prop
  | .rx skb dev _, s => skb ≠ 0 ∧ skb ≠ env.backlog ∧ skb ∉ s.waiting ∧
      (s.rx.control.inHand = some skb → dev = s.rx.dev skb)
  | .addPack pt, s => s.rx.control.inHand = none ∧ pt ≠ 0 ∧ pt ∉ s.registered
  | .removePack fuel _, s => s.rx.control.inHand = none ∧ s.registered.length < fuel
  | .netBh, s => s.rx.control ≠ .leave
  | .proceed, _ => True

end RxRun

abbrev Backlog (env : RxEnv) (links : SkbLinks) (queue : List Nat) : Prop :=
  QueuesFor (fun _ => False) [env.backlog] links fun _ => queue

section Parts

variable {env : RxEnv} {links : SkbLinks} {queue registered : List Nat} {packs : Nat → Nat}
  {skb pt packetT cell fuel : Nat}

lemma Backlog.queueTail (backlog : Backlog env links queue) (ne0 : skb ≠ 0)
    (notHead : skb ≠ env.backlog) (absent : skb ∉ queue) :
    Backlog env (skbQueueTail env.backlog skb links) (queue ++ [skb]) := by
  have off : OffQueues [env.backlog] (fun _ => queue) skb :=
    ⟨ne0, fun isHead => notHead (mem_singleton.mp isHead), fun _ _ => absent⟩
  apply (QueuesFor.queueTail backlog (mem_singleton.mpr rfl) off).congr
  intro head isHead
  rw [mem_singleton.mp isHead, update_self]

lemma Backlog.dequeue_nil (backlog : Backlog env links []) :
    skbDequeue env.backlog links = (0, links) :=
  QueuesFor.dequeue_nil backlog (mem_singleton.mpr rfl) rfl

lemma Backlog.dequeue_cons (backlog : Backlog env links (skb :: queue)) :
    ∃ links', skbDequeue env.backlog links = (skb, links') ∧ Backlog env links' queue := by
  obtain ⟨links', ran, after⟩ := QueuesFor.dequeue_cons backlog (mem_singleton.mpr rfl) rfl
  refine ⟨links', ran, after.congr ?_⟩
  intro head isHead
  rw [mem_singleton.mp isHead, update_self]

lemma Backlog.ne_zero (backlog : Backlog env links queue) (listed : skb ∈ queue) : skb ≠ 0 :=
  QueuesFor.place_ne_zero backlog (mem_singleton.mpr rfl) (mem_cons_of_mem _ listed)

lemma linked_devAddPack (link : IndexChain.Linked packs 0 (packs 0) registered)
    (ne0 : pt ≠ 0) (nodup : (0 :: registered).Nodup) (absent : pt ∉ registered) :
    IndexChain.Linked (devAddPack pt packs) 0 (devAddPack pt packs 0) (pt :: registered) := by
  have isBase : devAddPack pt packs 0 = pt := update_self _ _ _
  rw [isBase]
  apply (link.push absent).congr
  intro entry mem
  apply update_of_ne
  rintro rfl
  rcases mem_cons.mp mem with isNull | listed
  · exact ne0 isNull.symm
  · exact (nodup_cons.mp nodup).1 listed

lemma devRemovePackFrom_eq (link : IndexChain.Linked packs 0 (packs cell) registered)
    (nodup : (cell :: registered).Nodup) (ne0 : 0 ∉ registered)
    (enough : registered.length < fuel) :
    ∃ after, devRemovePackFrom packetT fuel cell packs = some after ∧
      IndexChain.Linked after 0 (after cell) (registered.erase packetT) ∧
      ∀ entry ∉ cell :: registered, after entry = packs entry := by
  induction registered generalizing cell fuel with
  | nil =>
    obtain ⟨fuel, rfl⟩ := exists_eq_succ_of_ne_zero (Nat.ne_of_gt enough)
    have isNull : packs cell = 0 := link
    exact ⟨packs, by rw [devRemovePackFrom, if_pos isNull], link, fun _ _ => rfl⟩
  | cons first rest ih =>
    obtain ⟨fuel, rfl⟩ := exists_eq_succ_of_ne_zero (Nat.ne_zero_of_lt enough)
    have isFirst := link.1
    obtain ⟨notAgain, nodupRest⟩ := nodup_cons.mp nodup
    rw [mem_cons, not_or] at ne0 notAgain
    rw [devRemovePackFrom, isFirst, if_neg (Ne.symm ne0.1)]
    by_cases isIt : first = packetT
    · subst isIt
      refine ⟨_, if_pos rfl, ?_, fun entry out => ?_⟩
      · rw [erase_cons_head]
        exact link.skip notAgain.2
      · exact update_of_ne (ne_of_not_mem_cons out) _ _
    obtain ⟨after, isLoop, linkedAfter, same⟩ :=
      ih link.2 nodupRest ne0.2 (lt_of_succ_lt_succ enough)
    refine ⟨after, by rw [if_neg isIt, isLoop], ?_, fun entry out => ?_⟩
    · rw [erase_cons_tail (beq_eq_false_iff_ne.mpr isIt ▸ Bool.false_ne_true)]
      refine ⟨?_, linkedAfter⟩
      rw [same cell (not_mem_cons_of_ne_of_not_mem notAgain.1 notAgain.2), isFirst]
    · exact same entry (not_mem_of_not_mem_cons out)

lemma devRemovePack_eq (link : IndexChain.Linked packs 0 (packs 0) registered)
    (nodup : (0 :: registered).Nodup) (enough : registered.length < fuel) :
    ∃ after, devRemovePack fuel packetT packs = some after ∧
      IndexChain.Linked after 0 (after 0) (registered.erase packetT) := by
  obtain ⟨after, ran, linkedAfter, -⟩ :=
    devRemovePackFrom_eq link nodup (nodup_cons.mp nodup).1 enough
  exact ⟨after, ran, linkedAfter⟩

end Parts

namespace RxRun

variable {env : RxEnv} {s t : RxRun} {queue rest : List Nat}

structure Delivered (env : RxEnv) (s : RxRun) : Prop where
  once : ∀ delivery ∈ s.taken, delivery.registered.Nodup
  backlog : ∃ queue, Backlog env s.rx.links queue ∧ s.rx.backlogSize = queue.length ∧
    s.arrived = s.taken.map Delivery.packet ++ queue.map s.rx.packet
  calls : ∃ due, s.called ++ due = s.taken.flatMap (Delivery.calls env) ∧
    (s.rx.control.inHand = none → due = [])

def Finishes (env : RxEnv) (s : RxRun) : Prop :=
  ∃ n effects t, runSteps (step env) (List.replicate n .proceed) s = some (effects, t) ∧
    t.rx.control = .idle

def DeliversOnce (env : RxEnv) (_ : RxEvent) (s : RxRun) (_ : RxEffect) (t : RxRun) : Prop :=
  t.Delivered env ∧ t.Finishes env ∧
    (s.rx.inBh = true → t.rx.inBh = false → t.arrived = t.taken.map Delivery.packet)

def Ahead (s : NetRx) (rest : List Nat) : Prop :=
  match s.control with
  | .deliver _ _ _ ptype => IndexChain.Linked s.packs 0 ptype rest ∧ 0 ∉ rest
  | _ => rest = []

def due (env : RxEnv) (s : NetRx) (rest : List Nat) : List HandlerCall :=
  match s.control with
  | .deliver skb type ptPrev _ =>
      (s.callPrev skb ptPrev).calls ++
        (rest.filter (env.accepts ⟨skb, s.dev skb, type⟩)).map fun pt => ⟨pt, skb, s.dev skb⟩
  | _ => []

lemma ahead_iff {rx : NetRx} (free : rx.control.inHand = none) : Ahead rx rest ↔ rest = [] := by
  unfold Ahead
  cases control : rx.control with
  | deliver skb type ptPrev ptype =>
    rw [control] at free
    cases free
  | _ => exact Iff.rfl

lemma due_eq_nil {rx : NetRx} (free : rx.control.inHand = none) : due env rx rest = [] := by
  unfold due
  cases control : rx.control with
  | deliver skb type ptPrev ptype =>
    rw [control] at free
    cases free
  | _ => rfl

def running : Control → Bool
  | .transmit => true
  | .deliver _ _ _ _ => true
  | _ => false

structure Holds (env : RxEnv) (s : RxRun) (queue rest : List Nat) : Prop where
  backlog : Backlog env s.rx.links queue
  size : s.rx.backlogSize = queue.length
  dropping : s.rx.dropping = 0
  arrived : s.arrived = s.taken.map Delivery.packet ++ queue.map s.rx.packet
  linked : IndexChain.Linked s.rx.packs 0 (s.rx.packs 0) s.registered
  nodup : (0 :: s.registered).Nodup
  once : ∀ delivery ∈ s.taken, delivery.registered.Nodup
  inBh : s.rx.inBh = running s.rx.control
  ahead : Ahead s.rx rest
  calls : s.called ++ due env s.rx rest = s.taken.flatMap (Delivery.calls env)

lemma Holds.delivered (holds : Holds env s queue rest) : s.Delivered env where
  once := holds.once
  backlog := ⟨queue, holds.backlog, holds.size, holds.arrived⟩
  calls := ⟨due env s.rx rest, holds.calls, due_eq_nil⟩

lemma Holds.waiting_eq (holds : Holds env s queue rest) : s.waiting = queue := by
  have behind : s.arrived.drop s.taken.length = queue.map s.rx.packet := by
    rw [holds.arrived]
    exact drop_left' (length_map _)
  rw [waiting, behind, map_map]
  exact map_id queue

lemma step_eq {event : RxEvent} {effect : RxEffect} {rx : NetRx}
    (isStep : s.rx.step env event = some (effect, rx)) :
    step env event s = some (effect, ⟨rx, event.register s.registered,
      s.arrived ++ event.arrivals, s.taken ++ effect.deliveries s.registered,
      s.called ++ effect.calls⟩) := by
  rw [step, isStep]
  rfl

lemma step_quiet {event : RxEvent} {rx : NetRx} (isStep : s.rx.step env event = some (.quiet, rx)) :
    step env event s = some (.quiet, ⟨rx, event.register s.registered,
      s.arrived ++ event.arrivals, s.taken, s.called⟩) := by
  rw [step_eq isStep]
  simp only [RxEffect.deliveries, RxEffect.calls, append_nil]

lemma logicalNot_le (x : Int) : ¬ logicalNot x > 300 := by
  unfold logicalNot
  split <;> decide

lemma netifRx_eq (rx : NetRx) (skb : Nat) (accepting : rx.dropping = 0) :
    rx.netifRx env skb =
      { rx with
        links := skbQueueTail env.backlog skb rx.links
        backlogSize := rx.backlogSize + 1 } := by
  have kept : (if rx.backlogSize = 0 then 0
      else if logicalNot rx.backlogSize > 300 then 1 else rx.dropping) = rx.dropping := by
    rw [if_neg (logicalNot_le _), accepting, ite_self]
  rw [NetRx.netifRx, kept, if_neg (not_not.mpr accepting)]

lemma packet_update {skb dev : Nat} {type : BitVec 16} {rx rx' : NetRx} (fresh : skb ∉ queue)
    (isDev : rx'.dev = update rx.dev skb dev) (isTrans : rx'.trans = update rx.trans skb type) :
    (queue ++ [skb]).map rx'.packet = queue.map rx.packet ++ [⟨skb, dev, type⟩] := by
  rw [map_append]
  congr 1
  · apply map_congr_left
    intro other mem
    have ne := ne_of_mem_of_not_mem mem fresh
    simp only [NetRx.packet, isDev, isTrans, update_of_ne ne]
  · simp only [map_singleton, NetRx.packet, isDev, isTrans, update_self]

lemma due_congr (rx : NetRx) {rx' : NetRx} (control : rx'.control = rx.control)
    (same : ∀ skb, rx.control.inHand = some skb → rx'.dev skb = rx.dev skb) :
    due env rx' rest = due env rx rest := by
  unfold due
  rw [control]
  cases isControl : rx.control with
  | deliver skb type ptPrev ptype =>
    have sameDev := same skb (by rw [isControl]; rfl)
    simp only [NetRx.callPrev, sameDev]
  | _ => rfl

section

variable (holds : Holds env s queue rest)
include holds

lemma Holds.rx {skb dev : Nat} {type : BitVec 16} (adm : Admits env (.rx skb dev type) s) :
    ∃ t, step env (.rx skb dev type) s = some (.quiet, t) ∧ t.rx.inBh = s.rx.inBh ∧
      Holds env t (queue ++ [skb]) rest := by
  obtain ⟨ne0, notHead, fresh, sameDev⟩ := adm
  rw [holds.waiting_eq] at fresh
  have received := @netifRx_eq env { s.rx with
    dev := update s.rx.dev skb dev
    trans := update s.rx.trans skb type } skb holds.dropping
  refine ⟨_, step_quiet (congrArg (fun rx => some (RxEffect.quiet, rx)) received), rfl, ?_⟩
  refine
    { holds with
      backlog := holds.backlog.queueTail ne0 notHead fresh
      size := ?_
      arrived := ?_
      calls := ?_ }
  · rw [length_append, cast_add, ← holds.size]
    rfl
  · rw [packet_update fresh rfl rfl, ← append_assoc, ← holds.arrived]
    rfl
  · rw [due_congr s.rx]
    · exact holds.calls
    · rfl
    intro inHand isInHand
    by_cases same : inHand = skb
    · subst same
      exact (update_self _ _ _).trans (sameDev isInHand)
    · exact update_of_ne same _ _

lemma Holds.register {event : RxEvent} {packs : Nat → Nat}
    (isStep : s.rx.step env event = some (.quiet, { s.rx with packs := packs }))
    (quiet : event.arrivals = []) (free : s.rx.control.inHand = none)
    (linked : IndexChain.Linked packs 0 (packs 0) (event.register s.registered))
    (nodup : (0 :: event.register s.registered).Nodup) :
    ∃ t, step env event s = some (.quiet, t) ∧ t.rx.inBh = s.rx.inBh ∧ Holds env t queue rest := by
  refine ⟨_, step_quiet isStep, rfl, ?_⟩
  refine
    { holds with
      arrived := ?_
      linked := linked
      nodup := nodup
      ahead := ?_
      calls := ?_ }
  · rw [quiet, append_nil]
    exact holds.arrived
  · refine (ahead_iff ?_).mpr ((ahead_iff free).mp holds.ahead)
    exact free
  · rw [due_congr s.rx]
    · exact holds.calls
    · rfl
    · exact fun _ _ => rfl

lemma Holds.addPack {pt : Nat} (adm : Admits env (.addPack pt) s) :
    ∃ t, step env (.addPack pt) s = some (.quiet, t) ∧ t.rx.inBh = s.rx.inBh ∧
      Holds env t queue rest := by
  obtain ⟨free, ne0, absent⟩ := adm
  apply holds.register rfl rfl free
  · exact linked_devAddPack holds.linked ne0 holds.nodup absent
  · rw [RxEvent.register, (List.Perm.swap _ _ _).nodup_iff, nodup_cons]
    exact ⟨not_mem_cons_of_ne_of_not_mem ne0 absent, holds.nodup⟩

lemma Holds.removePack {fuel pt : Nat} (adm : Admits env (.removePack fuel pt) s) :
    ∃ t, step env (.removePack fuel pt) s = some (.quiet, t) ∧ t.rx.inBh = s.rx.inBh ∧
      Holds env t queue rest := by
  obtain ⟨free, enough⟩ := adm
  obtain ⟨_, ran, link⟩ := devRemovePack_eq holds.linked holds.nodup enough
  apply holds.register _ rfl free link
  · exact holds.nodup.sublist ((erase_sublist).cons_cons 0)
  · rw [NetRx.step, ran]
    rfl

lemma Holds.netBh (adm : Admits env .netBh s) :
    ∃ t, step env .netBh s = some (.quiet, t) ∧ t.rx.inBh = true ∧ Holds env t queue rest := by
  have isStep : s.rx.step env .netBh = some (.quiet, s.rx.netBh) := rfl
  refine ⟨_, step_quiet isStep, ?_⟩
  by_cases set : s.rx.inBh = true
  · have same : s.rx.netBh = s.rx := if_pos set
    rw [same]
    refine ⟨set, { holds with arrived := ?_ }⟩
    exact (append_nil _).trans holds.arrived
  have ent : s.rx.netBh = { s.rx with inBh := true, control := .transmit } := if_neg set
  have isIdle : s.rx.control = .idle := by
    have isRunning := holds.inBh
    cases control : s.rx.control with
    | idle => rfl
    | leave => exact absurd control adm
    | transmit => exact absurd (isRunning.trans (congrArg running control)) set
    | deliver skb type ptPrev ptype =>
      exact absurd (isRunning.trans (congrArg running control)) set
  have free := congrArg Control.inHand isIdle
  rw [ent]
  refine ⟨rfl, { holds with arrived := ?_, inBh := rfl, ahead := ?_, calls := ?_ }⟩
  · exact (append_nil _).trans holds.arrived
  · exact (ahead_iff free).mp holds.ahead
  have calls := holds.calls
  rw [due_eq_nil free] at calls
  exact calls

end

def stage : Control → Nat
  | .idle => 0
  | .leave => 1
  | .transmit => 2
  | .deliver _ _ _ _ => 3

def work (s : RxRun) (queue rest : List Nat) : Nat :=
  queue.length * (s.registered.length + 2) + rest.length + stage s.rx.control

def Advances (env : RxEnv) (s : RxRun) (queue rest : List Nat) : Prop :=
  ∃ effect t queue' rest', step env .proceed s = some (effect, t) ∧ Holds env t queue' rest' ∧
    work t queue' rest' < work s queue rest ∧
    (s.rx.inBh = true → t.rx.inBh = false → queue' = [])

variable {skb ptPrev ptype : Nat} {type : BitVec 16}

lemma Holds.advances_leave (holds : Holds env s [] rest)
    (control : s.rx.control = .transmit) : Advances env s [] rest := by
  have isStep : s.rx.step env .proceed =
      some (.quiet, { s.rx with inBh := false, control := .leave }) := by
    simp only [NetRx.step, NetRx.proceed, control, holds.backlog.dequeue_nil, if_pos]
  have free := congrArg Control.inHand control
  have calls := holds.calls
  rw [due_eq_nil free] at calls
  refine ⟨_, _, [], rest, step_quiet isStep, ?_, ?_, fun _ _ => rfl⟩
  · refine { holds with arrived := ?_, inBh := rfl, ahead := ?_, calls := calls }
    · exact (append_nil _).trans holds.arrived
    · exact (ahead_iff free).mp holds.ahead
  · simp only [work, control, stage, RxEvent.register]
    omega

lemma Holds.advances_take (holds : Holds env s (skb :: queue) rest)
    (control : s.rx.control = .transmit) : Advances env s (skb :: queue) rest := by
  obtain ⟨links, ran, backlog⟩ := holds.backlog.dequeue_cons
  have ne0 := holds.backlog.ne_zero mem_cons_self
  have isStep : s.rx.step env .proceed = some (.took (s.rx.packet skb), { s.rx with
      links := links
      backlogSize := s.rx.backlogSize - 1
      control := .deliver skb (s.rx.trans skb) 0 (s.rx.packs 0) }) := by
    simp only [NetRx.step, NetRx.proceed, control, ran, if_neg ne0]
  have free := congrArg Control.inHand control
  have calls := holds.calls
  rw [due_eq_nil free, append_nil] at calls
  have set : s.rx.inBh = true := by
    rw [holds.inBh, control]
    rfl
  have arrived := holds.arrived
  have size := holds.size
  refine ⟨_, _, queue, s.registered, step_eq isStep, ?_, ?_, ?_⟩
  · refine
      { holds with
        backlog := backlog
        size := ?_
        arrived := ?_
        once := ?_
        inBh := set
        ahead := ⟨holds.linked, (nodup_cons.mp holds.nodup).1⟩
        calls := ?_ }
    · rw [length_cons] at size
      simp only [size]
      omega
    · rw [map_cons] at arrived
      simp only [RxEvent.arrivals, RxEffect.deliveries, append_nil, map_append,
        map_singleton, append_assoc, singleton_append]
      exact arrived
    · simp only [RxEffect.deliveries, forall_mem_append, forall_mem_singleton]
      exact ⟨holds.once, (nodup_cons.mp holds.nodup).2⟩
    · simp only [RxEffect.calls, RxEffect.deliveries, append_nil, flatMap_append,
        flatMap_singleton, calls]
      rfl
  · have isEmpty := (ahead_iff free).mp holds.ahead
    simp only [work, control, stage, RxEvent.register, isEmpty, length_cons, length_nil]
    rw [succ_mul]
    omega
  · exact fun _ cleared => absurd (set.symm.trans cleared) (by decide)

lemma Holds.advances_control (holds : Holds env s queue rest) {effect : RxEffect}
    {control : Control} {rest' : List Nat}
    (isStep : s.rx.step env .proceed = some (effect, { s.rx with control := control }))
    (noDelivery : effect.deliveries s.registered = []) (set : s.rx.inBh = running control)
    (ahead : Ahead { s.rx with control := control } rest')
    (calls : effect.calls ++ due env { s.rx with control := control } rest' = due env s.rx rest)
    (closer : rest'.length + stage control < rest.length + stage s.rx.control) :
    Advances env s queue rest := by
  refine ⟨_, _, queue, rest', step_eq isStep, ?_, ?_, ?_⟩
  · refine { holds with arrived := ?_, once := ?_, inBh := set, ahead := ahead, calls := ?_ }
    · rw [noDelivery, append_nil]
      exact (append_nil _).trans holds.arrived
    · rw [noDelivery, append_nil]
      exact holds.once
    · rw [noDelivery, append_nil, append_assoc, calls]
      exact holds.calls
  · simp only [work, RxEvent.register]
    omega
  · exact fun isSet cleared => absurd (isSet.symm.trans cleared) (by decide)

lemma deliveries_callPrev {rx : NetRx} {registered : List Nat} :
    (rx.callPrev skb ptPrev).deliveries registered = [] := by
  unfold NetRx.callPrev
  split <;> rfl

lemma Holds.advances_end (holds : Holds env s queue [])
    (control : s.rx.control = .deliver skb type ptPrev 0) : Advances env s queue [] := by
  have isStep : s.rx.step env .proceed =
      some (s.rx.callPrev skb ptPrev, { s.rx with control := .transmit }) := by
    simp only [NetRx.step, NetRx.proceed, control, if_pos]
  have set : s.rx.inBh = true := by
    rw [holds.inBh, control]
    rfl
  apply holds.advances_control isStep deliveries_callPrev set rfl
  · simp only [due, control, filter_nil, map_nil]
  · simp only [stage, control]
    omega

lemma Holds.advances_look (holds : Holds env s queue (ptype :: rest))
    (control : s.rx.control = .deliver skb type ptPrev ptype) :
    Advances env s queue (ptype :: rest) := by
  have ahead := holds.ahead
  simp only [Ahead, control, IndexChain.Linked, mem_cons, not_or] at ahead
  obtain ⟨⟨-, link⟩, ne0, notAgain⟩ := ahead
  have set : s.rx.inBh = true := by
    rw [holds.inBh, control]
    rfl
  by_cases acc : env.accepts ⟨skb, s.rx.dev skb, type⟩ ptype = true
  · have isStep : s.rx.step env .proceed = some (s.rx.callPrev skb ptPrev,
        { s.rx with control := .deliver skb type ptype (s.rx.packs ptype) }) := by
      simp only [NetRx.step, NetRx.proceed, control, if_neg (Ne.symm ne0), if_pos acc]
    apply holds.advances_control isStep deliveries_callPrev set ⟨link, notAgain⟩
    · simp only [due, control, filter_cons_of_pos acc, map_cons, NetRx.callPrev,
        ne_eq, Ne.symm ne0, not_false_eq_true, if_true, RxEffect.calls, singleton_append]
    · simp only [stage, control, length_cons]
      omega
  have isStep : s.rx.step env .proceed = some (.quiet,
      { s.rx with control := .deliver skb type ptPrev (s.rx.packs ptype) }) := by
    simp only [NetRx.step, NetRx.proceed, control, if_neg (Ne.symm ne0), if_neg acc]
  apply holds.advances_control isStep rfl set ⟨link, notAgain⟩
  · simp only [due, control, filter_cons_of_neg acc, RxEffect.calls, nil_append]
    rfl
  · simp only [stage, control, length_cons]
    omega

lemma Holds.advances (holds : Holds env s queue rest) (busy : s.rx.control ≠ .idle) :
    Advances env s queue rest := by
  cases control : s.rx.control with
  | idle => exact absurd control busy
  | transmit =>
    cases queue with
    | nil => exact holds.advances_leave control
    | cons skb queue => exact holds.advances_take control
  | deliver skb type ptPrev ptype =>
    have ahead := holds.ahead
    simp only [Ahead, control] at ahead
    cases rest with
    | nil =>
      obtain rfl : ptype = 0 := ahead.1
      exact holds.advances_end control
    | cons first rest =>
      obtain rfl : ptype = first := ahead.1.1
      exact holds.advances_look control
  | leave =>
    have isStep : s.rx.step env .proceed = some (.quiet, { s.rx with control := .idle }) := by
      simp only [NetRx.step, NetRx.proceed, control]
    have free := congrArg Control.inHand control
    have clear : s.rx.inBh = false := by
      rw [holds.inBh, control]
      rfl
    apply holds.advances_control isStep rfl clear ((ahead_iff free).mp holds.ahead)
    · exact (due_eq_nil free).symm
    · simp only [stage, control]
      omega

lemma Holds.finishes (holds : Holds env s queue rest) : s.Finishes env := by
  induction bound : work s queue rest using Nat.strong_induction_on
    generalizing s queue rest with
  | h bound ih =>
    by_cases isIdle : s.rx.control = .idle
    · exact ⟨0, [], s, rfl, isIdle⟩
    obtain ⟨effect, t, _, _, isStep, holds', closer, -⟩ := holds.advances isIdle
    obtain ⟨n, effects, last, isRest, ends⟩ := ih _ (bound ▸ closer) holds' rfl
    exact ⟨n + 1, effect :: effects, last, runSteps_extend isStep isRest, ends⟩

def fresh (env : RxEnv) (links : SkbLinks) (packs dev : Nat → Nat) (trans : Nat → BitVec 16) :
    RxRun where
  rx :=
    { links := initHeads [env.backlog] links
      backlogSize := 0
      dropping := 0
      inBh := false
      packs := update packs 0 0
      dev := dev
      trans := trans
      control := .idle }
  registered := []
  arrived := []
  taken := []
  called := []

def Good (env : RxEnv) (s : RxRun) : Prop := ∃ queue rest, Holds env s queue rest

lemma Holds.delivers {event : RxEvent} {effect : RxEffect} (holds : Holds env t queue rest)
    (isStep : step env event s = some (effect, t))
    (drained : s.rx.inBh = true → t.rx.inBh = false → queue = []) :
    ∃ effect t, step env event s = some (effect, t) ∧ DeliversOnce env event s effect t ∧
      Good env t := by
  refine ⟨effect, t, isStep, ⟨holds.delivered, holds.finishes, ?_⟩, queue, rest, holds⟩
  intro set cleared
  rw [holds.arrived, drained set cleared, map_nil, append_nil]

lemma drained_of_kept (kept : s.rx.inBh = true → t.rx.inBh = true) :
    s.rx.inBh = true → t.rx.inBh = false → queue = [] :=
  fun set cleared => absurd ((kept set).symm.trans cleared) (by decide)

lemma good_step {event : RxEvent} (good : Good env s) (adm : Admits env event s) :
    ∃ effect t, step env event s = some (effect, t) ∧ DeliversOnce env event s effect t ∧
      Good env t := by
  obtain ⟨queue, rest, holds⟩ := good
  cases event with
  | rx skb dev type =>
    obtain ⟨t, isStep, same, holds'⟩ := holds.rx adm
    exact holds'.delivers isStep (drained_of_kept same.trans)
  | addPack pt =>
    obtain ⟨t, isStep, same, holds'⟩ := holds.addPack adm
    exact holds'.delivers isStep (drained_of_kept same.trans)
  | removePack fuel pt =>
    obtain ⟨t, isStep, same, holds'⟩ := holds.removePack adm
    exact holds'.delivers isStep (drained_of_kept same.trans)
  | netBh =>
    obtain ⟨t, isStep, isSet, holds'⟩ := holds.netBh adm
    exact holds'.delivers isStep (drained_of_kept fun _ => isSet)
  | proceed =>
    by_cases isIdle : s.rx.control = .idle
    · have isStep : s.rx.step env .proceed = some (.quiet, s.rx) := by
        simp only [NetRx.step, NetRx.proceed, isIdle]
      have same : Holds env ⟨s.rx, s.registered, s.arrived ++ [], s.taken, s.called⟩ queue
          rest := { holds with arrived := (append_nil _).trans holds.arrived }
      exact same.delivers (step_quiet isStep) (drained_of_kept id)
    · obtain ⟨effect, t, _, _, isStep, holds', -, drained⟩ := holds.advances isIdle
      exact holds'.delivers isStep drained

end RxRun

end PrettyOS.Net
