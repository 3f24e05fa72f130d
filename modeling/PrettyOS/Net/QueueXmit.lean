import PrettyOS.Library.IndexChain
import PrettyOS.Net.Defrag
import PrettyOS.Net.Device
import PrettyOS.Net.SkbQueue

/-!
Contract: `ip_queue_xmit` of `net/inet/ip.c` and the chain of unacknowledged packets that
`tcp_do_retransmit` of `net/inet/tcp.c` follows.

The links of the device queues are given with every call as `dev_queue_xmit` leaves them.
-/

namespace PrettyOS.Net

open Library.IndexChain (Linked)
open List Function Nat

structure TcpSend where
  sendHead : Nat
  sendTail : Nat
  packetsOut : BitVec 32
  congWindow : BitVec 16
  retransmits : BitVec 32
  ipIdCount : BitVec 32
  dev : Nat → NetDevice
  len : Nat → BitVec 32
  free : Nat → BitVec 8
  cacheNext : Nat → Nat
  links : SkbLinks
  totLen : Nat → BitVec 16
  id : Nat → BitVec 16

namespace TcpSend

def nextId (skb : Nat) (s : TcpSend) : TcpSend :=
  { s with
    id := update s.id skb (htons (s.ipIdCount.setWidth 16))
    ipIdCount := s.ipIdCount + 1 }

def remember (skb : Nat) (s : TcpSend) : TcpSend :=
  let cacheNext :=
    if s.cacheNext skb ≠ 0 then update s.cacheNext skb 0 else s.cacheNext
  if s.sendHead = 0 then
    { s with packetsOut := s.packetsOut + 1, cacheNext := cacheNext, sendHead := skb,
             sendTail := skb }
  else
    { s with packetsOut := s.packetsOut + 1,
             cacheNext := update cacheNext s.sendHead skb, sendTail := skb }

def ipQueueXmit (dev : NetDevice) (skb : Nat) (free : BitVec 32) (sent : SkbLinks) (s : TcpSend) :
    TcpSend :=
  let s := { s with
    dev := update s.dev skb dev
    totLen := update s.totLen skb
      (ntohs ((s.len skb - dev.hardHeaderLen.setWidth 32).setWidth 16)) }
  let s := if free ≠ 2 then s.nextId skb else s
  let free := if free ≠ 2 then free else 1
  let s := { s with free := update s.free skb (free.setWidth 8) }
  -- the packet is left to `ip_fragment`
  if (s.len skb).toNat > dev.mtu.toNat + dev.hardHeaderLen.toNat then s
  else
    let s := if s.links.next skb ≠ 0 then { s with links := skbUnlink skb s.links } else s
    let s := if free = 0 then s.remember skb else s
    if dev.flags &&& iffUp ≠ 0 then { s with links := sent } else s

def resend (skb : Nat) (sent : SkbLinks) (s : TcpSend) : TcpSend :=
  let s := s.nextId skb
  let s := if (s.dev skb).flags &&& iffUp ≠ 0 then { s with links := sent } else s
  { s with retransmits := s.retransmits + 1 }

def retransmitLoop (all : Bool) (sent : Nat → SkbLinks) :
    Nat → Nat → Nat → TcpSend → Option (List Nat × TcpSend)
  | 0, _, _, _ => none
  | fuel + 1, ct, skb, s =>
      if skb ≠ 0 then
        let s := s.resend skb (sent ct)
        if all = false then some ([skb], s)
        else if ct + 1 > s.congWindow.toNat then some ([skb], s)
        else
          (retransmitLoop all sent fuel (ct + 1) (s.cacheNext skb) s).map fun done =>
            (skb :: done.1, done.2)
      else some ([], s)

def tcpDoRetransmit (fuel : Nat) (all : Bool) (sent : Nat → SkbLinks) (s : TcpSend) :
    Option (List Nat × TcpSend) :=
  retransmitLoop all sent fuel 0 s.sendHead s

structure Xmit where
  dev : NetDevice
  skb : Nat
  sent : SkbLinks

def xmitAll (calls : List Xmit) (s : TcpSend) : TcpSend :=
  calls.foldl (fun s call => s.ipQueueXmit call.dev call.skb 0 call.sent) s

structure Retains (before after : TcpSend) (packets : List Nat) : Prop where
  chain : Linked after.cacheNext 0 after.sendHead packets
  tail : after.sendTail = packets.getLastD 0
  counted : after.packetsOut = before.packetsOut + BitVec.ofNat 32 packets.length
  resent : packets.length ≤ after.congWindow.toNat + 1 → ∀ sent,
    ∃ t, after.tcpDoRetransmit (packets.length + 1) true sent = some (packets, t)

variable {before s t : TcpSend} {packets : List Nat} {skb : Nat} {call : Xmit} {calls : List Xmit}

structure Sent (before s : TcpSend) (packets : List Nat) : Prop where
  sameLen : s.len = before.len
  counted : s.packetsOut = before.packetsOut + BitVec.ofNat 32 packets.length
  head : s.sendHead = packets.headD 0
  tail : s.sendTail = packets.getLastD 0
  first : ∀ skb ∈ packets.head?, s.cacheNext skb = packets.tail.getLastD 0
  others : ∀ skb ∈ packets.tail, s.cacheNext skb = 0

lemma ipQueueXmit_eq {dev : NetDevice} {sent : SkbLinks}
    (fits : (s.len skb).toNat ≤ dev.mtu.toNat + dev.hardHeaderLen.toNat) :
    ∃ (s' : TcpSend) (links : SkbLinks),
      s.ipQueueXmit dev skb 0 sent = { s'.remember skb with links := links } ∧
      s'.sendHead = s.sendHead ∧ s'.sendTail = s.sendTail ∧ s'.packetsOut = s.packetsOut ∧
      s'.cacheNext = s.cacheNext ∧ s'.len = s.len := by
  have notTwo : (0 : BitVec 32) ≠ 2 := by decide
  unfold ipQueueXmit
  dsimp only
  rw [if_pos notTwo, if_pos notTwo, if_neg (by exact not_lt.mpr fits), if_pos rfl]
  split_ifs with isUp isLinked
  · exact ⟨_, sent, rfl, rfl, rfl, rfl, rfl, rfl⟩
  · exact ⟨_, sent, rfl, rfl, rfl, rfl, rfl, rfl⟩
  · exact ⟨_, _, rfl, rfl, rfl, rfl, rfl, rfl⟩
  · exact ⟨_, _, rfl, rfl, rfl, rfl, rfl, rfl⟩

lemma remember_nil (isEmpty : s.sendHead = 0) :
    (s.remember skb).sendHead = skb ∧ (s.remember skb).sendTail = skb ∧
      (s.remember skb).cacheNext skb = 0 := by
  unfold remember
  dsimp only
  rw [if_pos isEmpty]
  refine ⟨rfl, rfl, ?_⟩
  dsimp only
  split_ifs with isLinked
  · exact update_self _ _ _
  · exact not_not.mp isLinked

lemma remember_cons (notEmpty : s.sendHead ≠ 0) :
    (s.remember skb).sendHead = s.sendHead ∧ (s.remember skb).sendTail = skb ∧
      (s.remember skb).cacheNext s.sendHead = skb ∧
      (skb ≠ s.sendHead → (s.remember skb).cacheNext skb = 0) ∧
      ∀ other, other ≠ s.sendHead → other ≠ skb →
        (s.remember skb).cacheNext other = s.cacheNext other := by
  unfold remember
  dsimp only
  rw [if_neg notEmpty]
  refine ⟨rfl, rfl, update_self _ _ _, ?_, ?_⟩
  · intro notHead
    dsimp only
    rw [update_of_ne notHead]
    split_ifs with isLinked
    · exact update_self _ _ _
    · exact not_not.mp isLinked
  intro other notHead isOther
  dsimp only
  rw [update_of_ne notHead]
  split_ifs with isLinked
  · exact update_of_ne isOther _ _
  · rfl

lemma remember_counted : (s.remember skb).packetsOut = s.packetsOut + 1 := by
  unfold remember
  split_ifs <;> rfl

lemma remember_len : (s.remember skb).len = s.len := by
  unfold remember
  split_ifs <;> rfl

lemma Sent.remember (sent : Sent before s packets) (notNulls : ∀ other ∈ packets, other ≠ 0)
    (nodup : packets.Nodup) (fresh : skb ∉ packets) :
    Sent before (s.remember skb) (packets ++ [skb]) := by
  have cnt : (s.remember skb).packetsOut =
      before.packetsOut + BitVec.ofNat 32 (packets ++ [skb]).length := by
    rw [remember_counted, sent.counted, length_append, length_singleton,
      BitVec.ofNat_add, BitVec.add_assoc]
    rfl
  cases packets with
  | nil =>
    obtain ⟨head, tail, next⟩ := @remember_nil s skb sent.head
    refine ⟨remember_len.trans sent.sameLen, cnt, head, tail, ?_, ?_⟩
    · intro other isFirst
      cases isFirst
      exact next
    · intro other mem
      cases mem
  | cons first rest =>
    have isHead : s.sendHead = first := sent.head
    have notEmpty := isHead ▸ notNulls first mem_cons_self
    obtain ⟨head, tail, headNext, newNext, otherNext⟩ := @remember_cons s skb notEmpty
    rw [isHead] at head headNext newNext otherNext
    rw [mem_cons, not_or] at fresh
    refine ⟨remember_len.trans sent.sameLen, cnt, head, ?_, ?_, ?_⟩
    · rw [tail, getLastD_concat]
    · intro other isFirst
      cases isFirst
      rw [headNext]
      exact getLastD_concat.symm
    intro other mem
    rw [cons_append, tail_cons, mem_append, mem_singleton] at mem
    rcases mem with inRest | rfl
    · have notFirst := ne_of_mem_of_not_mem inRest (nodup_cons.mp nodup).1
      rw [otherNext other notFirst (ne_of_mem_of_not_mem inRest fresh.2)]
      exact sent.others other inRest
    · exact newNext fresh.1

lemma Sent.xmit (sent : Sent before s packets)
    (fits : (before.len call.skb).toNat ≤ call.dev.mtu.toNat + call.dev.hardHeaderLen.toNat)
    (notNulls : ∀ other ∈ packets, other ≠ 0) (nodup : packets.Nodup) (fresh : call.skb ∉ packets) :
    Sent before (s.ipQueueXmit call.dev call.skb 0 call.sent) (packets ++ [call.skb]) := by
  rw [← sent.sameLen] at fits
  obtain ⟨s', _, isXmit, sameHead, sameTail, sameOut, eqNext, sameLen⟩ :=
    @ipQueueXmit_eq _ _ _ call.sent fits
  have sent' : Sent before s' packets := by
    refine ⟨sameLen.trans sent.sameLen, sameOut.trans sent.counted, sameHead.trans sent.head,
      sameTail.trans sent.tail, ?_, ?_⟩
    · rw [eqNext]
      exact sent.first
    · rw [eqNext]
      exact sent.others
  have remembered := sent'.remember notNulls nodup fresh
  rw [isXmit]
  exact ⟨remembered.sameLen, remembered.counted, remembered.head, remembered.tail,
    remembered.first, remembered.others⟩

structure Admitted (s : TcpSend) (calls : List Xmit) : Prop where
  distinct : (calls.map Xmit.skb).Nodup
  notNull : ∀ call ∈ calls, call.skb ≠ 0
  fits : ∀ call ∈ calls, (s.len call.skb).toNat ≤ call.dev.mtu.toNat + call.dev.hardHeaderLen.toNat

lemma sent_xmitAll (isEmpty : s.sendHead = 0) (noTail : s.sendTail = 0)
    (adm : Admitted s calls) : Sent s (xmitAll calls s) (calls.map Xmit.skb) := by
  -- by induction at the end of the run, where a call is made in the state that the others left
  induction calls using List.reverseRecOn with
  | nil =>
    exact ⟨rfl, (BitVec.add_zero _).symm, isEmpty, noTail,
      fun _ first => absurd first (by simp), fun _ mem => absurd mem not_mem_nil⟩
  | append_singleton calls call ih =>
    obtain ⟨ne, ne0, fits⟩ := adm
    rw [map_append, nodup_append] at ne
    have old := ih ⟨ne.1, fun other mem => ne0 other (mem_append_left _ mem),
      fun other mem => fits other (mem_append_left _ mem)⟩
    have isLast : call ∈ calls ++ [call] := mem_append_right _ mem_cons_self
    rw [xmitAll, foldl_concat, map_append]
    apply old.xmit (fits call isLast) _ ne.1
    · intro again
      exact ne.2.2 _ again _ mem_cons_self rfl
    intro other mem
    obtain ⟨earlierCall, isEarlier, rfl⟩ := mem_map.mp mem
    exact ne0 earlierCall (mem_append_left _ isEarlier)

lemma Sent.chain {first second : Nat} {rest : List Nat}
    (sent : Sent before s (first :: second :: rest)) :
    Linked s.cacheNext 0 s.sendHead [first, rest.getLastD second] := by
  refine ⟨sent.head, ?_, sent.others _ getLastD_mem_cons⟩
  rw [sent.first first rfl, tail_cons, getLastD_cons]

lemma Sent.chain_of_short (sent : Sent before s packets) (short : packets.length ≤ 2) :
    Linked s.cacheNext 0 s.sendHead packets := by
  match packets, sent, short with
  | [], sent, _ => exact sent.head
  | [first], sent, _ => exact ⟨sent.head, sent.first first rfl⟩
  | [_, _], sent, _ => exact sent.chain

lemma resend_frame {sent : SkbLinks} : (s.resend skb sent).cacheNext = s.cacheNext ∧
    (s.resend skb sent).congWindow = s.congWindow := by
  unfold resend
  dsimp only
  split_ifs <;> exact ⟨rfl, rfl⟩

lemma retransmitLoop_eq {sent : Nat → SkbLinks} {ct fuel : Nat}
    (chain : Linked s.cacheNext 0 skb packets) (notNulls : ∀ other ∈ packets, other ≠ 0)
    (opened : ct + packets.length ≤ s.congWindow.toNat + 1) (enough : packets.length < fuel) :
    ∃ t, retransmitLoop true sent fuel ct skb s = some (packets, t) := by
  induction packets generalizing s skb ct fuel with
  | nil =>
    obtain ⟨fuel, rfl⟩ := exists_eq_succ_of_ne_zero (ne_of_gt enough)
    have isNull : skb = 0 := chain
    exact ⟨s, if_neg (not_not.mpr isNull)⟩
  | cons first rest ih =>
    obtain ⟨fuel, rfl⟩ := exists_eq_succ_of_ne_zero (ne_zero_of_lt enough)
    obtain ⟨rfl, chainRest⟩ := chain
    obtain ⟨eqNext, sameWindow⟩ := @resend_frame s skb (sent ct)
    rw [retransmitLoop, if_pos (notNulls skb mem_cons_self)]
    dsimp only
    rw [if_neg (by decide), eqNext, sameWindow]
    rw [length_cons] at opened
    split_ifs with closed
    · -- the window closes behind the last packet at the earliest
      have isLast : rest = [] := length_eq_zero_iff.mp (by omega)
      rw [isLast]
      exact ⟨_, rfl⟩
    rw [← eqNext] at chainRest
    rw [← sameWindow] at opened
    obtain ⟨t, isLoop⟩ := ih chainRest
      (fun other mem => notNulls other (mem_cons_of_mem _ mem))
      (show ct + 1 + rest.length ≤ _ by omega) (lt_of_succ_lt_succ enough)
    rw [eqNext] at isLoop
    rw [isLoop]
    exact ⟨t, rfl⟩

/-- After any number of calls the chain keeps the packets exactly if there were at most two. -/
theorem xmitAll_retains_iff (isEmpty : s.sendHead = 0) (noTail : s.sendTail = 0)
    (admitted : Admitted s calls) :
    Retains s (xmitAll calls s) (calls.map Xmit.skb) ↔ calls.length ≤ 2 := by
  have sent := sent_xmitAll isEmpty noTail admitted
  have notNulls : ∀ skb ∈ calls.map Xmit.skb, skb ≠ 0 := by
    intro skb member
    obtain ⟨call, isCall, rfl⟩ := mem_map.mp member
    exact admitted.notNull call isCall
  rw [← @length_map _ _ calls Xmit.skb]
  generalize calls.map Xmit.skb = packets at sent notNulls ⊢
  constructor
  · intro retains
    match packets, sent, notNulls, retains with
    | [], _, _, _ => exact zero_le 2
    | [_], _, _, _ => exact le_succ 1
    | first :: second :: rest, sent, notNulls, retains =>
      have noNull : 0 ∉ [first, rest.getLastD second] := by
        rw [mem_pair, not_or]
        exact ⟨(notNulls first mem_cons_self).symm,
          (notNulls _ (mem_cons_of_mem _ getLastD_mem_cons)).symm⟩
      have isPair := sent.chain.unique retains.chain noNull
        (fun member => notNulls 0 member rfl)
      rw [← isPair]
      exact le_rfl
  · intro short
    have chain := sent.chain_of_short short
    exact ⟨chain, sent.tail, sent.counted, fun opened links =>
      retransmitLoop_eq chain notNulls (by omega) (lt_succ_self _)⟩

def idle : TcpSend :=
  ⟨0, 0, 0, 8, 0, 0, fun _ => ⟨1500, 6, 1, 0, 0, 14, iffUp, fun _ => 0, fun _ => 0⟩, fun _ => 0,
    fun _ => 0, fun _ => 0, ⟨fun _ => 0, fun _ => 0⟩, fun _ => 0, fun _ => 0⟩

def ethernetXmit (skb : Nat) : Xmit := ⟨idle.dev skb, skb, idle.links⟩

/-- Two packets are kept. -/
theorem xmitAll_retains_iff_two :
    Admitted idle [ethernetXmit 1, ethernetXmit 2] ∧
      Retains idle (xmitAll [ethernetXmit 1, ethernetXmit 2] idle) [1, 2] := by
  have admitted : Admitted idle [ethernetXmit 1, ethernetXmit 2] :=
    ⟨by decide, by decide, by decide⟩
  exact ⟨admitted, (xmitAll_retains_iff rfl rfl admitted).mpr (by decide)⟩

/-- Of three packets the second one is lost: the chain goes from the first to the third, and
`tcp_do_retransmit` does not send the second one again. -/
theorem not_retains_three :
    let after := xmitAll [ethernetXmit 1, ethernetXmit 2, ethernetXmit 3] idle
    Linked after.cacheNext 0 after.sendHead [1, 3] ∧ after.packetsOut = 3 ∧
      (∃ t, after.tcpDoRetransmit 4 true (fun _ => idle.links) = some ([1, 3], t)) ∧
      ¬ Retains idle after [1, 2, 3] := by
  refine ⟨⟨rfl, rfl, rfl⟩, rfl, ⟨_, rfl⟩, ?_⟩
  intro retains
  exact absurd retains.chain.2.1 (by decide)

end TcpSend

end PrettyOS.Net
