import Mathlib.Tactic.Common

/-!
Contract: `before` and `after` of `net/inet/tcp.h`, and the window test of `tcp_send_skb` of
`net/inet/tcp.c`.

The calls behind the test are reported as actions.

An `unsigned long` is a 32-bit word, and `write_queue` is the list of its buffers.
-/

namespace PrettyOS.Net.Tcp

def before (seq1 seq2 : BitVec 32) : Bool := seq1 - seq2 < 0

def after (seq1 seq2 : BitVec 32) : Bool := 0 < seq1 - seq2

inductive Timeout where
  | write
  | probe
  | other
  deriving DecidableEq

structure Sender where
  windowSeq : BitVec 32
  writeSeq : BitVec 32
  sentSeq : BitVec 32
  retransmits : Int
  ipXmitTimeout : Timeout
  packetsOut : BitVec 32
  congWindow : BitVec 16
  ackBacklog : BitVec 32
  sendHead : Nat
  writeQueue : List Nat
  hSeq : Nat → BitVec 32

structure Segment where
  skb : Nat
  len : BitVec 32
  /-- `(unsigned char *)th - skb->data` -/
  header : BitVec 32
  seq : BitVec 32
  thLen : BitVec 4
  linked : Bool

inductive SendAction where
  | bad
  | noData
  | unlink
  | queueXmit
  | resetXmitTimer (why : Timeout)
  deriving DecidableEq

def tcphdrSize : BitVec 32 := 20

def Segment.size (th : Segment) : BitVec 32 := th.len - th.header

/-- `skb->h.seq` as the code computes it, with `th->len >> 2`; the header has `th->len * 4`
bytes. -/
def Segment.endSeq (th : Segment) : BitVec 32 := th.seq + th.size - (th.thLen >>> 2).setWidth 32

def Sender.Stalled (sk : Sender) : Prop :=
  sk.retransmits ≠ 0 ∧ sk.ipXmitTimeout = .write ∨ sk.congWindow.setWidth 32 ≤ sk.packetsOut

instance (sk : Sender) : Decidable sk.Stalled := inferInstanceAs (Decidable (_ ∨ _))

def queueSegment (th : Segment) (sk : Sender) : List SendAction × Sender :=
  let queue := (if th.linked then sk.writeQueue.erase th.skb else sk.writeQueue) ++ [th.skb]
  let hSeq := Function.update sk.hSeq th.skb th.endSeq
  let probes := before sk.windowSeq (hSeq (queue.headD 0)) ∧ sk.sendHead = 0 ∧ sk.ackBacklog = 0
  ((if th.linked then [.unlink] else []) ++ (if probes then [.resetXmitTimer .probe] else []),
    { sk with
      writeQueue := queue
      hSeq := hSeq
      ipXmitTimeout := if probes then .probe else sk.ipXmitTimeout })

def transmitSegment (th : Segment) (sk : Sender) : List SendAction × Sender :=
  ([.queueXmit, .resetXmitTimer .write],
    { sk with
      hSeq := Function.update sk.hSeq th.skb th.endSeq
      sentSeq := sk.writeSeq
      ipXmitTimeout := .write })

def tcpSendSkb (th : Segment) (sk : Sender) : List SendAction × Sender :=
  if th.size < tcphdrSize ∨ th.len < th.size then ([.bad], sk)
  else if th.size = tcphdrSize then ([.noData], sk)
  else if after th.endSeq sk.windowSeq ∨ sk.Stalled then queueSegment th sk
  else transmitSegment th sk

def Cyclic (a d : BitVec 32) : Prop :=
  before a (a + d) ∧ after (a + d) a ∧ ¬ before (a + d) a ∧ ¬ after a (a + d) ∧
    ¬ before a a ∧ ¬ after a a

def Segment.WellFormed (th : Segment) : Prop := tcphdrSize < th.size ∧ th.size ≤ th.len

def Transmits (th : Segment) (sk : Sender) : Prop := .queueXmit ∈ (tcpSendSkb th sk).1

def Queues (th : Segment) (sk : Sender) : Prop :=
  (tcpSendSkb th sk).2.writeQueue.getLast? = some th.skb ∧ ¬ Transmits th sk

def KeepsToWindow (th : Segment) (sk : Sender) : Prop :=
  ∀ d : BitVec 32, d < 0x80000000 → (th.endSeq + d = sk.windowSeq → Transmits th sk) ∧
    (0 < d → th.endSeq = sk.windowSeq + d → Queues th sk)

variable {a b : BitVec 32} {th : Segment} {sk : Sender}

lemma before_eq_false : before a b = false := decide_eq_false BitVec.not_lt_zero

lemma after_eq_true_iff : after a b = true ↔ a ≠ b := by
  rw [after, decide_eq_true_iff]
  constructor
  · rintro pos rfl
    bv_omega
  · intro ne
    bv_omega

section

variable (formed : th.WellFormed) (ready : ¬ sk.Stalled)
include formed ready

lemma tcpSendSkb_eq : tcpSendSkb th sk =
      if th.endSeq = sk.windowSeq then transmitSegment th sk else queueSegment th sk := by
  obtain ⟨data, within⟩ := formed
  rw [tcpSendSkb, if_neg (by bv_omega), if_neg (by bv_omega)]
  by_cases same : th.endSeq = sk.windowSeq
  · rw [if_pos same, if_neg (not_or.mpr ⟨fun isAfter => after_eq_true_iff.mp isAfter same, ready⟩)]
  · rw [if_neg same, if_pos (Or.inl (after_eq_true_iff.mpr same))]

lemma transmits_iff : Transmits th sk ↔ th.endSeq = sk.windowSeq := by
  rw [Transmits, tcpSendSkb_eq formed ready]
  by_cases same : th.endSeq = sk.windowSeq
  · rw [if_pos same]
    exact iff_of_true List.mem_cons_self same
  refine iff_of_false ?_ same
  rw [if_neg same, queueSegment]
  dsimp only
  split_ifs <;> decide

lemma queues_iff : Queues th sk ↔ th.endSeq ≠ sk.windowSeq := by
  rw [Queues, transmits_iff formed ready, and_iff_right_of_imp]
  intro apart
  rw [tcpSendSkb_eq formed ready, if_neg apart]
  exact List.getLast?_concat

end

/-- At no distance are the comparisons those of a cyclic order: an unsigned difference is never
negative, and positive whenever the numbers are not the same. So the sender transmits exactly a
segment that ends at the window, and it keeps to the window unless the segment ends before it. -/
theorem tcp_comparisons_not_cyclic (a d : BitVec 32) (th : Segment) (sk : Sender) (pos : 0 < d)
    (formed : th.WellFormed) (ready : ¬ sk.Stalled) :
    (¬ Cyclic a d ∧ before a (a + d) = false ∧ after (a + d) a = true ∧
      before (a + d) a = false ∧ after a (a + d) = true ∧ before a a = false ∧
      after a a = false) ∧
    (Transmits th sk ↔ th.endSeq = sk.windowSeq) ∧ (Queues th sk ↔ th.endSeq ≠ sk.windowSeq) ∧
    (KeepsToWindow th sk ↔
      ¬ (0 < sk.windowSeq - th.endSeq ∧ sk.windowSeq - th.endSeq < 0x80000000)) := by
  have sent := transmits_iff formed ready
  have queued := queues_iff formed ready
  refine ⟨?_, sent, queued, ?_⟩
  · have apart : a ≠ a + d := by bv_omega
    have never : ¬ Cyclic a d := by
      intro cyclic
      rw [Cyclic, before_eq_false] at cyclic
      exact Bool.noConfusion cyclic.1
    have equal : after a a = false := Bool.eq_false_iff.mpr fun isAfter =>
      after_eq_true_iff.mp isAfter rfl
    exact ⟨never, before_eq_false, after_eq_true_iff.mpr apart.symm, before_eq_false,
      after_eq_true_iff.mpr apart, before_eq_false, equal⟩
  constructor
  · rintro keeps ⟨behind, near⟩
    have reached := sent.mp ((keeps _ near).1 (by bv_omega))
    bv_omega
  intro far d near
  constructor
  · intro reaches
    rw [sent]
    by_contra apart
    exact far ⟨by bv_omega, by bv_omega⟩
  · intro ahead beyond
    rw [queued]
    bv_omega

def openSender : Sender := ⟨1000, 0, 0, 0, .other, 0, 1, 0, 0, [], fun _ => 0⟩

/-- A segment of ten bytes behind its header that ends one before the window. -/
def earlySegment : Segment := ⟨7, 30, 0, 969, 0, false⟩

theorem tcp_comparisons_not_cyclic_early : ¬ Cyclic 0 1 :=
  (tcp_comparisons_not_cyclic 0 1 earlySegment openSender (by decide) ⟨by decide, by decide⟩
    (by decide)).1.1

theorem earlySegment_queued :
    before 0 1 = false ∧ earlySegment.endSeq + 1 = openSender.windowSeq ∧
      (tcpSendSkb earlySegment openSender).1 = [] ∧
      (tcpSendSkb earlySegment openSender).2.writeQueue = [7] := by
  decide

end PrettyOS.Net.Tcp
