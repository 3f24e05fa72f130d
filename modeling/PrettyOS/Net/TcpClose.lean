import PrettyOS.Library.Runs
import Mathlib.Data.List.Count

/-!
Contract: closing a TCP socket, `tcp_close` and `tcp_shutdown` of `net/inet/tcp.c`.

The calls that the functions make are reported as actions; none of them changes the state of
the socket.

A `struct sk_buff *` is a number, with `0` for the null pointer.
-/

namespace PrettyOS.Net

open Library List

inductive TcpState where
  | established
  | synSent
  | synRecv
  | finWait1
  | finWait2
  | timeWait
  | close
  | closeWait
  | lastAck
  | listen
  | closing
  deriving DecidableEq

def sendShutdown : BitVec 16 := 0x02

def shutdownMask : BitVec 16 := 0x03

structure Sock where
  state : TcpState
  shutdown : BitVec 16
  dead : Bool
  partialSkb : Nat

inductive TcpAction where
  | stateChange
  | sendSkb (skb : Nat)
  | closePending
  | finTimer
  | sendFin
  deriving DecidableEq

def tcpSendPartial (sk : Sock) : List TcpAction × Sock :=
  if sk.partialSkb ≠ 0 then ([.sendSkb 1], { sk with partialSkb := 0 }) else ([], sk)

def closeTransition : TcpState → TcpState × Bool
  | .synSent => (.close, false)
  -- these two set `ns` to `TCP_FIN_WAIT1` and fall through to `ns = sk->state`
  | .synRecv => (.synRecv, true)
  | .established => (.established, true)
  | .finWait1 => (.finWait1, false)
  | .finWait2 => (.finWait2, false)
  | .closing => (.closing, false)
  | .close => (.close, false)
  | .listen => (.close, false)
  | .closeWait => (.lastAck, true)
  -- no case for these
  | .timeWait => (.close, false)
  | .lastAck => (.close, false)

def tcpCloseState (dead : Bool) (sk : Sock) : Bool × List TcpAction × Sock :=
  let (ns, sendFin) := closeTransition sk.state
  (sendFin, if dead = true ∧ ns = .finWait2 then [.finTimer] else [], { sk with state := ns })

def tcpShutdown (now : BitVec 32) (sk : Sock) : List TcpAction × Sock :=
  if now &&& sendShutdown.setWidth 32 = 0 then ([], sk)
  else if sk.state ≠ .finWait1 ∨ sk.state ≠ .finWait2 ∨ sk.state ≠ .closing ∨
      sk.state ≠ .lastAck ∨ sk.state ≠ .timeWait ∨ sk.state ≠ .close ∨ sk.state ≠ .listen then
    ([], sk)
  else
    let sk := { sk with shutdown := sk.shutdown ||| sendShutdown }
    let (sent, sk) := if sk.partialSkb ≠ 0 then tcpSendPartial sk else ([], sk)
    let (fin, timers, sk) := tcpCloseState false sk
    (sent ++ timers ++ if fin then [.sendFin] else [], sk)

def tcpClose (timeout : Int) (sk : Sock) : List TcpAction × Sock :=
  if sk.state = .listen then ([.closePending], { sk with state := .close })
  else
    let sk := { sk with shutdown := sk.shutdown &&& shutdownMask }
    let changed := if sk.dead then [] else [TcpAction.stateChange]
    let (sent, sk) :=
      if timeout = 0 ∧ sk.partialSkb ≠ 0 then tcpSendPartial sk else ([], sk)
    if timeout ≠ 0 then (changed ++ sent, { sk with state := .close })
    else
      let (fin, timers, sk) := tcpCloseState true sk
      (changed ++ sent ++ timers ++ if fin then [.sendFin] else [], sk)

lemma tcpShutdown_eq (now : BitVec 32) (sk : Sock) : tcpShutdown now sk = ([], sk) := by
  have differs : sk.state ≠ .finWait1 ∨ sk.state ≠ .finWait2 := by
    by_cases same : sk.state = .finWait1
    · exact .inr (by rw [same]; decide)
    · exact .inl same
  unfold tcpShutdown
  split
  · rfl
  rw [if_pos]
  rcases differs with first | second
  · exact .inl first
  · exact .inr (.inl second)

section Close

variable {sk : Sock}

lemma tcpSendPartial_state : (tcpSendPartial sk).2.state = sk.state := by
  unfold tcpSendPartial
  split <;> rfl

lemma count_tcpSendPartial : (tcpSendPartial sk).1.count .sendFin = 0 := by
  unfold tcpSendPartial
  split <;> rfl

lemma count_tcpCloseState {dead : Bool} : (tcpCloseState dead sk).2.1.count .sendFin = 0 := by
  simp only [tcpCloseState]
  split <;> rfl

section

variable (notListening : sk.state ≠ .listen)
include notListening

lemma tcpClose_zero :
    let sent := tcpSendPartial { sk with shutdown := sk.shutdown &&& shutdownMask }
    let closed := tcpCloseState true sent.2
    tcpClose 0 sk = ((if sk.dead then [] else [.stateChange]) ++ sent.1 ++ closed.2.1 ++
      (if closed.1 then [.sendFin] else []), closed.2.2) := by
  by_cases empty : sk.partialSkb = 0
  · simp only [tcpClose, notListening, tcpSendPartial, empty, ne_eq, not_true_eq_false, and_false,
      if_false]
  · simp only [tcpClose, notListening, tcpSendPartial, empty, ne_eq, not_true_eq_false,
      not_false_eq_true, and_self, if_false, if_true]

lemma tcpClose_state : (tcpClose 0 sk).2.state = (closeTransition sk.state).1 := by
  rw [tcpClose_zero notListening]
  simp only [tcpCloseState, tcpSendPartial_state]

lemma count_tcpClose :
    (tcpClose 0 sk).1.count .sendFin = if (closeTransition sk.state).2 then 1 else 0 := by
  have changed : (if sk.dead then [] else [TcpAction.stateChange]).count .sendFin = 0 := by
    split <;> rfl
  rw [tcpClose_zero notListening]
  simp only [count_append, changed, count_tcpSendPartial, count_tcpCloseState, Nat.zero_add]
  simp only [tcpCloseState, tcpSendPartial_state]
  split <;> rfl

end

end Close

inductive TcpCall where
  | close
  | shutdown (how : BitVec 32)
  deriving DecidableEq

def TcpCall.run : TcpCall → Sock → List TcpAction × Sock
  | close, sk => tcpClose 0 sk
  | shutdown how, sk => tcpShutdown how sk

structure TcpRun where
  sk : Sock
  fins : Nat

namespace TcpRun

def step (call : TcpCall) (s : TcpRun) : Option (List TcpAction × TcpRun) :=
  let (actions, sk) := call.run s.sk
  some (actions, ⟨sk, s.fins + actions.count .sendFin⟩)

def OneFin (_ : TcpCall) (_ : TcpRun) (actions : List TcpAction) (t : TcpRun) : Prop :=
  t.fins ≤ 1 ∧ (.sendFin ∈ actions → t.sk.state = .finWait1 ∨ t.sk.state = .lastAck)

def Connected (state : TcpState) : Prop := state = .synRecv ∨ state = .established

structure Good (s : TcpRun) : Prop where
  notListening : s.sk.state ≠ .listen
  sent : s.fins = 0 ∨ s.fins = 1 ∧ (s.sk.state = .lastAck ∨ s.sk.state = .close)

variable {call : TcpCall} {calls : List TcpCall} {s : TcpRun}

lemma step_shutdown (how : BitVec 32) (s : TcpRun) : step (.shutdown how) s = some ([], s) := by
  simp only [step, TcpCall.run, tcpShutdown_eq, count_nil, Nat.add_zero]

lemma mem_tcpClose_iff (good : s.Good) :
    .sendFin ∈ (tcpClose 0 s.sk).1 ↔ (closeTransition s.sk.state).2 = true := by
  rw [← count_pos_iff, count_tcpClose good.notListening]
  split <;> simp_all

lemma oneFin_close_iff (good : s.Good) : OneFin .close s (tcpClose 0 s.sk).1
    ⟨(tcpClose 0 s.sk).2, s.fins + (tcpClose 0 s.sk).1.count .sendFin⟩ ↔
      ¬ Connected s.sk.state := by
  have sent := good.sent
  have notListening := good.notListening
  unfold OneFin
  rw [mem_tcpClose_iff good, count_tcpClose notListening, tcpClose_state notListening]
  unfold Connected
  cases isState : s.sk.state <;> simp_all [closeTransition] <;> omega

lemma not_connected_closeTransition {state : TcpState} (notConnected : ¬ Connected state) :
    ¬ Connected (closeTransition state).1 := by
  unfold Connected at notConnected ⊢
  cases state <;> simp_all [closeTransition]

lemma good_close (good : s.Good) (notConnected : ¬ Connected s.sk.state) :
    Good ⟨(tcpClose 0 s.sk).2, s.fins + (tcpClose 0 s.sk).1.count .sendFin⟩ := by
  have sent := good.sent
  have notListening := good.notListening
  unfold Connected at notConnected
  refine ⟨?_, ?_⟩
  · rw [tcpClose_state notListening]
    cases isState : s.sk.state <;> simp_all [closeTransition]
  · rw [tcpClose_state notListening, count_tcpClose notListening]
    cases isState : s.sk.state <;> simp_all [closeTransition]

lemma atEach_not_connected_iff (good : s.Good) :
    AtEach step (fun call s => call = .close → ¬ Connected s.sk.state) calls s ↔
      (Connected s.sk.state → .close ∉ calls) := by
  induction calls generalizing s with
  | nil => exact iff_of_true trivial fun _ => not_mem_nil
  | cons call rest ih =>
    cases call with
    | close =>
      constructor
      · intro holds connected
        exact absurd connected (holds.1 rfl)
      intro holds
      have notConnected : ¬ Connected s.sk.state :=
        fun connected => holds connected mem_cons_self
      refine atEach_extend rfl (fun _ => notConnected) ?_
      refine (ih (good_close good notConnected)).mpr fun connected => ?_
      have still := connected
      rw [tcpClose_state good.notListening] at still
      exact absurd still (not_connected_closeTransition notConnected)
    | shutdown how =>
      constructor
      · intro holds connected listed
        rcases mem_cons.mp listed with isCall | later
        · exact nomatch isCall
        · have others := holds.2 [] s (step_shutdown how s)
          exact (ih good).mp others connected later
      · intro holds
        refine atEach_extend (step_shutdown how s) (fun isClose => nomatch isClose) ?_
        refine (ih good).mpr fun connected later => ?_
        exact holds connected (mem_cons_of_mem _ later)

/-- A run of `tcp_close` and `tcp_shutdown` sends at most one FIN and waits for its acknowledgement
exactly when the socket was not connected, or is never closed. -/
theorem close_run_one_fin_iff (sk : Sock) (notListening : sk.state ≠ .listen)
    (calls : List TcpCall) :
    ReturnsEach step OneFin calls ⟨sk, 0⟩ ↔ (Connected sk.state → .close ∉ calls) := by
  have start : Good ⟨sk, 0⟩ := ⟨notListening, .inl rfl⟩
  rw [← atEach_not_connected_iff start]
  apply returnsEach_iff_atEach _ _ start
  · intro call s good
    cases call with
    | close =>
      constructor
      · rintro ⟨actions, t, isStep, oneFin⟩ -
        cases isStep
        exact (oneFin_close_iff good).mp oneFin
      · intro holds
        exact ⟨_, _, rfl, (oneFin_close_iff good).mpr (holds rfl)⟩
    | shutdown how =>
      refine iff_of_true ⟨[], s, step_shutdown how s, ?_, nofun⟩ nofun
      rcases good.sent with none | ⟨_, -⟩
      · omega
      · omega
  · intro call s actions t good isStep holds
    cases call with
    | close =>
      cases isStep
      exact good_close good (holds rfl)
    | shutdown how =>
      cases isStep.symm.trans (step_shutdown how s)
      exact good

/-- A socket whose other end has closed sends its FIN once. -/
theorem close_run_one_fin_closeWait :
    ReturnsEach step OneFin [.close, .shutdown 2, .close] ⟨⟨.closeWait, 0, false, 0⟩, 0⟩ :=
  (close_run_one_fin_iff _ (by decide) _).mpr fun connected => by
    rcases connected with isState | isState <;> cases isState

/-- An established socket that is closed twice sends two FINs and stays established. -/
theorem established_close_twice :
    runSteps step [.close, .close] ⟨⟨.established, 0, true, 0⟩, 0⟩ =
        some ([[.sendFin], [.sendFin]], ⟨⟨.established, 0, true, 0⟩, 2⟩) ∧
      ¬ ReturnsEach step OneFin [.close, .close] ⟨⟨.established, 0, true, 0⟩, 0⟩ := by
  refine ⟨rfl, ?_⟩
  rintro ⟨_, t, isStep, oneFin, -⟩
  cases isStep
  rcases oneFin.2 (mem_singleton.mpr rfl) with isState | isState <;> cases isState

/-- A connected socket never starts its active close: whatever calls of `tcp_close` and
`tcp_shutdown` are made, it stays in its state, and every `tcp_close` calls `tcp_send_fin`. -/
theorem connected_close_repeats (connected : Connected s.sk.state) (calls : List TcpCall) :
    ∃ results last, runSteps step calls s = some (results, last) ∧
      last.sk.state = s.sk.state ∧ last.fins = s.fins + calls.count .close := by
  induction calls generalizing s with
  | nil => exact ⟨[], s, rfl, rfl, rfl⟩
  | cons call rest ih =>
    cases call with
    | shutdown how =>
      obtain ⟨results, last, ran, facts⟩ := ih connected
      exact ⟨_, last, runSteps_extend (step_shutdown how s) ran, by simpa using facts⟩
    | close =>
      have kept : closeTransition s.sk.state = (s.sk.state, true) ∧ s.sk.state ≠ .listen := by
        rcases connected with isState | isState <;> simp [isState, closeTransition]
      have same : (tcpClose 0 s.sk).2.state = s.sk.state := by rw [tcpClose_state kept.2, kept.1]
      have once : (tcpClose 0 s.sk).1.count .sendFin = 1 := by
        rw [count_tcpClose kept.2, kept.1, if_pos rfl]
      obtain ⟨results, last, ran, stays, sent⟩ := @ih ⟨_, s.fins + 1⟩ (same ▸ connected)
      have isStep : step .close s = some ((tcpClose 0 s.sk).1, ⟨(tcpClose 0 s.sk).2, s.fins + 1⟩) :=
        by rw [← once]; rfl
      refine ⟨_, last, runSteps_extend isStep ran, stays.trans same, ?_⟩
      rw [sent, count_cons_self, Nat.add_assoc, Nat.add_comm 1]

theorem connected_close_repeats_established :
    ∃ results last, runSteps step [.close, .shutdown 2, .close] ⟨⟨.established, 0, true, 0⟩, 0⟩ =
      some (results, last) ∧ last.sk.state = .established ∧ last.fins = 2 :=
  connected_close_repeats (.inr rfl) _

end TcpRun

end PrettyOS.Net
