import PrettyOS.Library.Runs
import Mathlib.Data.List.Basic
import Mathlib.Logic.Function.Basic

/-!
Contract: the sockets of one protocol, `put_sock`, `remove_sock` and `sk_inuse` of
`net/inet/af_inet.c`.

A `struct sock *` is a number, with `0` for the null pointer; a `struct proto *` counts in units
of the structure. `none` is a null pointer that is followed, or a loop that has run out of fuel;
`wild` is set where a pointer is followed before it has been set, and the value it happens to have
is an argument.
-/

namespace PrettyOS.Net

open Library List Function Option

def sockArraySize : Nat := 256

structure SockTable where
  sockArray : Nat → Nat
  next : Nat → Nat
  num : Nat → Nat
  prot : Nat → Nat
  inuse : Int
  wild : Bool

namespace SockTable

def bucket (num : Nat) : Nat := num % sockArraySize

def inuseFrom (num : Nat) (t : SockTable) : Nat → Nat → Option Bool
  | 0, _ => none
  | fuel + 1, sk =>
      if sk = 0 then some false
      else if t.num sk = num then some true
      else inuseFrom num t fuel (t.next sk)

def skInuse (fuel num : Nat) (t : SockTable) : Option Bool :=
  inuseFrom num t fuel (t.sockArray (bucket num))

def walkEnd (next : Nat → Nat) : Nat → Nat → Option Nat
  | 0, _ => none
  | fuel + 1, sk1 => if sk1 = 0 then some sk1 else walkEnd next fuel (next sk1)

def putSock (fuel num sk : Nat) (t : SockTable) : Option SockTable :=
  let t := { t with num := update t.num sk num, next := update t.next sk 0, inuse := 1 }
  if t.sockArray (bucket num) = 0 then
    some { t with sockArray := update t.sockArray (bucket num) sk }
  else
    (walkEnd t.next fuel (t.sockArray (bucket num))).bind fun sk1 =>
      if sk1 = 0 then none
      else some { t with next := update (update t.next sk1 sk) sk 0 }

def walkBefore (next : Nat → Nat) (sk : Nat) : Nat → Nat → Option Nat
  | 0, _ => none
  | fuel + 1, sk1 =>
      if sk1 = 0 ∨ next sk1 = sk then some sk1 else walkBefore next sk fuel (next sk1)

def removeSock (fuel stack sk : Nat) (t : SockTable) : Option SockTable :=
  if t.prot sk = 0 then some t
  else if stack = 0 then none
  else
    -- `sk1->num` with the `sk1` of the stack
    let t := { t with wild := true }
    let sk1 := t.sockArray (bucket (t.num stack))
    if sk1 = sk then
      some { t with
        inuse := t.inuse - 1
        sockArray := update t.sockArray (bucket (t.num sk1)) (t.next sk1) }
    else
      (walkBefore t.next sk fuel sk1).map fun sk1 =>
        if sk1 = 0 then t
        else { t with
          prot := update t.prot sk (t.prot sk - 1)
          next := update (update t.next sk1 (t.next sk)) sk 0 }

inductive SockCall where
  | put (num sk : Nat)
  | remove (stack sk : Nat)

/-- The calls of a run, with the sockets put and not removed beside the table. -/
def step (fuel : Nat) : SockCall → SockTable × List Nat → Option (Unit × SockTable × List Nat)
  | .put num sk, s => (s.1.putSock fuel num sk).map fun t => ((), t, s.2 ++ [sk])
  | .remove stack sk, s => (s.1.removeSock fuel stack sk).map fun t => ((), t, s.2.erase sk)

def Admits : SockCall → SockTable × List Nat → Prop
  | .put _ sk, s => sk ≠ 0 ∧ sk ∉ s.2 ∧ s.1.prot sk ≠ 0
  | .remove _ sk, s => sk ∈ s.2

def Chain (next : Nat → Nat) : Nat → List Nat → Prop
  | head, [] => head = 0
  | head, sk :: rest => head = sk ∧ sk ≠ 0 ∧ Chain next (next sk) rest

def Holds (s : SockTable × List Nat) : Prop :=
  s.1.wild = false ∧
    ∀ b, Chain s.1.next (s.1.sockArray b) (s.2.filter fun sk => bucket (s.1.num sk) = b)

def Keeps (_ : SockCall) (s : SockTable × List Nat) (_ : Unit) (after : SockTable × List Nat) :
    Prop :=
  Holds after ∧ after.1.prot = s.1.prot ∧
    ∀ num, after.1.skInuse (after.2.length + 1) num = some true ↔
      ∃ sk ∈ after.2, after.1.num sk = num

def FindsEmpty : SockCall → SockTable × List Nat → Prop
  | .put num _, s => s.1.sockArray (bucket num) = 0
  | .remove _ _, _ => False

def Good (s : SockTable × List Nat) : Prop := Holds s ∧ ∀ sk ∈ s.2, s.1.prot sk ≠ 0

variable {t u : SockTable} {s after : SockTable × List Nat} {next next' : Nat → Nat}
  {fuel num sk head : Nat} {l : List Nat} {call : SockCall}

lemma Chain.congr (chain : Chain next head l) (same : ∀ sk ∈ l, next' sk = next sk) :
    Chain next' head l := by
  induction l generalizing head with
  | nil => exact chain
  | cons sk rest ih =>
    rw [forall_mem_cons] at same
    refine ⟨chain.1, chain.2.1, ?_⟩
    rw [same.1]
    exact ih chain.2.2 same.2

lemma inuseFrom_chain (chain : Chain t.next head l) (enough : l.length < fuel) :
    inuseFrom num t fuel head = some (l.any fun sk => t.num sk = num) := by
  induction l generalizing head fuel with
  | nil =>
    obtain ⟨fuel, rfl⟩ := Nat.exists_eq_add_of_lt enough
    exact if_pos chain
  | cons sk rest ih =>
    obtain ⟨rfl, ne0, chainRest⟩ := chain
    cases fuel with
    | zero => cases enough
    | succ fuel =>
      rw [inuseFrom, if_neg ne0, any_cons]
      by_cases same : t.num head = num
      · rw [if_pos same, decide_eq_true same, Bool.true_or]
      · rw [if_neg same, decide_eq_false same, Bool.false_or]
        exact ih chainRest (Nat.lt_of_succ_lt_succ enough)

lemma Holds.skInuse_iff (holds : Holds s) (num : Nat) :
    s.1.skInuse (s.2.length + 1) num = some true ↔ ∃ sk ∈ s.2, s.1.num sk = num := by
  rw [skInuse, inuseFrom_chain (holds.2 (bucket num)) (Nat.lt_succ_of_le (length_filter_le _ _)),
    some_inj, List.any_eq_true]
  constructor
  · rintro ⟨sk, inside, same⟩
    exact ⟨sk, (mem_filter.mp inside).1, of_decide_eq_true same⟩
  · rintro ⟨sk, inside, rfl⟩
    exact ⟨sk, mem_filter.mpr ⟨inside, decide_eq_true rfl⟩, decide_eq_true rfl⟩

lemma walkEnd_eq (ran : walkEnd next fuel head = some sk) : sk = 0 := by
  induction fuel generalizing head with
  | zero => cases ran
  | succ fuel ih =>
    rw [walkEnd] at ran
    split_ifs at ran with isNull
    · cases ran
      exact isNull
    · exact ih ran

lemma putSock_empty (empty : t.sockArray (bucket num) = 0) :
    t.putSock fuel num sk = some { t with
      num := update t.num sk num
      next := update t.next sk 0
      inuse := 1
      sockArray := update t.sockArray (bucket num) sk } :=
  if_pos empty

lemma putSock_occupied (occupied : t.sockArray (bucket num) ≠ 0) :
    t.putSock fuel num sk = none := by
  rw [putSock, if_neg occupied]
  refine bind_eq_none_iff.mpr fun sk1 isEnd => ?_
  rw [if_pos (walkEnd_eq isEnd)]

lemma holds_put (holds : Holds s) (fresh : sk ∉ s.2) (ne0 : sk ≠ 0)
    (empty : s.1.sockArray (bucket num) = 0) :
    Holds ({ s.1 with
      num := update s.1.num sk num
      next := update s.1.next sk 0
      inuse := 1
      sockArray := update s.1.sockArray (bucket num) sk }, s.2 ++ [sk]) := by
  refine ⟨holds.1, fun b => ?_⟩
  dsimp only
  have others : (s.2.filter fun other => bucket (update s.1.num sk num other) = b) =
      s.2.filter fun other => bucket (s.1.num other) = b :=
    filter_congr fun other inside => by rw [update_of_ne (ne_of_mem_of_not_mem inside fresh)]
  have last : ([sk].filter fun other => bucket (update s.1.num sk num other) = b) =
      if bucket num = b then [sk] else [] := by simp [filter_cons]
  have chain := holds.2 b
  rw [filter_append, others, last]
  by_cases here : bucket num = b
  · subst here
    rw [empty] at chain
    rw [update_self, if_pos rfl]
    cases isBucket : s.2.filter fun other => bucket (s.1.num other) = bucket num with
    | nil => exact ⟨rfl, ne0, update_self _ _ _⟩
    | cons first rest =>
      rw [isBucket] at chain
      exact absurd chain.1.symm chain.2.1
  · rw [if_neg here, append_nil, update_of_ne (Ne.symm here)]
    refine chain.congr fun other inside => ?_
    exact update_of_ne (ne_of_mem_of_not_mem (mem_filter.mp inside).1 fresh) _ _

lemma removeSock_wild {stack : Nat} (hasProt : t.prot sk ≠ 0)
    (ran : t.removeSock fuel stack sk = some u) : u.wild = true := by
  rw [removeSock, if_neg hasProt] at ran
  dsimp only at ran
  split_ifs at ran
  · cases ran
    rfl
  obtain ⟨sk1, -, rfl⟩ := map_eq_some_iff.mp ran
  split_ifs
  · rfl
  · rfl

lemma keeps_iff (good : Good s) (admits : Admits call s) :
    (∃ res after, step fuel call s = some (res, after) ∧ Keeps call s res after) ↔
      FindsEmpty call s := by
  cases call with
  | put num sk =>
    constructor
    · rintro ⟨_, _, ran, -⟩
      by_contra occupied
      rw [step, putSock_occupied occupied] at ran
      cases ran
    intro empty
    have holds := holds_put good.1 admits.2.1 admits.1 empty
    refine ⟨(), _, ?_, holds, rfl, holds.skInuse_iff⟩
    rw [step, putSock_empty empty]
    rfl
  | remove stack sk =>
    refine iff_of_false ?_ id
    rintro ⟨_, _, ran, keeps⟩
    obtain ⟨u, isRemoved, same⟩ := map_eq_some_iff.mp ran
    cases same
    exact absurd ((removeSock_wild (good.2 sk admits) isRemoved).symm.trans keeps.1.1) (by decide)

lemma good_step {res : Unit} (good : Good s) (admits : Admits call s)
    (ran : step fuel call s = some (res, after)) (finds : FindsEmpty call s) : Good after := by
  cases call with
  | put num sk =>
    rw [step, putSock_empty finds] at ran
    cases ran
    refine ⟨holds_put good.1 admits.2.1 admits.1 finds, ?_⟩
    exact forall_mem_append.mpr ⟨good.2, forall_mem_singleton.mpr admits.2.2⟩
  | remove stack sk => exact finds.elim

/-- From an empty table, every call of a sequence follows only pointers that are set and not null
and leaves each bucket chaining exactly its sockets, with `sk_inuse` telling them, if and only if
no call is a `remove_sock` and every `put_sock` finds its bucket empty. -/
theorem sockTable_kept_iff (fuel : Nat) (t : SockTable) (calls : List SockCall)
    (empty : ∀ b, t.sockArray b = 0) (tame : t.wild = false)
    (admitted : AtEach (step fuel) Admits calls (t, [])) :
    ReturnsEach (step fuel) Keeps calls (t, []) ↔ AtEach (step fuel) FindsEmpty calls (t, []) :=
  returnsEach_iff_atEach_of_admitted (fun good admits => keeps_iff good admits)
    (fun good admits ran finds => good_step good admits ran finds)
    ⟨⟨tame, empty⟩, fun _ inside => absurd inside not_mem_nil⟩ admitted

def noSockets : SockTable := ⟨fun _ => 0, fun _ => 0, fun _ => 0, fun _ => 1, 0, false⟩

/-- Two sockets in two buckets are kept, and in one bucket they are not. -/
theorem sockTable_kept_iff_two :
    ReturnsEach (step 8) Keeps [.put 80 1, .put 81 2] (noSockets, []) ∧
      ¬ ReturnsEach (step 8) Keeps [.put 80 1, .put 336 2] (noSockets, []) := by
  have admitted (num : Nat) : AtEach (step 8) Admits [.put 80 1, .put num 2] (noSockets, []) := by
    refine ⟨⟨by decide, by decide, by decide⟩, fun _ _ ran => ⟨?_, fun _ _ _ => trivial⟩⟩
    cases ran
    exact ⟨by decide, by decide, by decide⟩
  constructor
  · refine (sockTable_kept_iff 8 noSockets _ (fun _ => rfl) rfl (admitted 81)).mpr
      ⟨rfl, fun _ _ ran => ⟨?_, fun _ _ _ => trivial⟩⟩
    cases ran
    rfl
  · intro kept
    obtain ⟨-, rest⟩ := (sockTable_kept_iff 8 noSockets _ (fun _ => rfl) rfl (admitted 336)).mp kept
    exact absurd (rest _ _ rfl).1 (show (1 : Nat) ≠ 0 by decide)

/-- Two sockets in one bucket. -/
theorem putSock_second_faults :
    ((noSockets.putSock 8 80 1).bind fun t => t.putSock 8 336 2).isNone = true := by
  decide

end SockTable

end PrettyOS.Net
