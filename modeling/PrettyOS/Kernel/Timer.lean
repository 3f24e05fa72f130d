import Mathlib.Algebra.Order.Group.Nat
import Mathlib.Data.List.TakeWhile
import PrettyOS.Library.CircularList
import PrettyOS.Library.Runs
import PrettyOS.Library.SortedLists

/-!
Contract: the timer list of `kernel/timer.c`.

A `struct timer_list *` is a number, with `0` for the null pointer; `timerHeader` is the address
of the header. Expiries and `jiffies` are 32-bit words. `none` is a dereference of a null
pointer, or a loop that has run out of fuel.
-/

namespace PrettyOS.Kernel

open Library List Function Nat Option

structure Timers where
  prev : Nat → Nat
  next : Nat → Nat
  expires : Nat → UInt32
  jiffies : UInt32

def initTimer (timer : Nat) (t : Timers) : Int × Timers :=
  (0, { t with
    prev := update t.prev timer 0
    next := update t.next timer 0 })

def addScan (t : Timers) (expires : UInt32) : Nat → Nat → Option (Nat × Nat)
  | 0, _ => none
  | fuel + 1, q =>
      let p := t.next q
      if p = 0 then none
      else if t.expires p < expires then addScan t expires fuel p
      else some (q, p)

def linkBefore (timer p : Nat) (t : Timers) : Timers :=
  { t with
    next := update (update t.next timer p) (t.prev p) timer
    prev := update (update t.prev timer (t.prev p)) p timer }

def linkTimer (timer q p : Nat) (t : Timers) : Option Timers :=
  if p ≠ 0 then
    if t.prev p = 0 then none else some (linkBefore timer p t)
  else some { t with
    next := update (update t.next q timer) timer 0
    prev := update t.prev timer q }

def rebase (timer : Nat) (t : Timers) : Timers :=
  { t with expires := update t.expires timer (t.expires timer + t.jiffies) }

def addTimer (timerHeader fuel timer : Nat) (t : Timers) : Option (Int × Timers) :=
  if timer = 0 then none
  else
    (addScan (rebase timer t) ((rebase timer t).expires timer) fuel timerHeader).bind fun place =>
      (linkTimer timer place.1 place.2 (rebase timer t)).map fun linked => (0, linked)

def delScan (t : Timers) (timer : Nat) : Nat → Nat → Option Bool
  | 0, _ => none
  | fuel + 1, p =>
      if t.next p = 0 then some false
      else if t.next p = timer then some true
      else delScan t timer fuel (t.next p)

def unlinkTimer (timer : Nat) (t : Timers) : Timers :=
  { t with
    next := update (update t.next (t.prev timer) (t.next timer)) timer 0
    prev := update (update t.prev (t.next timer) (t.prev timer)) timer 0
    expires := update t.expires timer (t.expires timer - t.jiffies) }

def delTimer (timerHeader fuel timer : Nat) (t : Timers) : Option (Int × Timers) :=
  (delScan t timer fuel timerHeader).bind fun found =>
    if found = true then
      if t.prev timer = 0 ∨ t.next timer = 0 then none else some (0, unlinkTimer timer t)
    else if timer = 0 then none
    else some (-1, t)

inductive TimerCall where
  | initTimer (timer : Nat) (expires : UInt32)
  | addTimer (timer : Nat)
  | delTimer (timer : Nat)
  | advance (ticks : UInt32)

def timerStep (timerHeader fuel : Nat) : TimerCall → Timers → Option (Int × Timers)
  | .initTimer timer expires, t =>
      let done := PrettyOS.Kernel.initTimer timer t
      some (done.1, { done.2 with expires := update done.2.expires timer expires })
  | .addTimer timer, t => PrettyOS.Kernel.addTimer timerHeader fuel timer t
  | .delTimer timer, t => PrettyOS.Kernel.delTimer timerHeader fuel timer t
  | .advance ticks, t => some (0, { t with jiffies := t.jiffies + ticks })

def TimerCall.pending : TimerCall → List Nat → List Nat
  | .addTimer timer, listed => timer :: listed
  | .delTimer timer, listed => listed.erase timer
  | _, listed => listed

def TimerCall.Admitted (timerHeader : Nat) : TimerCall → List Nat → Prop
  | .initTimer timer _, listed => timer ≠ 0 ∧ timer ≠ timerHeader ∧ timer ∉ listed
  | .addTimer timer, listed => timer ≠ 0 ∧ timer ≠ timerHeader ∧ timer ∉ listed
  | .delTimer timer, listed => timer ∈ listed
  | .advance _, _ => True

def pendingTimers (calls : List TimerCall) : List Nat :=
  calls.foldl (fun listed call => call.pending listed) []

def TimersAdmitted (timerHeader : Nat) : List TimerCall → List Nat → Prop
  | [], _ => True
  | call :: rest, listed =>
      call.Admitted timerHeader listed ∧ TimersAdmitted timerHeader rest (call.pending listed)

variable {t after : Timers} {timerHeader timer fuel : Nat} {l listed : List Nat}

structure TimerList (timerHeader : Nat) (t : Timers) (l : List Nat) : Prop where
  circular : Circular t.next t.prev timerHeader l
  sorted : l.Pairwise fun a b => t.expires a ≤ t.expires b
  sentinel : t.expires timerHeader = ~~~0
  header_ne : timerHeader ≠ 0
  nonnull : 0 ∉ l

namespace TimerList

section

variable (list : TimerList timerHeader t l)
include list

lemma not_header_lt (expires : UInt32) : ¬ t.expires timerHeader < expires := by
  rw [list.sentinel, UInt32.lt_iff_toNat_lt]
  have below := expires.toNat_lt
  have greatest : (~~~0 : UInt32).toNat = 4294967295 := rfl
  omega

lemma place_ne_zero {place : Nat} (mem : place ∈ timerHeader :: l) : place ≠ 0 := by
  rcases mem_cons.mp mem with rfl | inside
  · exact list.header_ne
  · exact ne_of_mem_of_not_mem inside list.nonnull

lemma congr (next : ∀ node ∈ timerHeader :: l, after.next node = t.next node)
    (prev : ∀ node ∈ timerHeader :: l, after.prev node = t.prev node)
    (expires : ∀ node ∈ timerHeader :: l, after.expires node = t.expires node) :
    TimerList timerHeader after l := by
  refine ⟨list.circular.congr next prev, ?_, ?_, list.header_ne, list.nonnull⟩
  · apply list.sorted.imp_of_mem
    intro a b memA memB ord
    rw [expires a (mem_cons_of_mem _ memA), expires b (mem_cons_of_mem _ memB)]
    exact ord
  · exact (expires timerHeader mem_cons_self).trans list.sentinel

end

end TimerList

lemma update_unlisted {β : Type*} {f : Nat → β} {value : β} (off : timer ∉ timerHeader :: l) :
    ∀ node ∈ timerHeader :: l, update f timer value node = f node := fun _ mem =>
  update_of_ne (ne_of_mem_of_not_mem mem off) _ _

lemma addScan_eq (list : TimerList timerHeader t listed) {first : Nat} {expires : UInt32}
    (link : Linked t.next t.prev first l timerHeader) (inside : ∀ node ∈ l, node ∈ listed)
    (fuelEnough : l.length < fuel) :
    ∃ q, addScan t expires fuel first =
      some (q, (l.dropWhile fun node => t.expires node < expires).headD timerHeader) := by
  induction l generalizing first fuel with
  | nil =>
    cases fuel with
    | zero => exact absurd fuelEnough (by simp)
    | succ fuel =>
      refine ⟨first, ?_⟩
      rw [addScan, link.1, if_neg list.header_ne, if_neg (list.not_header_lt expires)]
      rfl
  | cons node rest ih =>
    cases fuel with
    | zero => exact absurd fuelEnough (by simp)
    | succ fuel =>
      rw [forall_mem_cons] at inside
      have ne0 := list.place_ne_zero (mem_cons_of_mem _ inside.1)
      rw [addScan, link.1, if_neg ne0]
      by_cases old : t.expires node < expires
      · rw [if_pos old, dropWhile_cons_of_pos (by simpa using old)]
        exact ih link.2.2 inside.2 (lt_of_succ_lt_succ fuelEnough)
      · rw [if_neg old, dropWhile_cons_of_neg (by simpa using old)]
        exact ⟨first, rfl⟩

lemma delScan_eq (list : TimerList timerHeader t listed) {first : Nat}
    (link : Linked t.next t.prev first l timerHeader) (inside : ∀ node ∈ l, node ∈ listed)
    (mem : timer ∈ l) (fuelEnough : l.length < fuel) : delScan t timer fuel first = some true := by
  induction l generalizing first fuel with
  | nil => cases mem
  | cons node rest ih =>
    cases fuel with
    | zero => exact absurd fuelEnough (by simp)
    | succ fuel =>
      rw [forall_mem_cons] at inside
      rw [delScan, link.1, if_neg (list.place_ne_zero (mem_cons_of_mem _ inside.1))]
      by_cases isTimer : node = timer
      · rw [if_pos isTimer]
      rw [if_neg isTimer]
      apply ih link.2.2 inside.2 _ (lt_of_succ_lt_succ fuelEnough)
      exact (mem_cons.mp mem).resolve_left (Ne.symm isTimer)

lemma pairwise_insert {expires : Nat → UInt32}
    (sorted : l.Pairwise fun a b => expires a ≤ expires b) :
    let old := fun node => decide (expires node < expires timer)
    (l.takeWhile old ++ timer :: l.dropWhile old).Pairwise
      fun a b => expires a ≤ expires b := by
  intro old
  have late := @not_holds_of_mem_dropWhile _ _ l old sorted fun _ _ le isOld =>
    decide_eq_true (UInt32.lt_of_le_of_lt le (of_decide_eq_true isOld))
  rw [← takeWhile_append_dropWhile (p := old) (l := l)] at sorted
  obtain ⟨sortedFront, sortedBack, across⟩ := pairwise_append.mp sorted
  apply Library.pairwise_insert sortedFront sortedBack across
  · intro node mem
    have isEarlier := mem_takeWhile_imp mem
    exact UInt32.le_of_lt (of_decide_eq_true isEarlier)
  · intro node mem
    exact UInt32.not_lt.mp (of_decide_eq_false (late node mem))

section

variable (list : TimerList timerHeader t l)
include list

lemma addTimer_list (ne0 : timer ≠ 0)
    (off : timer ∉ timerHeader :: l) (fuelEnough : l.length < fuel) :
    ∃ after l', addTimer timerHeader fuel timer t = some (0, after) ∧
      TimerList timerHeader after l' ∧ l'.Perm (timer :: l) := by
  have listRebased : TimerList timerHeader (rebase timer t) l :=
    list.congr (fun _ _ => rfl) (fun _ _ => rfl) (update_unlisted off)
  let old := fun node =>
    decide ((rebase timer t).expires node < (rebase timer t).expires timer)
  have cut : l.takeWhile old ++ l.dropWhile old = l := takeWhile_append_dropWhile
  obtain ⟨q, isPlace⟩ : ∃ q, addScan (rebase timer t) ((rebase timer t).expires timer) fuel
      timerHeader = some (q, (l.dropWhile old).headD timerHeader) :=
    addScan_eq listRebased listRebased.circular.linked (fun _ => id) fuelEnough
  have circ := list.circular
  rw [← cut] at circ off
  have placeListed := @Circular.place_mem _ timerHeader (l.takeWhile old) (l.dropWhile old)
  have prevListed := circ.prev_mem
  rw [cut] at placeListed prevListed
  refine ⟨linkBefore timer ((l.dropWhile old).headD timerHeader) (rebase timer t),
    l.takeWhile old ++ timer :: l.dropWhile old, ?_, ?_, ?_⟩
  · have prevNonnull := list.place_ne_zero prevListed
    rw [addTimer, if_neg ne0, isPlace, bind_some, linkTimer,
      if_pos (list.place_ne_zero placeListed)]
    rw [if_neg (show ¬ (rebase timer t).prev _ = 0 from prevNonnull)]
    rfl
  · refine ⟨circ.insert off, pairwise_insert listRebased.sorted, listRebased.sentinel,
      list.header_ne, ?_⟩
    intro isZero
    rcases mem_append.mp isZero with inFront | inBack
    · exact list.nonnull ((takeWhile_sublist old).subset inFront)
    rcases mem_cons.mp inBack with isTimer | inRest
    · exact ne0 isTimer.symm
    · exact list.nonnull ((dropWhile_sublist old).subset inRest)
  · exact perm_middle.trans (by rw [cut])

lemma delTimer_list (mem : timer ∈ l) (fuelEnough : l.length < fuel) :
    ∃ after, delTimer timerHeader fuel timer t = some (0, after) ∧
      TimerList timerHeader after (l.erase timer) := by
  have found := delScan_eq list list.circular.linked (fun _ => id) mem fuelEnough
  obtain ⟨notHeader, nodup⟩ := nodup_cons.mp list.circular.nodup
  obtain ⟨front, back, rfl⟩ := append_of_mem mem
  have once : timer ∉ timerHeader :: (front ++ back) := by
    have apart := nodup_cons.mp (perm_middle.nodup nodup)
    intro again
    rcases mem_cons.mp again with rfl | inside
    · exact notHeader mem
    · exact apart.1 inside
  have erased : (front ++ timer :: back).erase timer = front ++ back := by
    have notFront : timer ∉ front := fun inside =>
      once (mem_cons_of_mem _ (mem_append_left _ inside))
    rw [erase_append_right _ notFront, erase_cons_head]
  have prevListed : t.prev timer ∈ timerHeader :: (front ++ timer :: back) := list.circular.prev_mem
  have nextListed := list.circular.next_mem
  refine ⟨unlinkTimer timer t, ?_, ?_⟩
  · rw [delTimer, found, bind_some, if_pos rfl,
      if_neg (not_or.mpr ⟨list.place_ne_zero prevListed, list.place_ne_zero nextListed⟩)]
  rw [erased]
  have cut := (sublist_cons_self timer back).append_left front
  have unlinked : TimerList timerHeader
      { t with
        next := update t.next (t.prev timer) (t.next timer)
        prev := update t.prev (t.next timer) (t.prev timer) } (front ++ back) :=
    ⟨list.circular.erase, list.sorted.sublist cut, list.sentinel, list.header_ne,
      fun isZero => list.nonnull (cut.subset isZero)⟩
  exact unlinked.congr (update_unlisted once) (update_unlisted once) (update_unlisted once)

lemma timerStep_list {call : TimerCall} (same : l.Perm listed)
    (adm : call.Admitted timerHeader listed) (fuelEnough : listed.length < fuel) :
    ∃ res after l', timerStep timerHeader fuel call t = some (res, after) ∧
      TimerList timerHeader after l' ∧ l'.Perm (call.pending listed) := by
  rw [← same.length_eq] at fuelEnough
  have unlistedOf : ∀ {timer}, timer ≠ timerHeader → timer ∉ listed → timer ∉ timerHeader :: l := by
    intro timer notHeader unlisted mem
    rcases mem_cons.mp mem with isHeader | inside
    · exact notHeader isHeader
    · exact unlisted (same.mem_iff.mp inside)
  cases call with
  | initTimer timer expires =>
    have off := unlistedOf adm.2.1 adm.2.2
    exact ⟨0, _, l, rfl, list.congr (update_unlisted off) (update_unlisted off)
      (update_unlisted off), same⟩
  | addTimer timer =>
    obtain ⟨ne0, notHeader, unlisted⟩ := adm
    obtain ⟨after, l', ran, listAfter, isPerm⟩ :=
      addTimer_list list ne0 (unlistedOf notHeader unlisted) fuelEnough
    exact ⟨0, after, l', ran, listAfter, isPerm.trans (same.cons timer)⟩
  | delTimer timer =>
    obtain ⟨after, ran, listAfter⟩ := delTimer_list list (same.mem_iff.mpr adm) fuelEnough
    exact ⟨0, after, _, ran, listAfter, same.erase timer⟩
  | advance ticks =>
    exact ⟨0, _, l, rfl, list.congr (fun _ _ => rfl) (fun _ _ => rfl) (fun _ _ => rfl), same⟩

end

lemma length_pending_le (call : TimerCall) (listed : List Nat) :
    (call.pending listed).length ≤ listed.length + 1 := by
  cases call with
  | addTimer timer => exact le_refl _
  | delTimer timer => exact le_succ_of_le length_erase_le
  | initTimer timer expires => exact le_succ _
  | advance ticks => exact le_succ _

lemma runTimers_list {calls : List TimerCall} (list : TimerList timerHeader t l)
    (same : l.Perm listed) (adm : TimersAdmitted timerHeader calls listed)
    (fuelEnough : listed.length + calls.length < fuel) :
    ∃ results after l', runSteps (timerStep timerHeader fuel) calls t = some (results, after) ∧
      TimerList timerHeader after l' ∧
      l'.Perm (calls.foldl (fun listed call => call.pending listed) listed) := by
  induction calls generalizing t l listed with
  | nil => exact ⟨[], t, l, rfl, list, same⟩
  | cons call rest ih =>
    rw [length_cons] at fuelEnough
    obtain ⟨res, _, _, isStep, listMiddle, sameMiddle⟩ :=
      timerStep_list list same adm.1 (lt_of_le_of_lt (le_add_right _ _) fuelEnough)
    have grows := length_pending_le call listed
    obtain ⟨results, after, l', isRest, listAfter, sameAfter⟩ :=
      ih listMiddle sameMiddle adm.2 (by omega)
    exact ⟨res :: results, after, l', runSteps_extend isStep isRest, listAfter, sameAfter⟩

lemma timersAdmitted_take {calls : List TimerCall} (adm : TimersAdmitted timerHeader calls listed)
    (n : Nat) : TimersAdmitted timerHeader (calls.take n) listed := by
  induction calls generalizing listed n with
  | nil =>
    rw [take_nil]
    trivial
  | cons call rest ih =>
    cases n with
    | zero => trivial
    | succ n => exact ⟨adm.1, ih adm.2 n⟩

/-- Every sequence of admitted calls from the empty list returns, and after each of its calls
the list headed by `timer_header` is linked both ways, holds exactly the timers added and not
deleted, and is in order of the stored expiries. -/
theorem timer_list_in_order (timerHeader fuel : Nat) (start : Timers) (calls : List TimerCall)
    (headerNonnull : timerHeader ≠ 0) (isNext : start.next timerHeader = timerHeader)
    (isPrev : start.prev timerHeader = timerHeader) (sentinel : start.expires timerHeader = ~~~0)
    (admitted : TimersAdmitted timerHeader calls []) (fuelEnough : calls.length < fuel) (n : Nat) :
    ∃ results after l,
      runSteps (timerStep timerHeader fuel) (calls.take n) start = some (results, after) ∧
      Circular after.next after.prev timerHeader l ∧ l.Perm (pendingTimers (calls.take n)) ∧
      l.Pairwise fun a b => after.expires a ≤ after.expires b := by
  have empty : TimerList timerHeader start [] :=
    ⟨Circular.nil isNext isPrev, List.Pairwise.nil, sentinel, headerNonnull, not_mem_nil⟩
  have fuelTaken : ([] : List Nat).length + (calls.take n).length < fuel := by
    rw [length_nil, zero_add]
    exact lt_of_le_of_lt (length_take_le' n calls) fuelEnough
  obtain ⟨results, after, l, returned, list, same⟩ :=
    runTimers_list empty (List.Perm.refl _) (timersAdmitted_take admitted n) fuelTaken
  exact ⟨results, after, l, returned, list.circular, same, list.sorted⟩

def quietTimers : Timers where
  prev := fun _ => 1
  next := fun _ => 1
  expires := fun timer => if timer = 1 then ~~~0 else 40 - timer.toUInt32
  jiffies := 0

theorem timer_list_in_order_quietTimers :
    ∃ results after l, runSteps (timerStep 1 5)
        (List.take 4 [.addTimer 2, .advance 7, .addTimer 3, .delTimer 2]) quietTimers =
          some (results, after) ∧
      Circular after.next after.prev 1 l ∧
      l.Perm (pendingTimers
        (List.take 4 [.addTimer 2, .advance 7, .addTimer 3, .delTimer 2])) ∧
      l.Pairwise fun a b => after.expires a ≤ after.expires b :=
  timer_list_in_order 1 5 quietTimers [.addTimer 2, .advance 7, .addTimer 3, .delTimer 2]
    (by decide) rfl rfl rfl
    (by simp [TimersAdmitted, TimerCall.Admitted, TimerCall.pending]) (by decide) 4

lemma TimerList.next_mem (list : TimerList timerHeader t l) {node : Nat}
    (mem : node ∈ timerHeader :: l) : t.next node ∈ timerHeader :: l := by
  rcases mem_cons.mp mem with rfl | inside
  · rw [list.circular.linked.next_first]
    exact Linked.headD_mem
  · obtain ⟨front, back, rfl⟩ := append_of_mem inside
    exact list.circular.next_mem

lemma delScan_unlisted (list : TimerList timerHeader t l) (off : timer ∉ timerHeader :: l)
    {p : Nat} (mem : p ∈ timerHeader :: l) : delScan t timer fuel p = none := by
  induction fuel generalizing p with
  | zero => rfl
  | succ fuel ih =>
    have nextMem := list.next_mem mem
    rw [delScan, if_neg (list.place_ne_zero nextMem), if_neg (ne_of_mem_of_not_mem nextMem off)]
    exact ih nextMem

/-- After every sequence of admitted calls from the empty list, the search of `del_timer` for a
timer that is not on the list goes round it for ever: `-1` is never returned. -/
theorem delTimer_inactive_never_returns (timerHeader fuel : Nat) (start : Timers)
    (calls : List TimerCall) (headerNonnull : timerHeader ≠ 0)
    (isNext : start.next timerHeader = timerHeader)
    (isPrev : start.prev timerHeader = timerHeader) (sentinel : start.expires timerHeader = ~~~0)
    (admitted : TimersAdmitted timerHeader calls []) (fuelEnough : calls.length < fuel)
    (timer : Nat) (notHeader : timer ≠ timerHeader) (inactive : timer ∉ pendingTimers calls) :
    ∃ results after, runSteps (timerStep timerHeader fuel) calls start = some (results, after) ∧
      ∀ rounds, delScan after timer rounds timerHeader = none ∧
        delTimer timerHeader rounds timer after = none := by
  have empty : TimerList timerHeader start [] :=
    ⟨Circular.nil isNext isPrev, List.Pairwise.nil, sentinel, headerNonnull, not_mem_nil⟩
  obtain ⟨results, after, l, ran, list, same⟩ :=
    runTimers_list empty (List.Perm.refl _) admitted (by rwa [length_nil, zero_add])
  have unlisted : timer ∉ timerHeader :: l :=
    not_mem_cons_of_ne_of_not_mem notHeader fun mem => inactive (same.mem_iff.mp mem)
  refine ⟨results, after, ran, fun rounds => ?_⟩
  have lost : delScan after timer rounds timerHeader = none :=
    delScan_unlisted list unlisted mem_cons_self
  exact ⟨lost, by rw [delTimer, lost, bind_none]⟩

theorem delTimer_inactive_never_returns_twice :
    ∃ results after, runSteps (timerStep 1 5) [.addTimer 2, .addTimer 3, .delTimer 2] quietTimers =
        some (results, after) ∧
      ∀ rounds, delScan after 2 rounds 1 = none ∧ delTimer 1 rounds 2 after = none :=
  delTimer_inactive_never_returns 1 5 quietTimers [.addTimer 2, .addTimer 3, .delTimer 2]
    (by decide) rfl rfl rfl
    (by simp [TimersAdmitted, TimerCall.Admitted, TimerCall.pending]) (by decide) 2 (by decide)
    (by decide)

theorem delTimer_quietTimers_ne :
    ¬ ∃ rounds, delTimer 1 rounds 2 quietTimers = some (-1, quietTimers) := by
  rintro ⟨rounds, ran⟩
  have empty : TimerList 1 quietTimers [] :=
    ⟨Circular.nil rfl rfl, List.Pairwise.nil, rfl, by decide, not_mem_nil⟩
  rw [delTimer, delScan_unlisted empty (by decide) mem_cons_self] at ran
  cases ran

end PrettyOS.Kernel
