import PrettyOS.Kernel.SchedRuns

/-!
Contract: the order of the keys on the timeline along runs with forks.
-/

namespace PrettyOS.Kernel

open Library.RedBlackTree List Option
open Function
open Lib

section Window

variable {base a b : BitVec 32}

def halfRange : Nat := 2 ^ 31

def offset (base key : BitVec 32) : Nat := (key - base).toNat

lemma toInt_sub_of_small (aSmall : a.toNat < halfRange) (bSmall : b.toNat < halfRange) :
    (a - b).toInt = a.toNat - b.toNat := by
  unfold halfRange at *
  rw [BitVec.toInt_eq_toNat_cond, BitVec.toNat_sub]
  split_ifs <;> omega

lemma toInt_sub_eq_offsets (aInside : offset base a < halfRange)
    (bInside : offset base b < halfRange) : (a - b).toInt = offset base a - offset base b := by
  rw [← sub_sub_sub_cancel_right a b base]
  exact toInt_sub_of_small aInside bInside

end Window

def InWindow (base : BitVec 32) (s : Sched) : Prop :=
  ∀ e ∈ s.queue, offset base (s.vruntime e) < halfRange

instance (base : BitVec 32) (s : Sched) : Decidable (InWindow base s) := by
  unfold InWindow
  infer_instance

def Sorted (s : Sched) : Prop :=
  s.others.Pairwise fun a b => (s.vruntime a - s.vruntime b).toInt < 0

section Pairs

variable {α : Type*} {a b c : α} {l front back : List α}

lemma ne_of_pair_sublist (nodup : l.Nodup) (pair : [a, b].Sublist l) : a ≠ b := by
  have ne := nodup.sublist pair
  simpa using ne

lemma pair_sublist_trans (nodup : l.Nodup) (first : [a, b].Sublist l)
    (second : [b, c].Sublist l) : [a, c].Sublist l := by
  induction l with
  | nil => cases first
  | cons x rest ih =>
    obtain ⟨xFresh, restNodup⟩ := nodup_cons.mp nodup
    have bInside : b ∈ rest := by
      cases first with
      | cons _ inner => exact inner.subset (by simp)
      | cons_cons _ inner => exact inner.subset (by simp)
    have tail : [b, c].Sublist rest := by
      cases second with
      | cons _ inner => exact inner
      | cons_cons _ inner => exact absurd bInside xFresh
    cases first with
    | cons _ inner => exact (ih restNodup inner tail).cons x
    | cons_cons _ inner => exact (singleton_sublist.mpr (tail.subset (by simp))).cons_cons _

section

variable (nodup : (front ++ back).Nodup) (pair : [a, b].Sublist (front ++ back))
include nodup pair

lemma mem_back_of_pair (aBack : a ∈ back) : b ∈ back := by
  obtain ⟨left, _, split, inFront, inBack⟩ := sublist_append_iff.mp pair
  cases left with
  | nil =>
    rw [nil_append] at split
    subst split
    exact inBack.subset (by simp)
  | cons head tail =>
    rw [cons_append, List.cons.injEq] at split
    have aFront : a ∈ front := inFront.subset (by simp [split.1])
    exact absurd rfl ((nodup_append.mp nodup).2.2 a aFront a aBack)

lemma mem_front_of_pair (bFront : b ∈ front) : a ∈ front := by
  by_contra aOutside
  have aBack := (mem_append.mp (pair.subset (by simp))).resolve_left aOutside
  have bBack := mem_back_of_pair nodup pair aBack
  exact (nodup_append.mp nodup).2.2 b bFront b bBack rfl

end

lemma pairwise_middle_iff {R : α → α → Prop} : (front ++ a :: back).Pairwise R ↔
    (front ++ back).Pairwise R ∧ (∀ x ∈ front, R x a) ∧ ∀ y ∈ back, R a y := by
  simp only [pairwise_append, pairwise_cons, mem_cons, forall_eq_or_imp]
  constructor
  · rintro ⟨frontSorted, ⟨behindA, backSorted⟩, across⟩
    exact ⟨⟨frontSorted, backSorted, fun x xIn => (across x xIn).2⟩, fun x xIn => (across x xIn).1,
      behindA⟩
  · rintro ⟨⟨frontSorted, backSorted, across⟩, beforeA, behindA⟩
    exact ⟨frontSorted, ⟨behindA, backSorted⟩, fun x xIn => ⟨beforeA x xIn, across x xIn⟩⟩

end Pairs

section Entering

variable {vruntime : Task → BitVec 32} {key base : BitVec 32} {tree : ColorTree Task}
  {before behind : List Task} {stray : Task}

def NotMisled (vruntime : Task → BitVec 32) (key : BitVec 32) (tree : ColorTree Task)
    (stray : Task) : Prop :=
  stray ∈ compared vruntime key tree → ((key - vruntime stray).toInt < 0 →
      ∀ e ∈ tree.inorder, [stray, e].Sublist tree.inorder → (key - vruntime e).toInt < 0) ∧
    (0 < (key - vruntime stray).toInt →
      ∀ e ∈ tree.inorder, [e, stray].Sublist tree.inorder → 0 < (key - vruntime e).toInt)

instance : Decidable (NotMisled vruntime key tree stray) := by
  unfold NotMisled
  infer_instance

def SortedBut (vruntime : Task → BitVec 32) (l : List Task) (stray : Task) : Prop :=
  (l.filter (· != stray)).Pairwise fun a b => (vruntime a - vruntime b).toInt < 0

lemma SortedBut.pair {l : List Task} {a b : Task} (sorted : SortedBut vruntime l stray)
    (pair : [a, b].Sublist l) (aStays : a ≠ stray) (bStays : b ≠ stray) :
    (vruntime a - vruntime b).toInt < 0 := by
  apply pairwise_iff_forall_sublist.mp sorted
  have filtered := pair.filter (· != stray)
  simpa [aStays, bStays] using filtered

lemma cut_between (inside : ∀ e ∈ tree.inorder, offset base (vruntime e) < halfRange)
    (keyInside : offset base key < halfRange) (cut : Cut vruntime key tree before behind)
    (sorted : SortedBut vruntime tree.inorder stray)
    (notMisled : NotMisled vruntime key tree stray) :
    (∀ e ∈ before, e ≠ stray → (vruntime e - key).toInt < 0) ∧
      ∀ e ∈ behind, e ≠ stray → (key - vruntime e).toInt < 0 := by
  have compare : ∀ {a b : Task}, a ∈ tree.inorder → b ∈ tree.inorder →
      (vruntime a - vruntime b).toInt = offset base (vruntime a) - offset base (vruntime b) :=
    fun aIn bIn => toInt_sub_eq_offsets (inside _ aIn) (inside _ bIn)
  have fromKey : ∀ {e : Task}, e ∈ tree.inorder →
      (key - vruntime e).toInt = offset base key - offset base (vruntime e) :=
    fun eIn => toInt_sub_eq_offsets keyInside (inside _ eIn)
  have toKey : ∀ {e : Task}, e ∈ tree.inorder →
      (vruntime e - key).toInt = offset base (vruntime e) - offset base key :=
    fun eIn => toInt_sub_eq_offsets (inside _ eIn) keyInside
  constructor
  · intro e mem stays
    have eIn : e ∈ tree.inorder := by
      rw [cut.order]
      exact mem_append_left _ mem
    obtain ⟨turn, asked, lower, place⟩ := cut.lower e mem
    have turnIn := mem_of_compared asked
    rw [toKey eIn]
    rw [fromKey turnIn] at lower
    rcases place with rfl | pair
    · omega
    by_cases atStray : turn = stray
    · subst atStray
      have turnsRight := (notMisled asked).2 (by rw [fromKey turnIn]; omega) e eIn pair
      rw [fromKey eIn] at turnsRight
      omega
    · have old := sorted.pair pair stays atStray
      rw [compare eIn turnIn] at old
      omega
  · intro e mem stays
    have eIn : e ∈ tree.inorder := by
      rw [cut.order]
      exact mem_append_right _ mem
    obtain ⟨turn, asked, higher, place⟩ := cut.higher e mem
    have turnIn := mem_of_compared asked
    rw [fromKey eIn]
    rw [fromKey turnIn] at higher
    rcases place with rfl | pair
    · omega
    by_cases atStray : turn = stray
    · subst atStray
      have turnsLeft := (notMisled asked).1 (by rw [fromKey turnIn]; omega) e eIn pair
      rw [fromKey eIn] at turnsLeft
      omega
    · have later := sorted.pair pair atStray stays
      rw [compare turnIn eIn] at later
      omega

section

variable (nodup : tree.inorder.Nodup)
  (inside : ∀ e ∈ tree.inorder, offset base (vruntime e) < halfRange)
include nodup inside

lemma notMisled_of_between
    (keyInside : offset base key < halfRange) (cut : Cut vruntime key tree before behind)
    (lower : ∀ e ∈ before, e ≠ stray → (vruntime e - key).toInt < 0)
    (higher : ∀ e ∈ behind, e ≠ stray → (key - vruntime e).toInt < 0) :
    NotMisled vruntime key tree stray := by
  intro strayAsked
  have nodupCut := cut.order ▸ nodup
  constructor
  · intro goesLeft e _ pair
    have strayBehind := cut.above stray strayAsked goesLeft
    have pairCut := cut.order ▸ pair
    exact higher e (mem_back_of_pair nodupCut pairCut strayBehind)
      (ne_of_pair_sublist nodup pair).symm
  · intro goesRight e _ pair
    have strayBefore := cut.below stray strayAsked goesRight
    have pairCut := cut.order ▸ pair
    have old := lower e (mem_front_of_pair nodupCut pairCut strayBefore)
      (ne_of_pair_sublist nodup pair)
    have eInside := inside e (pair.subset (by simp))
    rw [toInt_sub_eq_offsets keyInside eInside]
    rw [toInt_sub_eq_offsets eInside keyInside] at old
    omega

lemma notMisled_of_met {this : Task}
    (sorted : SortedBut vruntime tree.inorder stray) (asked : this ∈ compared vruntime key tree)
    (sameKey : vruntime this = key) : NotMisled vruntime key tree stray := by
  intro strayAsked
  obtain ⟨left, right⟩ := searched_stop asked (tsDirection_eq_none.mpr sameKey) strayAsked
  have notStray : (key - vruntime stray).toInt ≠ 0 → this ≠ stray := by
    rintro differs rfl
    exact differs (by rw [sameKey, toInt_sub_eq_zero.mpr rfl])
  constructor
  · intro goesLeft e _ pair
    have stopsBefore := left (tsDirection_eq_left.mpr goesLeft)
    rw [← sameKey]
    exact sorted.pair (pair_sublist_trans nodup stopsBefore pair) (notStray goesLeft.ne)
      (ne_of_pair_sublist nodup pair).symm
  · intro goesRight e _ pair
    have stopsBehind := right (tsDirection_eq_right.mpr goesRight)
    have old := sorted.pair (pair_sublist_trans nodup pair stopsBehind)
      (ne_of_pair_sublist nodup pair) (notStray goesRight.ne')
    have eInside := inside e (pair.subset (by simp))
    have thisInside := inside this (mem_of_compared asked)
    rw [← sameKey, toInt_sub_eq_offsets thisInside eInside]
    rw [toInt_sub_eq_offsets eInside thisInside] at old
    omega

end

lemma sortedBut_insert_iff {se : Task} (stays : se ≠ stray)
    (sorted : SortedBut vruntime (before ++ behind) stray) :
    SortedBut vruntime (before ++ se :: behind) stray ↔
      (∀ e ∈ before, e ≠ stray → (vruntime e - vruntime se).toInt < 0) ∧
        ∀ e ∈ behind, e ≠ stray → (vruntime se - vruntime e).toInt < 0 := by
  unfold SortedBut at sorted ⊢
  rw [filter_append] at sorted
  rw [filter_append, filter_cons_of_pos (by simpa using stays), pairwise_middle_iff]
  simp only [sorted, true_and, mem_filter, bne_iff_ne, ne_eq, and_imp]

lemma sorted_entered {se : Task} {res : ColorTree Task} (absent : se ∉ tree.inorder)
    (sorted : tree.inorder.Pairwise fun a b => (vruntime a - vruntime b).toInt < 0)
    (inside : ∀ e ∈ res.inorder, offset base (update vruntime se key e) < halfRange)
    (ent : Entered vruntime key tree se res) :
    res.inorder.Pairwise fun a b =>
      (update vruntime se key a - update vruntime se key b).toInt < 0 := by
  have keyOf : ∀ e ∈ tree.inorder, update vruntime se key e = vruntime e :=
    fun e mem => update_of_ne (ne_of_mem_of_not_mem mem absent) _ _
  have sortedAfter : tree.inorder.Pairwise fun a b =>
      (update vruntime se key a - update vruntime se key b).toInt < 0 := by
    refine sorted.imp_of_mem fun aIn bIn old => ?_
    rwa [keyOf _ aIn, keyOf _ bIn]
  rcases ent with ⟨rfl, -⟩ | ⟨before, behind, cut, ins⟩
  · exact sortedAfter
  have beforeIn : ∀ e ∈ before, e ∈ tree.inorder := fun e mem => by simp [cut.order, mem]
  have behindIn : ∀ e ∈ behind, e ∈ tree.inorder := fun e mem => by simp [cut.order, mem]
  have insideTree : ∀ e ∈ tree.inorder, offset base (vruntime e) < halfRange := by
    intro e mem
    have inResult : e ∈ res.inorder := by
      rw [ins]
      rw [cut.order] at mem
      simp only [mem_append, mem_cons] at mem ⊢
      tauto
    have inWindow := inside e inResult
    rwa [keyOf e mem] at inWindow
  have insideKey : offset base key < halfRange := by
    have inWindow := inside se (by simp [ins])
    rwa [update_self] at inWindow
  obtain ⟨lower, higher⟩ := cut_between insideTree insideKey cut
    (sorted.sublist filter_sublist) (fun asked => absurd (mem_of_compared asked) absent)
  rw [cut.order] at sortedAfter
  rw [ins, pairwise_middle_iff]
  refine ⟨sortedAfter, fun e mem => ?_, fun e mem => ?_⟩
  · rw [keyOf e (beforeIn e mem), update_self]
    exact lower e mem (ne_of_mem_of_not_mem (beforeIn e mem) absent)
  · rw [keyOf e (behindIn e mem), update_self]
    exact higher e mem (ne_of_mem_of_not_mem (behindIn e mem) absent)

end Entering

variable {s t : Sched} {p : Task} {base : BitVec 32}

lemma others_eq_filter (sound : Sound s) : s.others = s.queue.filter (· != s.current) :=
  sound.nodup.erase_eq_filter _

lemma sorted_iff_sortedBut (sound : Sound s) :
    Sorted s ↔ SortedBut s.vruntime s.queue s.current := by
  unfold Sorted SortedBut
  rw [others_eq_filter sound]

lemma sortedBut_congr {first second : Task → BitVec 32} {l : List Task} {stray : Task}
    (same : ∀ e ∈ l, e ≠ stray → first e = second e) :
    SortedBut first l stray ↔ SortedBut second l stray := by
  unfold SortedBut
  apply List.Pairwise.iff_of_mem
  intro a b aIn bIn
  simp only [mem_filter, bne_iff_ne, ne_eq] at aIn bIn
  rw [same a aIn.1 aIn.2, same b bIn.1 bIn.2]

lemma sorted_countTick (sound : Sound s) (sorted : Sorted s) : Sorted (countTick s) := by
  rw [sorted_iff_sortedBut (sound_countTick sound)]
  rw [sorted_iff_sortedBut sound] at sorted
  refine (sortedBut_congr fun e _ stays => ?_).mp sorted
  exact (update_of_ne stays _ _).symm

lemma sorted_schedule (sound : Sound s) (sorted : Sorted s) (ran : schedule s = some t)
    (inside : InWindow base t) :
    t.queue.Pairwise fun a b => (t.vruntime a - t.vruntime b).toInt < 0 := by
  cases picked : s.others with
  | nil =>
    rw [schedule_alone sound picked] at ran
    cases ran
  | cons next rest =>
    have absent := current_not_mem_others sound
    by_cases runs : s.taskState s.current = .running
    · obtain ⟨_, timeline, res, -, order, ent⟩ := schedule_running sound picked runs
      rw [res] at ran
      cases ran
      exact sorted_entered (order ▸ absent) (order ▸ sorted) inside ent
    obtain ⟨timeline, res, -, order⟩ := schedule_sleeping sound picked runs
    rw [res] at ran
    cases ran
    show timeline.inorder.Pairwise _
    rw [order]
    refine sorted.imp_of_mem fun aIn bIn old => ?_
    dsimp only
    rwa [update_of_ne (ne_of_mem_of_not_mem aIn absent),
      update_of_ne (ne_of_mem_of_not_mem bIn absent)]

def ForkInOrder (s : Sched) : Prop := NotMisled s.vruntime (forkKey s) s.timeline s.current

instance (s : Sched) : Decidable (ForkInOrder s) := by
  unfold ForkInOrder
  infer_instance

lemma sorted_doFork_iff (sound : Sound s) (sorted : Sorted s) (fresh : p ∉ s.queue)
    {pid : BitVec 32} (ran : doFork p s = some (pid, t)) (inside : InWindow base t) :
    Sorted t ↔ ForkInOrder s := by
  obtain ⟨soundAfter, sameCurrent, -, keys, ent⟩ := doFork_frame sound fresh ran
  rw [sorted_iff_sortedBut soundAfter, sameCurrent]
  rw [sorted_iff_sortedBut sound] at sorted
  have currentStays : p ≠ s.current := fun same => fresh (same ▸ sound.current)
  have keyOf : ∀ e ∈ s.queue, t.vruntime e = s.vruntime e := by
    intro e mem
    rw [keys]
    exact update_of_ne (ne_of_mem_of_not_mem mem fresh) _ _
  have keyOfChild : t.vruntime p = forkKey s := by rw [keys, update_self]
  have sortedAfter := (sortedBut_congr fun e mem _ => keyOf e mem).mpr sorted
  have insideBefore : (∀ e ∈ s.queue, e ∈ t.queue) →
      ∀ e ∈ s.queue, offset base (s.vruntime e) < halfRange := by
    intro kept e mem
    have inWindow := inside e (kept e mem)
    rwa [keyOf e mem] at inWindow
  rcases ent with ⟨dropped, _, asked, sameKey⟩ | ⟨before, behind, cut, ins⟩
  · have sameQueue : t.queue = s.queue := congrArg ColorTree.inorder dropped
    rw [sameQueue]
    exact iff_of_true sortedAfter (notMisled_of_met sound.nodup
      (insideBefore fun e mem => sameQueue ▸ mem) sorted asked sameKey)
  have split : s.queue = before ++ behind := cut.order
  have queueAfter : t.queue = before ++ p :: behind := ins
  have keyInside : offset base (forkKey s) < halfRange := by
    have inWindow := inside p (by simp [queueAfter])
    rwa [keyOfChild] at inWindow
  have insideQueue := insideBefore fun e mem => by
    rw [queueAfter]
    rw [split] at mem
    simp only [mem_append, mem_cons] at mem ⊢
    tauto
  have beforeKey : ∀ e ∈ before, t.vruntime e = s.vruntime e :=
    fun e mem => keyOf e (by simp [split, mem])
  have behindKey : ∀ e ∈ behind, t.vruntime e = s.vruntime e :=
    fun e mem => keyOf e (by simp [split, mem])
  rw [queueAfter, sortedBut_insert_iff currentStays (split ▸ sortedAfter), keyOfChild]
  constructor
  · rintro ⟨lower, higher⟩
    refine notMisled_of_between sound.nodup insideQueue keyInside cut ?_ ?_
    · intro e mem
      rw [← beforeKey e mem]
      exact lower e mem
    intro e mem
    rw [← behindKey e mem]
    exact higher e mem
  · intro inOrder
    obtain ⟨lower, higher⟩ := cut_between insideQueue keyInside cut sorted inOrder
    refine ⟨fun e mem => ?_, fun e mem => ?_⟩
    · rw [beforeKey e mem]
      exact lower e mem
    · rw [behindKey e mem]
      exact higher e mem

variable {boot : Boot} {memory : Sched} {known : List Task}

def KeepsOrder (s : Sched) (call : Call) (t : Sched) : Prop :=
  (∃ base, InWindow base t) ∧ ∀ p, call = .doFork p → ForkInOrder s

lemma sorted_step {call : Call} (sound : Sound s) (sorted : Sorted s)
    (fresh : ∀ p, call = .doFork p → p ∉ s.queue) (ran : call.run s = some t)
    (keeps : KeepsOrder s call t) : Sorted t := by
  obtain ⟨⟨_, inside⟩, inOrder⟩ := keeps
  cases call with
  | clockHandler kReenter =>
    rcases clockHandler_cases ran with rfl | scheduled
    · exact sorted_countTick sound sorted
    have whole := sorted_schedule (sound_countTick sound) (sorted_countTick sound sorted)
      scheduled inside
    exact whole.sublist erase_sublist
  | doFork p =>
    obtain ⟨⟨_, _⟩, res, rfl⟩ := map_eq_some_iff.mp ran
    exact (sorted_doFork_iff sound sorted (fresh p rfl) res inside).mpr (inOrder p rfl)
  | schedule =>
    exact (sorted_schedule sound sorted ran inside).sublist erase_sublist

lemma Reachable.sorted (hit : Reachable KeepsOrder boot memory s known) : Sorted s := by
  induction hit with
  | start started =>
    have booted := booted_of_start started
    unfold Sorted Sched.others Sched.queue
    rw [booted.timeline, booted.current]
    simp [bootTimeline, ColorTree.inorder]
  | step call hit fresh ran keeps ih =>
    obtain ⟨sound, queued⟩ := hit.sound
    refine sorted_step sound ih (fun p forks mem => ?_) ran keeps
    exact fresh p forks (mem_cons_of_mem _ (queued p mem))

/-- In every state of a run whose forks find their keys in order, and whose keys stay in a
window, the timeline without current is strictly increasing. -/
theorem timeline_sorted (reached : Reachable KeepsOrder boot memory s known)
    (inside : InWindow base s) :
    s.others.Pairwise fun a b => offset base (s.vruntime a) < offset base (s.vruntime b) := by
  refine reached.sorted.imp_of_mem fun aIn bIn earlier => ?_
  rw [toInt_sub_eq_offsets (inside _ (mem_of_mem_erase aIn))
    (inside _ (mem_of_mem_erase bIn))] at earlier
  omega

def runWithin (base : BitVec 32) : List Call → Sched → Option Sched
  | [], s => some s
  | call :: rest, s =>
      (call.run s).bind fun t => if InWindow base t then runWithin base rest t else none

lemma reachable_runWithin {allowed : Sched → Call → Sched → Prop} {calls : List Call}
    (hit : Reachable allowed boot memory s known)
    (fresh : ((boot.init :: known) ++ calls.flatMap Call.children).Nodup)
    (isAllowed : ∀ before call after, InWindow base after → allowed before call after)
    (returned : runWithin base calls s = some t) :
    ∃ later, Reachable allowed boot memory t later := by
  induction calls generalizing s known with
  | nil =>
    cases returned
    exact ⟨known, hit⟩
  | cons call rest ih =>
    obtain ⟨_, ran, continued⟩ := bind_eq_some_iff.mp returned
    split_ifs at continued with inside
    refine ih (.step call hit ?_ ran (isAllowed _ _ _ inside)) ?_ continued
    · rintro p rfl mem
      exact (nodup_append.mp fresh).2.2 p mem p (by simp [Call.children]) rfl
    refine (List.Perm.nodup_iff ?_).mp fresh
    rw [flatMap_cons, cons_append, cons_append, ← append_assoc]
    exact ((perm_append_comm).append_right _).cons _

def bootState : Sched := (firstBoot.start zeroMemory).get (by decide +kernel)

lemma start_bootState : firstBoot.start zeroMemory = some bootState := (some_get _).symm

def firstForkState : Sched := (Call.run (.doFork 5) bootState).get (by decide +kernel)

/-- The child of that fork comes behind `tty`. -/
theorem timeline_sorted_firstFork : Call.run (.doFork 5) bootState = some firstForkState ∧
    firstForkState.others = [firstBoot.tty, 5] ∧
    firstForkState.others.Pairwise fun a b =>
      offset 100 (firstForkState.vruntime a) < offset 100 (firstForkState.vruntime b) := by
  have returned : Call.run (.doFork 5) bootState = some firstForkState := (some_get _).symm
  have inside : InWindow 100 firstForkState := by decide +kernel
  have fresh : ∀ p, Call.doFork 5 = .doFork p → p ∉ firstBoot.init :: firstBoot.enqueued := by
    intro p same
    cases same
    decide
  have keeps : KeepsOrder bootState (.doFork 5) firstForkState :=
    ⟨⟨100, inside⟩, fun _ _ => by decide +kernel⟩
  have reached := Reachable.step (.doFork 5) (.start start_bootState) fresh returned keeps
  exact ⟨returned, by decide +kernel, timeline_sorted reached inside⟩

def lateFork : List Call :=
  [.clockHandler 1, .schedule] ++ List.replicate 11 (.clockHandler 1) ++ [.doFork 5]

def lateForkState : Sched := (runWithin 100 lateFork bootState).get (by decide +kernel)

/-- The child of the late fork, with key 111, comes before current, whose key is 112 by
then, and so before `TestA` with key 102. -/
theorem timeline_unsorted_lateFork :
    (∃ known, Reachable (fun _ _ t => InWindow 100 t) firstBoot zeroMemory lateForkState known) ∧
      InWindow 100 lateForkState ∧ lateForkState.others = [5, firstBoot.testA] ∧
      lateForkState.vruntime 5 = 111 ∧ lateForkState.vruntime firstBoot.testA = 102 ∧
      ¬lateForkState.others.Pairwise fun a b =>
        offset 100 (lateForkState.vruntime a) < offset 100 (lateForkState.vruntime b) := by
  have returned : runWithin 100 lateFork bootState = some lateForkState := (some_get _).symm
  refine ⟨?_, by decide +kernel, by decide +kernel, by decide +kernel, by decide +kernel,
    by decide +kernel⟩
  exact reachable_runWithin (.start start_bootState) (by decide) (fun _ _ _ inside => inside)
    returned

end PrettyOS.Kernel
