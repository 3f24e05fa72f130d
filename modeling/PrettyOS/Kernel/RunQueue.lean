import PrettyOS.Kernel.SchedOrder

/-!
Contract: the timeline of `kernel/sched_fair.c` as a sorted set of keys.

The keys of queued entities are taken to stay as they are.
-/

namespace PrettyOS.Kernel

open Library.AvlTree (Side)
open Library.RedBlackTree List
open Lib

def seSearch (vruntime : Task → BitVec 32) (key : BitVec 32) : ColorTree Task → Option Task
  | .leaf => none
  | .node _ left se right =>
      match tsDirection vruntime key se with
      | some .left => seSearch vruntime key left
      | some .right => seSearch vruntime key right
      | none => some se

structure RunQueue where
  vruntime : Task → BitVec 32
  timeline : ColorTree Task

namespace RunQueue

variable {base key : BitVec 32} {q r : RunQueue} {se : Task} {before behind : List Task}
  {tree : ColorTree Task} {vruntime : Task → BitVec 32}

def position (base : BitVec 32) (q : RunQueue) (e : Task) : Nat := offset base (q.vruntime e)

def queue (q : RunQueue) : List Task := q.timeline.inorder

structure Ordered (base : BitVec 32) (q : RunQueue) : Prop where
  redBlack : q.timeline.IsRedBlack
  inside : ∀ e ∈ q.queue, q.position base e < halfRange
  sorted : q.queue.Pairwise fun a b => q.position base a < q.position base b

lemma Ordered.nodup (ord : Ordered base q) : q.queue.Nodup :=
  ord.sorted.imp fun old => ne_of_apply_ne (q.position base) old.ne

lemma toInt_sub_neg_iff {a b : BitVec 32} (aInside : offset base a < halfRange)
    (bInside : offset base b < halfRange) : (a - b).toInt < 0 ↔ offset base a < offset base b := by
  rw [toInt_sub_eq_offsets aInside bInside]
  omega

lemma Ordered.cut (ord : Ordered base q) (keyInside : offset base key < halfRange)
    (cut : Cut q.vruntime key q.timeline before behind) :
    (∀ e ∈ before, q.position base e < offset base key) ∧
      ∀ e ∈ behind, offset base key < q.position base e := by
  have sorted :=
    ord.sorted.imp_of_mem fun aIn bIn =>
      (toInt_sub_neg_iff (ord.inside _ aIn) (ord.inside _ bIn)).mpr
  obtain ⟨_, absent⟩ := Infinite.exists_notMem_finset q.queue.toFinset
  rw [mem_toFinset] at absent
  obtain ⟨lower, higher⟩ := cut_between ord.inside keyInside cut
    (sorted.sublist filter_sublist) fun asked => absurd (mem_of_compared asked) absent
  have queued : q.queue = before ++ behind := cut.order
  constructor
  · intro e mem
    have inQueue : e ∈ q.queue := by simp [queued, mem]
    exact (toInt_sub_neg_iff (ord.inside e inQueue) keyInside).mp
      (lower e mem (ne_of_mem_of_not_mem inQueue absent))
  intro e mem
  have inQueue : e ∈ q.queue := by simp [queued, mem]
  exact (toInt_sub_neg_iff keyInside (ord.inside e inQueue)).mp
    (higher e mem (ne_of_mem_of_not_mem inQueue absent))

lemma Ordered.tsInsert (ord : Ordered base q) (inside : q.position base se < halfRange) :
    ∃ code timeline, tsInsert q.vruntime q.timeline se = some (code, timeline) ∧
      Ordered base { q with timeline } ∧
      ((code = 0 ∧ timeline = q.timeline ∧ ∃ e ∈ q.queue, q.vruntime e = q.vruntime se) ∨
        (code = 1 ∧ (∀ e ∈ q.queue, q.vruntime e ≠ q.vruntime se) ∧
          ∃ before behind, q.queue = before ++ behind ∧
            timeline.inorder = before ++ se :: behind)) := by
  obtain ⟨code, timeline, call, fits, outcome⟩ := @tsInsert_spec q.vruntime se q.timeline
    ord.redBlack
  rcases outcome with ⟨isCode, rfl, this, asked, sameKey⟩ | ⟨isCode, before, behind, cut, order⟩
  · exact ⟨code, _, call, ord, .inl ⟨isCode, rfl, this, mem_of_compared asked, sameKey⟩⟩
  obtain ⟨lower, higher⟩ := ord.cut inside cut
  have queued : q.queue = before ++ behind := cut.order
  have sorted := ord.sorted
  have insideAll := ord.inside
  rw [queued] at sorted insideAll
  refine ⟨code, timeline, call, ⟨fits, ?_, ?_⟩, .inr ⟨isCode, ?_, before, behind, queued, order⟩⟩
  · change ∀ e ∈ timeline.inorder, _
    intro e mem
    by_cases same : e = se
    · exact same ▸ inside
    · exact insideAll e (by simpa [order, same] using mem)
  · change timeline.inorder.Pairwise _
    rw [order, pairwise_middle_iff]
    exact ⟨sorted, lower, higher⟩
  · intro e mem same
    rw [queued, mem_append] at mem
    have apart := mem.elim (fun low => (lower e low).ne) fun high => (higher e high).ne'
    exact apart (congrArg (offset base) same)

lemma Ordered.tsEarse (ord : Ordered base q) (queued : se ∈ q.queue) :
    ∃ timeline, tsEarse q.timeline se = some timeline ∧ timeline.inorder = q.queue.erase se ∧
      Ordered base { q with timeline } := by
  obtain ⟨_, timeline, found, call, fits, order⟩ := erase_spec ord.redBlack ord.nodup queued
  have sublist := order ▸ erase_sublist
  refine ⟨timeline, by simp [Kernel.tsEarse, found, call], order, fits, ?_, ?_⟩
  · exact fun e mem => ord.inside e (sublist.subset mem)
  · exact ord.sorted.sublist sublist

lemma mem_of_seSearch (found : seSearch vruntime key tree = some se) :
    se ∈ tree.inorder ∧ vruntime se = key := by
  induction tree with
  | leaf => cases found
  | node color left root right ihLeft ihRight =>
    simp only [seSearch] at found
    simp only [ColorTree.inorder, mem_append, mem_cons]
    split at found
    · exact (ihLeft found).imp_left .inl
    · exact (ihRight found).imp_left fun mem => .inr (.inr mem)
    next stops =>
    cases found
    exact ⟨.inr (.inl rfl), tsDirection_eq_none.mp stops⟩

lemma seSearch_of_mem (inside : ∀ e ∈ tree.inorder, offset base (vruntime e) < halfRange)
    (sorted : tree.inorder.Pairwise fun a b => offset base (vruntime a) < offset base (vruntime b))
    (mem : se ∈ tree.inorder) : seSearch vruntime (vruntime se) tree = some se := by
  induction tree with
  | leaf => cases mem
  | node color left root right ihLeft ihRight =>
    have seInside := inside se mem
    simp only [ColorTree.inorder, mem_append, mem_cons] at inside mem
    simp only [ColorTree.inorder, pairwise_append, pairwise_cons] at sorted
    obtain ⟨leftSorted, ⟨rootFirst, rightSorted⟩, across⟩ := sorted
    rcases mem with inLeft | rfl | inRight
    · have turns :=
        tsDirection_eq_left.mpr ((toInt_sub_neg_iff seInside (inside root (by simp))).mpr
          (across se inLeft root (by simp)))
      simp only [seSearch, turns]
      exact ihLeft (fun e mem => inside e (by simp [mem])) leftSorted inLeft
    · simp [seSearch, tsDirection_eq_none.mpr]
    have old := rootFirst se inRight
    have turns : tsDirection vruntime (vruntime se) root = some .right := by
      rw [tsDirection_eq_right, toInt_sub_eq_offsets seInside (inside root (by simp))]
      omega
    simp only [seSearch, turns]
    exact ihRight (fun e mem => inside e (by simp [mem])) rightSorted inRight

inductive Step (base : BitVec 32) : RunQueue → RunQueue → Prop
  | insert {q : RunQueue} {se : Task} {code : Int} {timeline : ColorTree Task}
      (inside : q.position base se < halfRange)
      (call : tsInsert q.vruntime q.timeline se = some (code, timeline)) :
      Step base q { q with timeline }
  | earse {q : RunQueue} {se : Task} {timeline : ColorTree Task} (queued : se ∈ q.queue)
      (call : tsEarse q.timeline se = some timeline) : Step base q { q with timeline }
  | rekey {q : RunQueue} {vruntime : Task → BitVec 32}
      (same : ∀ e ∈ q.queue, vruntime e = q.vruntime e) : Step base q { q with vruntime }

lemma Step.ordered (step : Step base q r) (ordered : Ordered base q) : Ordered base r := by
  cases step with
  | insert inside call =>
    obtain ⟨_, timeline, ran, after, -⟩ := ordered.tsInsert inside
    rw [call] at ran
    cases ran
    exact after
  | earse queued call =>
    obtain ⟨timeline, ran, -, after⟩ := ordered.tsEarse queued
    rw [call] at ran
    cases ran
    exact after
  | @rekey vruntime same =>
    have positions : ∀ e ∈ q.queue, position base ⟨vruntime, q.timeline⟩ e = q.position base e :=
      fun e mem => congrArg (offset base) (same e mem)
    refine ⟨ordered.redBlack, fun e mem => ?_, ordered.sorted.imp_of_mem fun aIn bIn old => ?_⟩
    · exact (positions e mem).trans_lt (ordered.inside e mem)
    · rwa [positions _ aIn, positions _ bIn]

lemma ordered_of_steps (steps : Relation.ReflTransGen (Step base) ⟨vruntime, .leaf⟩ q) :
    Ordered base q := by
  induction steps with
  | refl => exact ⟨⟨rfl, 0, rfl⟩, by simp [queue, ColorTree.inorder], List.Pairwise.nil⟩
  | tail _ step ih => exact step.ordered ih

structure SortedSet (base : BitVec 32) (q : RunQueue) : Prop where
  sorted : q.queue.Pairwise fun a b => q.position base a < q.position base b
  insert : ∀ se, q.position base se < halfRange →
    ∃ code timeline, tsInsert q.vruntime q.timeline se = some (code, timeline) ∧
      (code = 1 ↔ ∀ e ∈ q.queue, q.vruntime e ≠ q.vruntime se) ∧
      (code = 1 → ∃ before behind, q.queue = before ++ behind ∧
        timeline.inorder = before ++ se :: behind) ∧
      (code ≠ 1 → code = 0 ∧ timeline = q.timeline)
  earse : ∀ se ∈ q.queue, ∃ timeline, tsEarse q.timeline se = some timeline ∧
    timeline.inorder = q.queue.erase se
  leftmost : q.queue ≠ [] → ∃ first ∈ q.queue, tsLeftmost q.timeline = some first ∧
    ∀ e ∈ q.queue, q.position base first ≤ q.position base e
  search : ∀ key se, seSearch q.vruntime key q.timeline = some se ↔
    se ∈ q.queue ∧ q.vruntime se = key

lemma Ordered.leftmost (ord : Ordered base q) (ne : q.queue ≠ []) :
    ∃ first ∈ q.queue, tsLeftmost q.timeline = some first ∧
      ∀ e ∈ q.queue, q.position base first ≤ q.position base e := by
  obtain ⟨first, _, order⟩ := exists_cons_of_ne_nil ne
  have sorted := ord.sorted
  rw [order] at sorted ⊢
  refine ⟨first, mem_cons_self, ?_, ?_⟩
  · rw [tsLeftmost, rbFirst_eq_head, show q.timeline.inorder = _ from order]
    rfl
  · exact forall_mem_cons.mpr
      ⟨le_rfl, fun e mem => ((pairwise_cons.mp sorted).1 e mem).le⟩

/-- Along every run from an empty timeline, with keys in a window shorter than half of the
unsigned numbers, the run queue is a sorted set. -/
theorem sortedSet_of_steps (steps : Relation.ReflTransGen (Step base) ⟨vruntime, .leaf⟩ q) :
    SortedSet base q := by
  have ordered := ordered_of_steps steps
  refine ⟨ordered.sorted, fun se inside => ?_, fun se queued => ?_, ordered.leftmost,
    fun key se => ⟨mem_of_seSearch, ?_⟩⟩
  · obtain ⟨code, timeline, call, -, outcome⟩ := ordered.tsInsert inside
    refine ⟨code, timeline, call, ?_⟩
    rcases outcome with ⟨rfl, same, e, queued, sameKey⟩ | ⟨rfl, fresh, entered⟩
    · simpa [same] using ⟨e, queued, sameKey⟩
    · simpa [entered] using fresh
  · obtain ⟨timeline, call, order, -⟩ := ordered.tsEarse queued
    exact ⟨timeline, call, order⟩
  · rintro ⟨queued, rfl⟩
    exact seSearch_of_mem ordered.inside ordered.sorted queued

def wrappingKeys (e : Task) : BitVec 32 := BitVec.ofNat 32 (0xFFFFFFF0 + 16 * e)

theorem sortedSet_wrappingKeys :
    wrappingKeys 1 < wrappingKeys 0 ∧ SortedSet 0xFFFFFFF0
      ⟨wrappingKeys, .node .black (.node .red .leaf 0 .leaf) 1 .leaf⟩ := by
  have first : Step 0xFFFFFFF0 ⟨wrappingKeys, .leaf⟩ ⟨wrappingKeys, .node .black .leaf 1 .leaf⟩ :=
    @Step.insert _ ⟨wrappingKeys, .leaf⟩ 1 1 _ (by decide) rfl
  have second : Step 0xFFFFFFF0 ⟨wrappingKeys, .node .black .leaf 1 .leaf⟩
      ⟨wrappingKeys, .node .black (.node .red .leaf 0 .leaf) 1 .leaf⟩ :=
    @Step.insert _ ⟨wrappingKeys, _⟩ 0 1 _ (by decide) rfl
  exact ⟨by decide, sortedSet_of_steps ((Relation.ReflTransGen.single first).tail second)⟩

end RunQueue

end PrettyOS.Kernel
