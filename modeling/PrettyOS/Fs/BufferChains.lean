import PrettyOS.Fs.BufferRing
import PrettyOS.Library.DoublyLinked

/-!
Contract: one buffer for each block.
-/

namespace PrettyOS.Fs

open Library List Option
open Function

namespace Buffers

variable {n fuel dev block bh start : Nat} {c d after : Buffers} {isBuffer member : Nat → Prop}

def chainIndex (c : Buffers) (bh : Nat) : Nat := hashfn (c.bDev bh) (c.bBlocknr bh)

lemma chainIndex_lt (c : Buffers) (bh : Nat) : c.chainIndex bh < nrHashBuffer :=
  Nat.mod_lt _ (by decide)

def Chained (member : Nat → Prop) (c : Buffers) : Prop :=
  ∀ index < nrHashBuffer, ∃ l : List Nat, l.Nodup ∧
    Doubly 0 c.bNext c.bPrev 0 (c.hashBuffer index) l ∧
      ∀ bh, bh ∈ l ↔ member bh ∧ c.chainIndex bh = index

structure SameChains (c d : Buffers) : Prop where
  next : d.bNext = c.bNext
  prev : d.bPrev = c.bPrev
  hash : d.hashBuffer = c.hashBuffer

lemma SameChains.trans (first : SameChains c d) (second : SameChains d after) :
    SameChains c after :=
  ⟨second.next.trans first.next, second.prev.trans first.prev, second.hash.trans first.hash⟩

lemma SameChains.chained (same : SameChains c d) (chained : Chained member c)
    (labels : ∀ bh, member bh → d.chainIndex bh = c.chainIndex bh) : Chained member d := by
  intro index small
  obtain ⟨l, nodup, link, isMember⟩ := chained index small
  refine ⟨l, nodup, ?_, fun bh => (isMember bh).trans ?_⟩
  · rw [same.next, same.prev, same.hash]
    exact link
  · exact and_congr_right fun inChain => by rw [labels bh inChain]

lemma Chained.congr {other : Nat → Prop} (chained : Chained member c)
    (same : ∀ bh, member bh ↔ other bh) : Chained other c := by
  intro index small
  obtain ⟨l, nodup, link, isMember⟩ := chained index small
  exact ⟨l, nodup, link, fun bh => (isMember bh).trans (and_congr_left fun _ => same bh)⟩

lemma ne_of_chains {l other : List Nat} {index indexToo node nodeToo : Nat}
    (isMember : ∀ bh, bh ∈ l ↔ member bh ∧ c.chainIndex bh = index)
    (isMemberToo : ∀ bh, bh ∈ other ↔ member bh ∧ c.chainIndex bh = indexToo)
    (ne : index ≠ indexToo) (inChain : node ∈ l) (inChainToo : nodeToo ∈ other) :
    node ≠ nodeToo := by
  rintro rfl
  exact ne (((isMember node).mp inChain).2.symm.trans ((isMemberToo node).mp inChainToo).2)

lemma next_unlinkPrev_self : (c.unlinkPrev bh).bNext bh = c.bNext bh := by
  unfold unlinkPrev
  split_ifs
  · show update c.bNext (c.bPrev bh) (c.bNext bh) bh = c.bNext bh
    rw [update_apply]
    split_ifs <;> rfl
  · rfl

lemma prev_unlinkNext_self (notSelf : c.bNext bh ≠ bh) :
    (c.unlinkNext bh).bPrev bh = c.bPrev bh := by
  unfold unlinkNext
  split_ifs
  · exact update_of_ne notSelf.symm _ _
  · rfl

structure SameLabels (c d : Buffers) : Prop where
  dev : d.bDev = c.bDev
  block : d.bBlocknr = c.bBlocknr
  count : d.bCount = c.bCount

lemma SameLabels.trans (first : SameLabels c d) (second : SameLabels d after) :
    SameLabels c after :=
  ⟨second.dev.trans first.dev, second.block.trans first.block, second.count.trans first.count⟩

lemma SameLabels.chainIndex (same : SameLabels c d) (bh : Nat) :
    d.chainIndex bh = c.chainIndex bh := by
  unfold Buffers.chainIndex
  rw [same.dev, same.block]

lemma sameLabels_ite {cond : Prop} [Decidable cond] (same : SameLabels c d) :
    SameLabels c (if cond then d else c) := by
  split_ifs
  · exact same
  · exact ⟨rfl, rfl, rfl⟩

lemma sameLabels_unchain : SameLabels c (c.unchain bh) := by
  have next : SameLabels c (c.unlinkNext bh) := sameLabels_ite ⟨rfl, rfl, rfl⟩
  have prev : ∀ d : Buffers, SameLabels d (d.unlinkPrev bh) :=
    fun _ => sameLabels_ite ⟨rfl, rfl, rfl⟩
  have head : ∀ d : Buffers, SameLabels d (d.unlinkHead bh) :=
    fun _ => sameLabels_ite ⟨rfl, rfl, rfl⟩
  exact (next.trans (prev _)).trans (head _)

lemma prev_unchain : (c.unchain bh).bPrev =
    if c.bNext bh ≠ 0 then update c.bPrev (c.bNext bh) (c.bPrev bh) else c.bPrev := by
  unfold unchain unlinkHead unlinkPrev unlinkNext
  split_ifs <;> rfl

lemma next_unchain (notSelf : c.bNext bh ≠ bh) : (c.unchain bh).bNext =
    if c.bPrev bh ≠ 0 then update c.bNext (c.bPrev bh) (c.bNext bh) else c.bNext := by
  have head : ∀ d : Buffers, (d.unlinkHead bh).bNext = d.bNext := fun d => by
    unfold unlinkHead
    split_ifs <;> rfl
  have eqNext : (c.unlinkNext bh).bNext = c.bNext := by
    unfold unlinkNext
    split_ifs <;> rfl
  have prev : ∀ d : Buffers, (d.unlinkPrev bh).bNext =
      if d.bPrev bh ≠ 0 then update d.bNext (d.bPrev bh) (d.bNext bh) else d.bNext := by
    intro d
    unfold unlinkPrev
    split_ifs <;> rfl
  unfold unchain
  rw [head, prev, prev_unlinkNext_self notSelf, eqNext]

lemma hash_unchain : (c.unchain bh).hashBuffer = update c.hashBuffer (c.chainIndex bh)
      (if c.hashBuffer (c.chainIndex bh) = bh then c.bNext bh
        else c.hashBuffer (c.chainIndex bh)) := by
  have cut : ((c.unlinkNext bh).unlinkPrev bh).hashBuffer = c.hashBuffer := by
    unfold unlinkPrev unlinkNext
    split_ifs <;> rfl
  have isNext : ((c.unlinkNext bh).unlinkPrev bh).bNext bh = c.bNext bh := by
    rw [next_unlinkPrev_self]
    unfold unlinkNext
    split_ifs <;> rfl
  have labels : ((c.unlinkNext bh).unlinkPrev bh).chainIndex bh = c.chainIndex bh := by
    have next : SameLabels c (c.unlinkNext bh) := sameLabels_ite ⟨rfl, rfl, rfl⟩
    have prev : SameLabels (c.unlinkNext bh) ((c.unlinkNext bh).unlinkPrev bh) :=
      sameLabels_ite ⟨rfl, rfl, rfl⟩
    exact (next.trans prev).chainIndex bh
  have head : ∀ d : Buffers, (d.unlinkHead bh).hashBuffer = update d.hashBuffer (d.chainIndex bh)
        (if d.hashBuffer (d.chainIndex bh) = bh then d.bNext bh
          else d.hashBuffer (d.chainIndex bh)) := by
    intro d
    unfold unlinkHead
    show (if d.hashBuffer (d.chainIndex bh) = bh then d.setHash (d.bDev bh) (d.bBlocknr bh) _
      else d).hashBuffer = _
    split_ifs
    · rfl
    · exact (update_eq_self _ _).symm
  unfold unchain
  rw [head, cut, isNext, labels]

lemma Chained.unchain (chained : Chained member c) (inChain : member bh) :
    Chained (fun other => member other ∧ other ≠ bh) (c.unchain bh) := by
  obtain ⟨own, ownNodup, ownLinked, isOwn⟩ := chained _ (c.chainIndex_lt bh)
  have isMember := (isOwn bh).mpr ⟨inChain, rfl⟩
  have notSelf := ownLinked.next_ne ownNodup isMember
  have ne0 : (0 : Nat) ∉ own := fun isNull => ownLinked.ne_null isNull rfl
  intro index small
  rcases eq_or_ne index (c.chainIndex bh) with rfl | ne
  · refine ⟨own.erase bh, ownNodup.erase bh, ?_, ?_⟩
    · rw [next_unchain notSelf, prev_unchain, hash_unchain, update_self]
      exact ownLinked.erase ownNodup ne0 isMember
    intro other
    rw [ownNodup.mem_erase_iff, isOwn, sameLabels_unchain.chainIndex]
    tauto
  obtain ⟨l, nodup, link, isIn⟩ := chained index small
  refine ⟨l, nodup, ?_, ?_⟩
  · rw [next_unchain notSelf, prev_unchain, hash_unchain, update_of_ne ne]
    refine link.congr (fun node inOther => ?_) (fun node inOther => ?_)
    · split_ifs with hasPrev
      · have inOwn := (ownLinked.prev_mem isMember).resolve_left hasPrev
        exact update_of_ne (ne_of_chains isIn isOwn ne inOther inOwn) _ _
      · rfl
    split_ifs with hasNext
    · have inOwn := (ownLinked.next_mem isMember).resolve_left hasNext
      exact update_of_ne (ne_of_chains isIn isOwn ne inOther inOwn) _ _
    · rfl
  · intro other
    have away : c.chainIndex other = index → other ≠ bh := by
      rintro atIndex rfl
      exact ne atIndex.symm
    rw [isIn, sameLabels_unchain.chainIndex]
    tauto

lemma sameChains_unchain (next : c.bNext bh = 0) (prev : c.bPrev bh = 0)
    (notHead : c.hashBuffer (c.chainIndex bh) ≠ bh) (ne0 : bh ≠ 0) :
    SameChains c (c.unchain bh) := by
  refine ⟨?_, ?_, ?_⟩
  · rw [next_unchain (by rw [next]; exact ne0.symm), if_neg (not_not.mpr prev)]
  · rw [prev_unchain, if_neg (not_not.mpr next)]
  · rw [hash_unchain, if_neg notHead]
    exact update_eq_self _ _

lemma sameLabels_clearLinks : SameLabels c (c.clearLinks bh) := ⟨rfl, rfl, rfl⟩

lemma sameLabels_pushHash : SameLabels c (c.pushHash bh) := ⟨rfl, rfl, rfl⟩

section

variable (chained : Chained member c)
include chained

lemma Chained.push (out : ¬member bh) (ne0 : bh ≠ 0) :
    Chained (fun other => member other ∨ other = bh) ((c.clearLinks bh).pushHash bh) := by
  obtain ⟨own, ownNodup, ownLinked, isOwn⟩ := chained _ (c.chainIndex_lt bh)
  have next : ((c.clearLinks bh).pushHash bh).bNext =
      update c.bNext bh (c.hashBuffer (c.chainIndex bh)) := by
    show update (update c.bNext bh 0) bh _ = _
    rw [update_idem]
    rfl
  have prev : ((c.clearLinks bh).pushHash bh).bPrev =
      update (update c.bPrev bh 0) (c.hashBuffer (c.chainIndex bh)) bh := rfl
  have hash : ((c.clearLinks bh).pushHash bh).hashBuffer =
      update c.hashBuffer (c.chainIndex bh) bh := rfl
  have labels : SameLabels c ((c.clearLinks bh).pushHash bh) :=
    sameLabels_clearLinks.trans sameLabels_pushHash
  generalize (c.clearLinks bh).pushHash bh = pushed at next prev hash labels ⊢
  have notIn : ∀ {l : List Nat} {index : Nat},
      (∀ node, node ∈ l ↔ member node ∧ c.chainIndex node = index) → bh ∉ l :=
    fun isIn inList => out ((isIn bh).mp inList).1
  intro index small
  rw [next, prev, hash]
  rcases eq_or_ne index (c.chainIndex bh) with rfl | ne
  · refine ⟨bh :: own, nodup_cons.mpr ⟨notIn isOwn, ownNodup⟩, ?_, ?_⟩
    · rw [update_self]
      exact ownLinked.push ownNodup (notIn isOwn) ne0
    intro other
    have isIndex : other = bh → c.chainIndex other = c.chainIndex bh := congrArg _
    rw [mem_cons, isOwn, labels.chainIndex]
    tauto
  obtain ⟨l, nodup, link, isIn⟩ := chained index small
  refine ⟨l, nodup, ?_, ?_⟩
  · rw [update_of_ne ne]
    refine link.congr (fun node inOther => ?_) (fun node inOther => ?_)
    all_goals have notBh := ne_of_mem_of_not_mem inOther (notIn isIn)
    · exact update_of_ne notBh _ _
    · rw [update_of_ne, update_of_ne notBh]
      rw [ownLinked.start_eq]
      cases own with
      | nil => exact link.ne_null inOther
      | cons first rest =>
        exact ne_of_chains isIn isOwn ne inOther mem_cons_self
  · intro other
    have away : c.chainIndex other = index → other ≠ bh := by
      rintro atIndex rfl
      exact ne atIndex.symm
    rw [isIn, labels.chainIndex]
    tauto

lemma Chained.head {index : Nat} (small : index < nrHashBuffer) :
    c.hashBuffer index = 0 ∨ member (c.hashBuffer index) := by
  obtain ⟨l, -, link, isIn⟩ := chained index small
  rw [link.start_eq]
  cases l with
  | nil => exact .inl rfl
  | cons first rest => exact .inr ((isIn first).mp mem_cons_self).1

lemma Chained.neighbours (inChain : member bh) :
    (c.bNext bh = 0 ∨ member (c.bNext bh)) ∧ (c.bPrev bh = 0 ∨ member (c.bPrev bh)) := by
  obtain ⟨l, -, link, isIn⟩ := chained _ (c.chainIndex_lt bh)
  have isMember : bh ∈ l := (isIn bh).mpr ⟨inChain, rfl⟩
  exact ⟨(link.next_mem isMember).imp_right fun inList => ((isIn _).mp inList).1,
    (link.prev_mem isMember).imp_right fun inList => ((isIn _).mp inList).1⟩

end

def requeue (dev block bh : Nat) (c : Buffers) : Buffers :=
  ((c.unlinkFree bh).setBlock dev block bh).insertIntoFree bh

lemma sameChains_unlinkFree : SameChains c (c.unlinkFree bh) := ⟨rfl, rfl, rfl⟩

lemma sameChains_requeue : SameChains c (c.requeue dev block bh) := ⟨rfl, rfl, rfl⟩

lemma dev_requeue : (c.requeue dev block bh).bDev = update c.bDev bh (dev % 2 ^ 16) := rfl

lemma block_requeue : (c.requeue dev block bh).bBlocknr = update c.bBlocknr bh block := rfl

lemma count_requeue : (c.requeue dev block bh).bCount = c.bCount := rfl

def relabel (dev block bh : Nat) (c : Buffers) : Buffers :=
  ((c.takeFree bh).unchain bh).requeue dev block bh

lemma assign_eq : c.assign dev block bh = (c.relabel dev block bh).insertIntoHash bh := by
  unfold assign relabel requeue insertIntoQueues removeFromQueues unchain
  rfl

lemma dev_relabel : (c.relabel dev block bh).bDev = update c.bDev bh (dev % 2 ^ 16) := by
  unfold relabel
  rw [dev_requeue, sameLabels_unchain.dev]
  rfl

lemma block_relabel :
    (c.relabel dev block bh).bBlocknr = update c.bBlocknr bh block := by
  unfold relabel
  rw [block_requeue, sameLabels_unchain.block]
  rfl

lemma count_relabel : (c.relabel dev block bh).bCount = update c.bCount bh 1 := by
  unfold relabel
  rw [count_requeue, sameLabels_unchain.count]
  rfl

lemma sameLabels_insertIntoHash : SameLabels c (c.insertIntoHash bh) := by
  unfold insertIntoHash
  split_ifs
  · exact sameLabels_clearLinks.trans sameLabels_pushHash
  · exact sameLabels_clearLinks

lemma dev_assign : (c.assign dev block bh).bDev = update c.bDev bh (dev % 2 ^ 16) := by
  rw [assign_eq, sameLabels_insertIntoHash.dev, dev_relabel]

lemma block_assign : (c.assign dev block bh).bBlocknr = update c.bBlocknr bh block := by
  rw [assign_eq, sameLabels_insertIntoHash.block, block_relabel]

lemma count_assign : (c.assign dev block bh).bCount = update c.bCount bh 1 := by
  rw [assign_eq, sameLabels_insertIntoHash.count, count_relabel]

structure RingInside (isBuffer : Nat → Prop) (c : Buffers) : Prop where
  head : isBuffer c.freeList
  next : ∀ bh, isBuffer bh → isBuffer (c.bNextFree bh)
  prev : ∀ bh, isBuffer bh → isBuffer (c.bPrevFree bh)

lemma RingInside.of_sameRing (inside : RingInside isBuffer c) (same : SameRing c d) :
    RingInside isBuffer d :=
  ⟨same.head ▸ inside.head, same.next ▸ inside.next, same.prev ▸ inside.prev⟩

lemma update_inside {target : Nat → Prop} {links : Nat → Nat} {node value : Nat}
    (inside : ∀ bh, isBuffer bh → target (links bh)) (isValue : target value) :
    ∀ bh, isBuffer bh → target (update links node value bh) := by
  intro bh inRing
  rcases eq_or_ne bh node with rfl | ne
  · rwa [update_self]
  · rw [update_of_ne ne]
    exact inside bh inRing

lemma RingInside.unlinkFree (inside : RingInside isBuffer c) (inRing : isBuffer bh) :
    RingInside isBuffer (c.unlinkFree bh) := by
  constructor
  · rw [head_unlinkFree]
    split_ifs
    · exact inside.next bh inRing
    · exact inside.head
  · rw [next_unlinkFree]
    exact update_inside inside.next (inside.next bh inRing)
  · rw [prev_unlinkFree]
    exact update_inside inside.prev (inside.prev bh inRing)

lemma RingInside.insertIntoFree (inside : RingInside isBuffer c) (inRing : isBuffer bh) :
    RingInside isBuffer (c.insertIntoFree bh) := by
  have next : ∀ node, isBuffer node → isBuffer (update c.bNextFree bh c.freeList node) :=
    update_inside inside.next inside.head
  exact ⟨inside.head, update_inside next inRing, update_inside inside.prev (next _ inside.head)⟩

structure CacheSound (isBuffer : Nat → Prop) (c : Buffers) : Prop where
  chained : Chained (fun bh => isBuffer bh ∧ c.bDev bh ≠ 0) c
  single : ∀ bh other, isBuffer bh → isBuffer other → c.bDev bh ≠ 0 → c.bDev other = c.bDev bh →
    c.bBlocknr other = c.bBlocknr bh → other = bh
  unlinked : ∀ bh, isBuffer bh → c.bDev bh = 0 → c.bNext bh = 0 ∧ c.bPrev bh = 0
  ring : RingInside isBuffer c

lemma CacheSound.unchain (sound : CacheSound isBuffer c) (ne0 : ¬isBuffer 0)
    (inRing : isBuffer bh) :
    Chained (fun other => (isBuffer other ∧ c.bDev other ≠ 0) ∧ other ≠ bh) (c.unchain bh) ∧
      ∀ other, isBuffer other → c.bDev other = 0 →
        (c.unchain bh).bNext other = 0 ∧ (c.unchain bh).bPrev other = 0 := by
  have bhNotNull : bh ≠ 0 := fun isNull => ne0 (isNull ▸ inRing)
  by_cases device : c.bDev bh = 0
  · obtain ⟨next, prev⟩ := sound.unlinked bh inRing device
    have notHead : c.hashBuffer (c.chainIndex bh) ≠ bh := by
      intro same
      rcases sound.chained.head (c.chainIndex_lt bh) with isNull | isIn
      · exact bhNotNull (same.symm.trans isNull)
      · rw [same] at isIn
        exact isIn.2 device
    have same := sameChains_unchain next prev notHead bhNotNull
    constructor
    · have kept := same.chained sound.chained fun other _ => sameLabels_unchain.chainIndex other
      refine kept.congr fun other => (and_iff_left_of_imp ?_).symm
      rintro ⟨-, hasDevice⟩ rfl
      exact hasDevice device
    · intro other isOther noDevice
      rw [same.next, same.prev]
      exact sound.unlinked other isOther noDevice
  refine ⟨sound.chained.unchain ⟨inRing, device⟩, fun other isOther noDevice => ?_⟩
  obtain ⟨next, prev⟩ := sound.chained.neighbours ⟨inRing, device⟩
  have notSelf : c.bNext bh ≠ bh := by
    obtain ⟨l, nodup, linked, isIn⟩ := sound.chained _ (c.chainIndex_lt bh)
    exact linked.next_ne nodup ((isIn bh).mpr ⟨⟨inRing, device⟩, rfl⟩)
  -- the neighbours of `bh` have a device, so their links are not those of `other`
  have apart : ∀ link, link = 0 ∨ isBuffer link ∧ c.bDev link ≠ 0 → other ≠ link := by
    rintro link (rfl | ⟨-, hasDevice⟩) rfl
    · exact ne0 isOther
    · exact hasDevice noDevice
  rw [next_unchain notSelf, prev_unchain]
  obtain ⟨noNext, noPrev⟩ := sound.unlinked other isOther noDevice
  constructor
  · split_ifs
    · rw [update_of_ne (apart _ prev), noNext]
    · exact noNext
  split_ifs
  · rw [update_of_ne (apart _ next), noPrev]
  · exact noPrev

lemma CacheSound.takeFree (sound : CacheSound isBuffer c) (bh : Nat) :
    CacheSound isBuffer (c.takeFree bh) :=
  ⟨SameChains.chained ⟨rfl, rfl, rfl⟩ sound.chained fun _ _ => rfl, sound.single, sound.unlinked,
    sound.ring.of_sameRing ⟨rfl, rfl, rfl⟩⟩

lemma links_assign (device : dev % 2 ^ 16 ≠ 0) :
    c.assign dev block bh = ((c.relabel dev block bh).clearLinks bh).pushHash bh := by
  rw [assign_eq]
  refine if_pos ?_
  show (c.relabel dev block bh).bDev bh ≠ 0
  rw [dev_relabel, update_self]
  exact device

section

variable (sound : CacheSound isBuffer c) (ne0 : ¬isBuffer 0) (inRing : isBuffer bh)
include sound ne0 inRing

lemma CacheSound.links_assign (device : dev % 2 ^ 16 ≠ 0) :
    Chained (fun other => isBuffer other ∧ (c.assign dev block bh).bDev other ≠ 0)
        (c.assign dev block bh) ∧ ∀ other, isBuffer other → (c.assign dev block bh).bDev other = 0 →
        (c.assign dev block bh).bNext other = 0 ∧ (c.assign dev block bh).bPrev other = 0 := by
  have bhNotNull : bh ≠ 0 := fun isNull => ne0 (isNull ▸ inRing)
  obtain ⟨chained, cut⟩ := (sound.takeFree bh).unchain ne0 inRing
  have relabelled : Chained (fun other => (isBuffer other ∧ c.bDev other ≠ 0) ∧ other ≠ bh)
      (c.relabel dev block bh) := by
    refine sameChains_requeue.chained chained fun other isIn => ?_
    unfold chainIndex
    rw [dev_requeue, block_requeue, update_of_ne isIn.2, update_of_ne isIn.2]
  have pushed := relabelled.push (fun both => both.2 rfl) bhNotNull
  have first := relabelled.head ((c.relabel dev block bh).chainIndex_lt bh)
  rw [dev_assign, Buffers.links_assign device]
  constructor
  · refine pushed.congr fun other => ?_
    rcases eq_or_ne other bh with rfl | ne
    · rw [update_self]
      exact iff_of_true (.inr rfl) ⟨inRing, device⟩
    rw [update_of_ne ne]
    constructor
    · rintro (⟨isIn, -⟩ | same)
      · exact isIn
      · exact absurd same ne
    · exact fun isIn => .inl ⟨isIn, ne⟩
  · intro other isOther noDevice
    have ne : other ≠ bh := by
      rintro rfl
      rw [update_self] at noDevice
      exact device noDevice
    rw [update_of_ne ne] at noDevice
    obtain ⟨noNext, noPrev⟩ := cut other isOther noDevice
    have notFirst : other ≠ (c.relabel dev block bh).hashBuffer
        ((c.relabel dev block bh).chainIndex bh) := by
      intro same
      rw [← same] at first
      rcases first with isNull | isIn
      · exact ne0 (isNull ▸ isOther)
      · exact isIn.1.2 noDevice
    constructor
    · show update (update (c.relabel dev block bh).bNext bh 0) bh _ other = 0
      rw [update_of_ne ne, update_of_ne ne]
      exact noNext
    show update (update (c.relabel dev block bh).bPrev bh 0)
      ((c.relabel dev block bh).hashBuffer ((c.relabel dev block bh).chainIndex bh)) bh other = 0
    rw [update_of_ne notFirst, update_of_ne ne]
    exact noPrev

lemma CacheSound.assign (device : dev ≠ 0) (short : dev < 2 ^ 16)
    (absent : ∀ other, isBuffer other → ¬(c.bDev other = dev ∧ c.bBlocknr other = block)) :
    CacheSound isBuffer (c.assign dev block bh) := by
  have isDev := Nat.mod_eq_of_lt short
  obtain ⟨chained, cut⟩ := sound.links_assign ne0 inRing (isDev.symm ▸ device)
  refine ⟨chained, ?_, cut,
    ((sound.ring.unlinkFree inRing).insertIntoFree inRing).of_sameRing sameRing_assign⟩
  intro one other isOne isOther hasDevice sameDev sameBlock
  rw [dev_assign, isDev] at hasDevice sameDev
  rw [block_assign] at sameBlock
  rcases eq_or_ne one bh with rfl | oneOther
  · rcases eq_or_ne other one with same | ne
    · exact same
    · rw [update_self, update_of_ne ne] at sameDev sameBlock
      exact absurd ⟨sameDev, sameBlock⟩ (absent other isOther)
  rw [update_of_ne oneOther] at hasDevice sameDev sameBlock
  rcases eq_or_ne other bh with rfl | ne
  · rw [update_self] at sameDev sameBlock
    exact absurd ⟨sameDev.symm, sameBlock.symm⟩ (absent one isOne)
  · rw [update_of_ne ne] at sameDev sameBlock
    exact sound.single one other isOne isOther hasDevice sameDev sameBlock

end

lemma findFrom_spec {before first found : Nat} {l : List Nat}
    (link : Doubly 0 c.bNext c.bPrev before first l)
    (ran : findFrom c dev block fuel first = some found) :
    found ∈ l ∧ c.bDev found = dev ∧ c.bBlocknr found = block ∨
      found = 0 ∧ ∀ bh ∈ l, ¬(c.bDev bh = dev ∧ c.bBlocknr bh = block) := by
  induction l generalizing fuel before first with
  | nil =>
    cases fuel with
    | zero => cases ran
    | succ fuel =>
      rw [findFrom, if_pos (show first = 0 from link)] at ran
      refine .inr ⟨(some.inj ran).symm, ?_⟩
      intro bh member
      cases member
  | cons node rest ih =>
    obtain ⟨rfl, ne0, -, linkRest⟩ := link
    cases fuel with
    | zero => cases ran
    | succ fuel =>
      rw [findFrom, if_neg ne0] at ran
      split_ifs at ran with isFound
      · cases ran
        exact .inl ⟨mem_cons_self, isFound⟩
      rw [forall_mem_cons]
      rcases ih linkRest ran with ⟨inRest, isBlock⟩ | ⟨isNull, none⟩
      · exact .inl ⟨mem_cons_of_mem _ inRest, isBlock⟩
      · exact .inr ⟨isNull, isFound, none⟩

lemma CacheSound.findBuffer_spec {found : Nat} (sound : CacheSound isBuffer c) (device : dev ≠ 0)
    (ran : findBuffer fuel dev block c = some found) :
    isBuffer found ∧ c.bDev found = dev ∧ c.bBlocknr found = block ∨
      found = 0 ∧ ∀ bh, isBuffer bh → ¬(c.bDev bh = dev ∧ c.bBlocknr bh = block) := by
  obtain ⟨l, -, link, isIn⟩ := sound.chained (hashfn dev block) (Nat.mod_lt _ (by decide))
  rcases findFrom_spec link ran with ⟨inChain, isBlock⟩ | ⟨isNull, none⟩
  · exact .inl ⟨((isIn found).mp inChain).1.1, isBlock⟩
  refine .inr ⟨isNull, fun bh inRing isBlock => none bh ?_ isBlock⟩
  refine (isIn bh).mpr ⟨⟨inRing, isBlock.1.symm ▸ device⟩, ?_⟩
  unfold chainIndex
  rw [isBlock.1, isBlock.2]

structure OnePerBlock (isBuffer : Nat → Prop) (c : Buffers) : Prop where
  chained : Chained (fun bh => isBuffer bh ∧ c.bDev bh ≠ 0) c
  single : ∀ bh other, isBuffer bh → isBuffer other → c.bDev bh ≠ 0 → c.bDev other = c.bDev bh →
    c.bBlocknr other = c.bBlocknr bh → other = bh

def KeepsHeld (isBuffer : Nat → Prop) (call : BufferCall) (c : Buffers) (result : Nat)
    (after : Buffers) : Prop :=
  ∀ bh, isBuffer bh → 0 < c.bCount bh →
    after.bDev bh = c.bDev bh ∧ after.bBlocknr bh = c.bBlocknr bh ∧
      ∀ dev block, call = .getblk dev block → dev ≠ 0 → c.bDev bh = dev → c.bBlocknr bh = block →
        result = bh

section

variable (sound : CacheSound isBuffer c)
include sound

lemma CacheSound.onePerBlock : OnePerBlock isBuffer c := ⟨sound.chained, sound.single⟩

lemma CacheSound.setCount (bh value : Nat) : CacheSound isBuffer (c.setCount bh value) :=
  ⟨SameChains.chained ⟨rfl, rfl, rfl⟩ sound.chained fun _ _ => rfl, sound.single, sound.unlinked,
    sound.ring.of_sameRing ⟨rfl, rfl, rfl⟩⟩

lemma CacheSound.chooseFree (ne0 : bh ≠ 0)
    (chosen : c.chooseFree fuel c.freeList 0 = some bh) : isBuffer bh ∧ c.bCount bh = 0 :=
  (chooseFree_spec sound.ring.next sound.ring.head (Or.inl rfl) chosen).resolve_left ne0

end

lemma brelse_cases (ran : c.brelse bh = some after) :
    after = c ∨ after = c.setCount bh ((c.bCount bh + 255) % 256) := by
  unfold brelse at ran
  split_ifs at ran
  · cases ran
    exact .inl rfl
  · cases ran
    exact .inr rfl

lemma run_brelse {result : Nat} (ran : (BufferCall.brelse bh).run fuel c = some (result, after)) :
    after = c ∨ after = c.setCount bh ((c.bCount bh + 255) % 256) := by
  obtain ⟨_, freed, same⟩ := map_eq_some_iff.mp ran
  cases same
  exact brelse_cases freed

lemma CacheSound.keepsHeld {call : BufferCall} {result : Nat} (sound : CacheSound isBuffer c)
    (ne0 : ¬isBuffer 0) (ran : call.run fuel c = some (result, after)) :
    KeepsHeld isBuffer call c result after := by
  intro held isHeld cnt
  cases call with
  | brelse bh =>
    rcases run_brelse ran with rfl | rfl
    · exact ⟨rfl, rfl, nofun⟩
    · exact ⟨rfl, rfl, nofun⟩
  | getblk dev block =>
    obtain ⟨resultNotNull, -, ⟨found, rfl⟩ | ⟨found, chosen, rfl⟩⟩ := getblk_inv ran
    · refine ⟨rfl, rfl, ?_⟩
      rintro _ _ ⟨⟩ device isDev isBlock
      rcases sound.findBuffer_spec device found with ⟨inRing, sameDev, sameBlock⟩ | ⟨isNull, -⟩
      · exact sound.single held result isHeld inRing (isDev.symm ▸ device)
          (sameDev.trans isDev.symm) (sameBlock.trans isBlock.symm)
      · exact absurd isNull resultNotNull
    have isFree := (sound.chooseFree resultNotNull chosen).2
    have ne : held ≠ result := by
      rintro rfl
      exact cnt.ne' isFree
    rw [dev_assign, block_assign, update_of_ne ne, update_of_ne ne]
    refine ⟨rfl, rfl, ?_⟩
    rintro _ _ ⟨⟩ device isDev isBlock
    rcases sound.findBuffer_spec device found with ⟨isBufferNull, -⟩ | ⟨-, none⟩
    · exact absurd isBufferNull ne0
    · exact absurd ⟨isDev, isBlock⟩ (none held isHeld)

end Buffers

def BufferCall.OnDevice : BufferCall → Prop
  | .getblk dev _ => dev ≠ 0 ∧ dev < 2 ^ 16
  | .brelse _ => True

def BufferCall.OffDevice : BufferCall → Prop
  | .getblk dev _ => dev % 2 ^ 16 = 0
  | .brelse _ => True

namespace Buffers

variable {n fuel dev block bh start result : Nat} {c d after : Buffers} {isBuffer : Nat → Prop}
  {call : BufferCall}

lemma CacheSound.run (sound : CacheSound isBuffer c) (ne0 : ¬isBuffer 0) (onDevice : call.OnDevice)
    (ran : call.run fuel c = some (result, after)) : CacheSound isBuffer after := by
  cases call with
  | brelse bh =>
    rcases run_brelse ran with rfl | rfl
    · exact sound
    · exact sound.setCount _ _
  | getblk dev block =>
    obtain ⟨resultNotNull, -, ⟨-, rfl⟩ | ⟨found, chosen, rfl⟩⟩ := getblk_inv ran
    · exact sound.setCount _ _
    refine sound.assign ne0 (sound.chooseFree resultNotNull chosen).1 onDevice.1
      onDevice.2 ?_
    rcases sound.findBuffer_spec onDevice.1 found with ⟨isBufferNull, -⟩ | ⟨-, none⟩
    · exact absurd isBufferNull ne0
    · exact none

def removed (bh : Nat) (c : Buffers) : Buffers := (c.takeFree bh).removeFromQueues bh

def FollowsNull (fuel : Nat) (call : BufferCall) (c : Buffers) : Prop :=
  match call with
  | .brelse _ => False
  | .getblk dev block =>
      findBuffer fuel dev block c = some 0 ∧ ∃ bh, c.chooseFree fuel c.freeList 0 = some bh ∧
        (c.bPrevFree bh = 0 ∨ c.bNextFree bh = 0 ∨ (c.removed bh).freeList = 0 ∨
          (c.removed bh).bPrevFree (c.removed bh).freeList = 0 ∨
            dev % 2 ^ 16 ≠ 0 ∧ (c.removed bh).hash (dev % 2 ^ 16) block = 0)

structure Bare (isBuffer : Nat → Prop) (c : Buffers) : Prop where
  unhashed : c.Unhashed
  label : ∀ bh, isBuffer bh → c.bDev bh = 0
  links : ∀ bh, isBuffer bh → c.bNext bh = 0 ∧ c.bPrev bh = 0
  ring : RingInside isBuffer c

lemma Bare.cacheSound (bare : Bare isBuffer c) : CacheSound isBuffer c := by
  refine ⟨?_, ?_, fun bh inRing _ => bare.links bh inRing, bare.ring⟩
  · intro index _
    refine ⟨[], nodup_nil, bare.unhashed index, fun bh => iff_of_false not_mem_nil ?_⟩
    rintro ⟨⟨inRing, device⟩, -⟩
    exact device (bare.label bh inRing)
  · intro bh _ inRing _ device
    exact absurd (bare.label bh inRing) device

lemma bare_bufferInitOf {stale : Nat → Nat} (pos : 0 < n) :
    Bare (IsBuffer n start) (bufferInitOf stale n start) := by
  have sound : RingSound n (IsBuffer n start) (bufferInitOf stale n start) :=
    ringSound_bufferInitOf pos
  exact ⟨fun _ => rfl, fun _ _ => rfl, fun _ _ => ⟨rfl, rfl⟩, sound.head_buffer pos,
    fun _ => sound.next_buffer, fun _ => sound.prev_buffer⟩

lemma Bare.unchain (bare : Bare isBuffer c) (ne0 : ¬isBuffer 0) (inRing : isBuffer bh) :
    SameChains c ((c.takeFree bh).unchain bh) := by
  have bhNotNull : bh ≠ 0 := fun isNull => ne0 (isNull ▸ inRing)
  have taken : SameChains c (c.takeFree bh) := ⟨rfl, rfl, rfl⟩
  refine taken.trans (sameChains_unchain (bare.links bh inRing).1 (bare.links bh inRing).2 ?_
    bhNotNull)
  exact (bare.unhashed _).trans_ne bhNotNull.symm

lemma removed_eq : c.removed bh = ((c.takeFree bh).unchain bh).unlinkFree bh := rfl

lemma RingInside.removed (inside : RingInside isBuffer c) (inRing : isBuffer bh) :
    RingInside isBuffer (c.removed bh) := by
  rw [removed_eq]
  exact (inside.of_sameRing sameRing_unchain).unlinkFree inRing

lemma Bare.followsNull_iff (bare : Bare isBuffer c) (ne0 : ¬isBuffer 0)
    (ran : call.run fuel c = some (result, after)) : ¬FollowsNull fuel call c ↔ call.OffDevice := by
  cases call with
  | brelse bh => exact iff_of_true not_false trivial
  | getblk dev block =>
    obtain ⟨resultNotNull, -, ⟨found, -⟩ | ⟨found, chosen, -⟩⟩ := getblk_inv ran
    · exact absurd (bare.unhashed.findBuffer found) resultNotNull
    have inRing := (bare.cacheSound.chooseFree resultNotNull chosen).1
    have nonnull : ∀ bh, isBuffer bh → bh ≠ 0 := fun bh inRing isNull =>
      ne0 (isNull ▸ inRing)
    have inside := bare.ring.removed inRing
    rw [← not_iff_not, not_not]
    constructor
    · rintro ⟨-, bh, isBh, prev | next | head | prevHead | ⟨device, -⟩⟩
      all_goals try cases chosen.symm.trans isBh
      · exact absurd prev (nonnull _ (bare.ring.prev _ inRing))
      · exact absurd next (nonnull _ (bare.ring.next _ inRing))
      · exact absurd head (nonnull _ inside.head)
      · exact absurd prevHead (nonnull _ (inside.prev _ inside.head))
      · exact device
    · intro device
      refine ⟨found, result, chosen, .inr (.inr (.inr (.inr ⟨device, ?_⟩)))⟩
      unfold hash
      rw [removed_eq, sameChains_unlinkFree.hash, (bare.unchain ne0 inRing).hash]
      exact bare.unhashed _

lemma Bare.run (bare : Bare isBuffer c) (ne0 : ¬isBuffer 0) (offDevice : call.OffDevice)
    (ran : call.run fuel c = some (result, after)) : Bare isBuffer after := by
  cases call with
  | brelse bh =>
    rcases run_brelse ran with rfl | rfl
    · exact bare
    · exact ⟨bare.unhashed, bare.label, bare.links, bare.ring.of_sameRing ⟨rfl, rfl, rfl⟩⟩
  | getblk dev block =>
    obtain ⟨resultNotNull, -, ⟨found, -⟩ | ⟨-, chosen, rfl⟩⟩ := getblk_inv ran
    · exact absurd (bare.unhashed.findBuffer found) resultNotNull
    have inRing := (bare.cacheSound.chooseFree resultNotNull chosen).1
    have same : SameChains c (c.relabel dev block result) :=
      (bare.unchain ne0 inRing).trans sameChains_requeue
    have cleared : c.assign dev block result =
        (c.relabel dev block result).clearLinks result := by
      rw [assign_eq]
      refine if_neg (not_not.mpr ?_)
      show (c.relabel dev block result).bDev result = 0
      rw [dev_relabel, update_self]
      exact offDevice
    have zero : ∀ {links : Nat → Nat}, (∀ bh, isBuffer bh → links bh = 0) → ∀ bh,
        isBuffer bh → update links result 0 bh = 0 :=
      fun none => @update_inside _ (· = 0) _ _ _ none rfl
    refine ⟨?_, ?_, ?_, ?_⟩
    · intro index
      rw [cleared]
      show (c.relabel dev block result).hashBuffer index = 0
      rw [same.hash]
      exact bare.unhashed index
    · rw [dev_assign, show dev % 2 ^ 16 = 0 from offDevice]
      exact zero bare.label
    · intro bh isBh
      rw [cleared]
      show update (c.relabel dev block result).bNext result 0 bh = 0 ∧
        update (c.relabel dev block result).bPrev result 0 bh = 0
      rw [same.next, same.prev]
      exact ⟨zero (fun bh isBh => (bare.links bh isBh).1) bh isBh,
        zero (fun bh isBh => (bare.links bh isBh).2) bh isBh⟩
    · exact ((bare.ring.unlinkFree inRing).insertIntoFree inRing).of_sameRing sameRing_assign

end Buffers

open Buffers in
/-- In a run from the state `buffer_init` leaves with `n` buffers: if every request is for a
device, then after every call the chains are well formed, no two buffers carry the same block,
and held buffers are found and keep their blocks. No call writes through a null link besides
exactly when no request of the run is for a device. -/
theorem one_buffer_per_block_iff {fuel n start : Nat} {stale : Nat → Nat}
    {calls : List BufferCall} {last : Buffers} {results : List Nat} (positive : 0 < n)
    (placed : 0 < start)
    (returned :
      runSteps (BufferCall.run fuel) calls (bufferInitOf stale n start) = some (results, last)) :
    ((∀ call ∈ calls, call.OnDevice) → AfterEach (BufferCall.run fuel)
        (fun call c result after => OnePerBlock (IsBuffer n start) after ∧
          KeepsHeld (IsBuffer n start) call c result after) calls (bufferInitOf stale n start)) ∧
    (AfterEach (BufferCall.run fuel)
        (fun call c result after => ¬FollowsNull fuel call c ∧
          OnePerBlock (IsBuffer n start) after ∧ KeepsHeld (IsBuffer n start) call c result after)
        calls (bufferInitOf stale n start) ↔
      ∀ call ∈ calls, call.OffDevice) := by
  have bare : Bare (IsBuffer n start) (bufferInitOf stale n start) := bare_bufferInitOf positive
  have notNull : ¬IsBuffer n start 0 := by
    rintro ⟨i, -, _⟩
    omega
  constructor
  · refine afterEach_of_good (fun {call c result after} sound onDevice isStep => ?_) bare.cacheSound
    have kept := CacheSound.run sound notNull onDevice isStep
    exact ⟨⟨kept.onePerBlock, sound.keepsHeld notNull isStep⟩, kept⟩
  rw [← atEach_call_iff returned]
  refine @afterEach_iff_atEach _ _ _ _ _ _ (Bare (IsBuffer n start)) _ _ _ _ ?_ ?_ bare returned
  · intro call c result after bare isStep
    refine ⟨fun holds => (bare.followsNull_iff notNull isStep).mp holds.1, fun offDevice => ?_⟩
    exact ⟨(bare.followsNull_iff notNull isStep).mpr offDevice,
      (bare.run notNull offDevice isStep).cacheSound.onePerBlock,
      bare.cacheSound.keepsHeld notNull isStep⟩
  · intro call c result after bare isStep offDevice
    exact bare.run notNull offDevice isStep

open Buffers in
/-- Two requests for blocks of the disk keep one buffer for each block. -/
theorem one_buffer_twoRequests :
    0 < nrBuffers ∧ AfterEach (BufferCall.run 8)
        (fun call c result after => OnePerBlock (IsBuffer nrBuffers 0x100000) after ∧
          KeepsHeld (IsBuffer nrBuffers 0x100000) call c result after) twoRequests
        (bufferInitOf (fun _ => 0) nrBuffers 0x100000) := by
  obtain ⟨⟨_, _⟩, isRun⟩ := isSome_iff_exists.mp isSome_twoRequests
  refine ⟨by decide, (one_buffer_per_block_iff (by decide) (by decide) isRun).1 ?_⟩
  intro call member
  unfold twoRequests at member
  rw [mem_pair] at member
  rcases member with rfl | rfl
  · exact ⟨by decide, by decide⟩
  · exact ⟨by decide, by decide⟩

open Buffers in
/-- The first request for a block of the disk writes through the null head of an empty chain. -/
theorem null_followed_firstRequest :
    ((BufferCall.getblk 0x310 1).run 8
        (bufferInitOf (fun _ => 0) nrBuffers 0x100000)).isSome = true ∧
      FollowsNull 8 (.getblk 0x310 1) (bufferInitOf (fun _ => 0) nrBuffers 0x100000) := by
  refine ⟨by decide, by decide, 0x100000, by decide, ?_⟩
  exact .inr (.inr (.inr (.inr ⟨by decide, by decide⟩)))

end PrettyOS.Fs
