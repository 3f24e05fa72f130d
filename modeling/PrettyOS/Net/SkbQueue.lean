import PrettyOS.Library.CircularList
import PrettyOS.Library.Runs

/-!
Contract: the packet queues of `net/inet/skbuff.c` and `linux/skbuff.h`.

A `struct sk_buff *` is a number, with `0` for the null pointer. A head is cast to a packet, so it
is a number of the same kind.
-/

namespace PrettyOS.Net

open Library List
open Function

structure SkbLinks where
  next : Nat → Nat
  prev : Nat → Nat

def skbQueueHeadInit (list : Nat) (links : SkbLinks) : SkbLinks :=
  ⟨update links.next list list, update links.prev list list⟩

def skbDequeue (list : Nat) (links : SkbLinks) : Nat × SkbLinks :=
  let rst := links.next list
  if rst = list then (0, links)
  else
    let next := update links.next list (links.next rst)
    let prev := update links.prev (next rst) list
    (rst, ⟨update next rst 0, update prev rst 0⟩)

def skbQueueHead (skh skb : Nat) (links : SkbLinks) : SkbLinks :=
  let next := update links.next skb (links.next skh)
  let prev := update links.prev skb skh
  let prev := update prev (next skb) skb
  ⟨update next (prev skb) skb, prev⟩

def skbQueueTail (skh skb : Nat) (links : SkbLinks) : SkbLinks :=
  let next := update links.next skb skh
  let prev := update links.prev skb (links.prev skh)
  let next := update next (prev skb) skb
  ⟨next, update prev (next skb) skb⟩

def skbUnlink (skb : Nat) (links : SkbLinks) : SkbLinks :=
  let next := links.next skb
  let prev := links.prev skb
  if prev ≠ 0 ∧ next ≠ 0 then
    ⟨update (update links.next prev next) skb 0, update (update links.prev next prev) skb 0⟩
  else links

structure QueuesFor (known : Nat → Prop) (heads : List Nat) (links : SkbLinks)
    (content : Nat → List Nat) : Prop where
  rings : Rings links.next links.prev heads content
  headNotNull : 0 ∉ heads
  notNull : ∀ head ∈ heads, 0 ∉ content head
  unlinked : ∀ skb, known skb → skb ≠ 0 → skb ∉ heads → (∀ head ∈ heads, skb ∉ content head) →
    links.next skb = 0 ∧ links.prev skb = 0

abbrev Queues (heads : List Nat) (links : SkbLinks) (content : Nat → List Nat) : Prop :=
  QueuesFor (fun _ => True) heads links content

structure OffQueues (heads : List Nat) (content : Nat → List Nat) (skb : Nat) : Prop where
  notNull : skb ≠ 0
  notHead : skb ∉ heads
  absent : ∀ head ∈ heads, skb ∉ content head

namespace QueuesFor

variable {known : Nat → Prop} {heads : List Nat} {links links' : SkbLinks}
  {content : Nat → List Nat} {head skb : Nat} {front back : List Nat}

lemma congr {content' : Nat → List Nat} (queues : QueuesFor known heads links content)
    (same : ∀ head ∈ heads, content head = content' head) :
    QueuesFor known heads links content' := by
  refine ⟨⟨fun head isHead => ?_, fun head isHead => ?_, ?_⟩, queues.headNotNull,
    fun head isHead => ?_, fun skb isKnown ne0 notHead absent => ?_⟩
  · rw [← same head isHead]
    exact queues.rings.circular head isHead
  · rw [← same head isHead]
    exact queues.rings.notHeader head isHead
  · intro one isOne two isTwo
    rw [← same one isOne, ← same two isTwo]
    exact queues.rings.apart one isOne two isTwo
  · rw [← same head isHead]
    exact queues.notNull head isHead
  · apply queues.unlinked skb isKnown ne0 notHead
    intro head isHead
    rw [same head isHead]
    exact absent head isHead

section

variable (queues : QueuesFor known heads links content) (isHead : head ∈ heads)
include queues isHead

lemma nodup : (content head).Nodup := (nodup_cons.mp (queues.rings.circular head isHead).nodup).2

lemma next_head : links.next head = (content head).headD head :=
  (queues.rings.circular head isHead).linked.next_first

lemma place_ne_zero {place : Nat} (mem : place ∈ head :: content head) : place ≠ 0 := by
  rintro rfl
  rcases mem_cons.mp mem with rfl | listed
  · exact queues.headNotNull isHead
  · exact queues.notNull head isHead listed

lemma insert (split : content head = front ++ back) (off : OffQueues heads content skb)
    (isNext : links'.next = update (update links.next skb (back.headD head))
      (links.prev (back.headD head)) skb)
    (isPrev : links'.prev = update
      (update links.prev skb (links.prev (back.headD head))) (back.headD head) skb) :
    QueuesFor known heads links' (update content head (front ++ skb :: back)) := by
  have circ := queues.rings.circular head isHead
  rw [split] at circ
  have rings := queues.rings.insert isHead split off.notHead off.absent
  rw [← isNext, ← isPrev] at rings
  have isPlace : back.headD head ∈ head :: content head := by
    rw [split]
    exact Circular.place_mem
  have isLast : links.prev (back.headD head) ∈ head :: content head := by
    rw [split]
    exact circ.prev_mem
  refine ⟨rings, queues.headNotNull, fun other isOther => ?_,
    fun other isKnown ne0 notHead absent => ?_⟩
  · by_cases same : other = head
    · subst same
      rw [update_self]
      intro mem
      rcases mem_cons.mp (perm_middle.mem_iff.mp mem) with isNull | listed
      · exact off.notNull isNull.symm
      · exact queues.notNull other isOther (split ▸ listed)
    · rw [update_of_ne same]
      exact queues.notNull other isOther
  have isAbsent := absent head isHead
  rw [update_self, perm_middle.mem_iff, mem_cons, not_or, ← split] at isAbsent
  have offPlaces : other ∉ head :: content head := by
    rw [mem_cons, not_or]
    exact ⟨fun same => notHead (same ▸ isHead), isAbsent.2⟩
  have cut := queues.unlinked other isKnown ne0 notHead fun ring isRing => by
    by_cases same : ring = head
    · subst same
      exact isAbsent.2
    · have away := absent ring isRing
      rwa [update_of_ne same] at away
  have notPlace : other ≠ back.headD head := fun same => offPlaces (same ▸ isPlace)
  have notLast : other ≠ links.prev (back.headD head) := fun same => offPlaces (same ▸ isLast)
  rw [isNext, isPrev, update_of_ne notLast, update_of_ne isAbsent.1,
    update_of_ne notPlace, update_of_ne isAbsent.1]
  exact cut

lemma erase (split : content head = front ++ skb :: back) :
    QueuesFor known heads
      ⟨update (update links.next (links.prev skb) (links.next skb)) skb 0,
        update (update links.prev (links.next skb) (links.prev skb)) skb 0⟩
      (update content head (front ++ back)) := by
  have circ := queues.rings.circular head isHead
  rw [split] at circ
  have listed : skb ∈ content head := by
    rw [split]
    exact mem_append_right _ mem_cons_self
  have notHead := queues.rings.notHeader head isHead skb listed
  have rings := queues.rings.erase isHead split
  have gone : ∀ other ∈ heads,
      skb ∉ other :: update content head (front ++ back) other := by
    intro other isOther
    rw [mem_cons, not_or]
    refine ⟨fun same => notHead (same ▸ isOther), ?_⟩
    by_cases same : other = head
    · subst same
      rw [update_self]
      have nodup := queues.nodup isHead
      rw [split] at nodup
      exact (nodup_cons.mp (perm_middle.nodup nodup)).1
    · rw [update_of_ne same]
      exact queues.rings.apart head isHead other isOther (Ne.symm same) listed
  have isPrev : links.prev skb ∈ head :: content head := by
    rw [split]
    exact circ.prev_mem
  have isNext : links.next skb ∈ head :: content head := by
    rw [split]
    exact circ.next_mem
  refine ⟨rings.congr ?_ ?_, queues.headNotNull, fun other isOther => ?_,
    fun other isKnown ne0 notHead' absent => ?_⟩
  · intro other isOther place mem
    exact update_of_ne (ne_of_mem_of_not_mem mem (gone other isOther)) _ _
  · intro other isOther place mem
    exact update_of_ne (ne_of_mem_of_not_mem mem (gone other isOther)) _ _
  · by_cases same : other = head
    · subst same
      rw [update_self]
      intro mem
      apply queues.notNull other isOther
      rw [split]
      exact ((sublist_cons_self skb back).append_left front).subset mem
    · rw [update_of_ne same]
      exact queues.notNull other isOther
  by_cases same : other = skb
  · subst same
    exact ⟨update_self _ _ _, update_self _ _ _⟩
  have offQueue : other ∉ head :: content head := by
    rw [mem_cons, not_or, split, perm_middle.mem_iff, mem_cons, not_or]
    refine ⟨fun isHead' => notHead' (isHead' ▸ isHead), same, ?_⟩
    have isAbsent := absent head isHead
    rwa [update_self] at isAbsent
  have cut := queues.unlinked other isKnown ne0 notHead' fun ring isRing => by
    by_cases isRing' : ring = head
    · subst isRing'
      exact fun mem => offQueue (mem_cons_of_mem _ mem)
    · have away := absent ring isRing
      rwa [update_of_ne isRing'] at away
  have notPrev : other ≠ links.prev skb := fun same' => offQueue (same' ▸ isPrev)
  have notNext : other ≠ links.next skb := fun same' => offQueue (same' ▸ isNext)
  simp only [update_of_ne same, update_of_ne notPrev, update_of_ne notNext]
  exact cut

end

lemma off_of_null (queues : QueuesFor known heads links content) (ne0 : skb ≠ 0)
    (notHead : skb ∉ heads) (null : links.next skb = 0) : OffQueues heads content skb := by
  refine ⟨ne0, notHead, fun head isHead listed => ?_⟩
  obtain ⟨_, _, split⟩ := append_of_mem listed
  have circ := queues.rings.circular head isHead
  rw [split] at circ
  apply queues.place_ne_zero isHead _ null
  rw [split]
  exact circ.next_mem

section

variable (queues : QueuesFor known heads links content) (isHead : head ∈ heads)
include queues isHead

lemma off_of_taken (ring : content head = skb :: back) :
    OffQueues heads (update content head back) skb := by
  have listed := ring ▸ mem_cons_self
  refine ⟨?_, queues.rings.notHeader head isHead skb listed, fun other isOther => ?_⟩
  · exact fun isNull => queues.notNull head isHead (isNull ▸ listed)
  by_cases same : other = head
  · subst same
    rw [update_self]
    have nodup := queues.nodup isHead
    rw [ring] at nodup
    exact (nodup_cons.mp nodup).1
  · rw [update_of_ne same]
    exact queues.rings.apart head isHead other isOther (Ne.symm same) listed

lemma queueHead (off : OffQueues heads content skb) :
    QueuesFor known heads (skbQueueHead head skb links)
      (update content head (skb :: content head)) := by
  have first := queues.next_head isHead
  have isPrev : links.prev (links.next head) = head := by
    have circ : Linked links.next links.prev head ([] ++ content head) head :=
      (queues.rings.circular head isHead).linked
    rw [first]
    exact circ.prev_place
  have notFirst : skb ≠ links.next head := by
    rw [first]
    intro same
    rcases mem_cons.mp (same ▸ Linked.headD_mem) with isHead' | listed
    · exact off.notHead (isHead' ▸ isHead)
    · exact off.absent head isHead listed
  apply queues.insert isHead (show content head = [] ++ content head from rfl) off
  · simp only [skbQueueHead, update_self]
    rw [← first, isPrev, update_of_ne notFirst, update_self]
  · simp only [skbQueueHead, update_self]
    rw [← first, isPrev]

lemma queueTail (off : OffQueues heads content skb) :
    QueuesFor known heads (skbQueueTail head skb links)
      (update content head (content head ++ [skb])) := by
  have isLast : links.prev head = (content head).getLastD head := by
    have circ := (queues.rings.circular head isHead).linked
    rw [← append_nil (content head)] at circ
    exact circ.prev_place
  have notLast : skb ≠ links.prev head := by
    rw [isLast]
    intro same
    rcases mem_cons.mp (same ▸ Linked.getLastD_mem) with isHead' | listed
    · exact off.notHead (isHead' ▸ isHead)
    · exact off.absent head isHead listed
  apply queues.insert isHead (append_nil (content head)).symm off
  · simp only [skbQueueTail, update_self]
    rfl
  simp only [skbQueueTail, update_self]
  rw [update_of_ne notLast, update_self]
  rfl

lemma dequeue_nil (empty : content head = []) : skbDequeue head links = (0, links) := by
  have first : links.next head = head := by rw [queues.next_head isHead, empty, headD_nil]
  rw [skbDequeue, if_pos first]

lemma dequeue_cons (ring : content head = skb :: back) :
    ∃ links', skbDequeue head links = (skb, links') ∧
      QueuesFor known heads links' (update content head back) := by
  have first : links.next head = skb := by rw [queues.next_head isHead, ring, headD_cons]
  have listed := ring ▸ mem_cons_self
  have notHead : skb ≠ head := fun same =>
    queues.rings.notHeader head isHead skb listed (same ▸ isHead)
  have isPrev : links.prev skb = head := by
    have circ := (queues.rings.circular head isHead).linked
    rw [ring] at circ
    exact circ.2.1
  refine ⟨_, ?_, queues.erase isHead (show content head = [] ++ skb :: back from ring)⟩
  rw [skbDequeue, first, if_neg notHead, isPrev]
  simp only [update_of_ne notHead]

lemma unlink (listed : skb ∈ content head) :
    QueuesFor known heads (skbUnlink skb links)
      (update content head ((content head).erase skb)) := by
  obtain ⟨_, _, _, split, erased⟩ := exists_erase_eq listed
  have circ := queues.rings.circular head isHead
  rw [split] at circ
  have prevNe : links.prev skb ≠ 0 := by
    apply queues.place_ne_zero isHead
    rw [split]
    exact circ.prev_mem
  have nextNe : links.next skb ≠ 0 := by
    apply queues.place_ne_zero isHead
    rw [split]
    exact circ.next_mem
  rw [skbUnlink, if_pos ⟨prevNe, nextNe⟩, erased]
  exact queues.erase isHead split

end

end QueuesFor

inductive QueueCall where
  | queueHead (head skb : Nat)
  | queueTail (head skb : Nat)
  | dequeue (head : Nat)
  | unlink (skb : Nat)

namespace QueueCall

def run : QueueCall → SkbLinks → Nat × SkbLinks
  | queueHead head skb, links => (0, skbQueueHead head skb links)
  | queueTail head skb, links => (0, skbQueueTail head skb links)
  | dequeue head, links => skbDequeue head links
  | unlink skb, links => (0, skbUnlink skb links)

def onDeques : QueueCall → (Nat → List Nat) → Nat × (Nat → List Nat)
  | queueHead head skb, content => (0, update content head (skb :: content head))
  | queueTail head skb, content => (0, update content head (content head ++ [skb]))
  | dequeue head, content =>
      ((content head).headD 0, update content head (content head).tail)
  | unlink skb, content => (0, fun head => (content head).erase skb)

def Admits (heads : List Nat) : QueueCall → (Nat → List Nat) → Prop
  | queueHead head skb, content => head ∈ heads ∧ OffQueues heads content skb
  | queueTail head skb, content => head ∈ heads ∧ OffQueues heads content skb
  | dequeue head, _ => head ∈ heads
  | unlink skb, content => ∃ head ∈ heads, skb ∈ content head

def Concerns : QueueCall → (Nat → List Nat) → Nat → Prop
  | queueHead head _, _, other => other = head
  | queueTail head _, _, other => other = head
  | dequeue head, _, other => other = head
  | unlink skb, content, other => skb ∈ content other

lemma onDeques_of_not_concerns {call : QueueCall} {content : Nat → List Nat} {other : Nat}
    (away : ¬ call.Concerns content other) : (call.onDeques content).2 other = content other := by
  cases call with
  | queueHead head skb => exact update_of_ne away _ _
  | queueTail head skb => exact update_of_ne away _ _
  | dequeue head => exact update_of_ne away _ _
  | unlink skb => exact erase_of_not_mem away

end QueueCall

structure QueueState where
  links : SkbLinks
  content : Nat → List Nat

namespace QueueState

def step (call : QueueCall) (s : QueueState) : Option (Nat × QueueState) :=
  some ((call.run s.links).1, ⟨(call.run s.links).2, (call.onDeques s.content).2⟩)

def Represents (heads : List Nat) (s : QueueState) : Prop :=
  Queues heads s.links s.content

def Refines (heads : List Nat) (call : QueueCall) (s : QueueState) (result : Nat)
    (t : QueueState) : Prop :=
  result = (call.onDeques s.content).1 ∧ t.Represents heads ∧
    ∀ other, ¬ call.Concerns s.content other → t.content other = s.content other

variable {heads : List Nat} {s : QueueState}

lemma refines_of_admitted (call : QueueCall) (queues : s.Represents heads)
    (adm : call.Admits heads s.content) :
    ∃ res t, step call s = some (res, t) ∧ Refines heads call s res t ∧
      t.Represents heads := by
  refine ⟨_, _, rfl, ?_⟩
  suffices refines : (call.run s.links).1 = (call.onDeques s.content).1 ∧
      Queues heads (call.run s.links).2 (call.onDeques s.content).2 from
    ⟨⟨refines.1, refines.2, fun _ => QueueCall.onDeques_of_not_concerns⟩, refines.2⟩
  cases call with
  | queueHead head skb => exact ⟨rfl, queues.queueHead adm.1 adm.2⟩
  | queueTail head skb => exact ⟨rfl, queues.queueTail adm.1 adm.2⟩
  | dequeue head =>
    cases ring : s.content head with
    | nil =>
      simp only [QueueCall.run, QueueCall.onDeques, ring, tail_nil]
      rw [queues.dequeue_nil adm ring, ← ring, update_eq_self, ring]
      exact ⟨rfl, queues⟩
    | cons skb back =>
      obtain ⟨links, ran, after⟩ := queues.dequeue_cons adm ring
      simp only [QueueCall.run, QueueCall.onDeques, ring, ran, tail_cons]
      exact ⟨rfl, after⟩
  | unlink skb =>
    obtain ⟨head, isHead, listed⟩ := adm
    refine ⟨rfl, ?_⟩
    have after := queues.unlink isHead listed
    -- the packet is on no other queue, so only its own queue changes
    have same : ∀ other ∈ heads, update s.content head ((s.content head).erase skb)
        other = (s.content other).erase skb := by
      intro other isOther
      by_cases isHead' : other = head
      · rw [isHead', update_self]
      · rw [update_of_ne isHead', erase_of_not_mem]
        exact queues.rings.apart head isHead other isOther (Ne.symm isHead') listed
    exact after.congr same

end QueueState

def initHeads (heads : List Nat) (links : SkbLinks) : SkbLinks :=
  heads.foldl (fun links head => skbQueueHeadInit head links) links

lemma initHeads_eq (heads : List Nat) (links : SkbLinks) (place : Nat) :
    (initHeads heads links).next place = (if place ∈ heads then place else links.next place) ∧
      (initHeads heads links).prev place = if place ∈ heads then place else links.prev place := by
  induction heads generalizing links with
  | nil => exact ⟨rfl, rfl⟩
  | cons head rest ih =>
    rw [initHeads, foldl_cons]
    have after := ih (skbQueueHeadInit head links)
    rw [initHeads] at after
    rw [after.1, after.2]
    simp only [skbQueueHeadInit, mem_cons]
    by_cases isHead : place = head
    · subst isHead
      simp
    · simp [isHead]

lemma queues_initHeads {known : Nat → Prop} {heads : List Nat} {links : SkbLinks}
    (headNotNull : 0 ∉ heads)
    (null : ∀ skb, known skb → skb ≠ 0 → skb ∉ heads → links.next skb = 0 ∧ links.prev skb = 0) :
    QueuesFor known heads (initHeads heads links) fun _ => [] := by
  refine ⟨⟨fun head isHead => ?_, nofun, ?_⟩, headNotNull, nofun,
    fun skb isKnown ne0 notHead _ => ?_⟩
  · have after := initHeads_eq heads links head
    rw [if_pos isHead, if_pos isHead] at after
    exact Circular.nil after.1 after.2
  · exact fun _ _ _ _ _ => disjoint_nil_left []
  · have after := initHeads_eq heads links skb
    rw [if_neg notHead, if_neg notHead] at after
    rw [after.1, after.2]
    exact null skb isKnown ne0 notHead

/-- Queues initialised at any heads, with null links everywhere else, are double-ended queues over
every run of calls. -/
theorem queue_run_refines {heads : List Nat} {links : SkbLinks} (headNotNull : 0 ∉ heads)
    (null : ∀ skb, skb ≠ 0 → skb ∉ heads → links.next skb = 0 ∧ links.prev skb = 0)
    (calls : List QueueCall)
    (admitted : AtEach QueueState.step (fun call s => call.Admits heads s.content) calls
      ⟨initHeads heads links, fun _ => []⟩) :
    QueueState.Represents heads ⟨initHeads heads links, fun _ => []⟩ ∧
      ReturnsEach QueueState.step (QueueState.Refines heads) calls
        ⟨initHeads heads links, fun _ => []⟩ := by
  have start : QueueState.Represents heads ⟨initHeads heads links, fun _ => []⟩ :=
    queues_initHeads headNotNull fun skb _ => null skb
  refine ⟨start, returnsEach_of_good ?_ start admitted⟩
  exact fun call s queues isAdmitted => QueueState.refines_of_admitted call queues isAdmitted

/-- Three packets on two queues. -/
theorem queue_run_refines_pair :
    ReturnsEach QueueState.step (QueueState.Refines [100, 200])
      [.queueTail 100 1, .queueHead 100 2, .queueTail 200 3, .unlink 1, .dequeue 100, .dequeue 100]
      ⟨initHeads [100, 200] ⟨fun _ => 0, fun _ => 0⟩, fun _ => []⟩ := by
  refine (queue_run_refines (by decide) (fun _ _ _ => ⟨rfl, rfl⟩) _ ?_).2
  refine atEach_extend rfl ⟨by decide, by decide, by decide, by decide⟩ ?_
  refine atEach_extend rfl ⟨by decide, by decide, by decide, by decide⟩ ?_
  refine atEach_extend rfl ⟨by decide, by decide, by decide, by decide⟩ ?_
  refine atEach_extend rfl ⟨100, by decide, by decide⟩ ?_
  refine atEach_extend rfl mem_cons_self ?_
  exact atEach_extend rfl mem_cons_self trivial

end PrettyOS.Net
