import PrettyOS.Net.SkbQueue

/-!
Contract: sending on a device and closing it, `dev_queue_xmit`, `dev_tint` and `dev_close` of
`net/inet/dev.c`.

The driver is any state with any answer to a packet; it may change between two calls. What it has
accepted is read off its own answers: `logged` adds to any driver the list of the packets for which
its `hard_start_xmit` answered 0.
-/

namespace PrettyOS.Net

open Library List
open Function

/-! ## The calls -/

def devNumbuffs : Nat := 3

structure XmitDevice (δ : Type*) where
  buffs : Nat
  hardStartXmit : Nat → δ → Int × δ
  rebuildHeader : Nat → δ → Int × δ
  tbusy : δ → Bool

structure Xmit (δ : Type*) where
  links : SkbLinks
  driver : δ

namespace XmitDevice

variable {δ : Type*} (dev : XmitDevice δ) (arp : Nat → Bool)

def buff (i : Nat) : Nat := dev.buffs + 8 * i

def heads : List Nat := (List.range devNumbuffs).map dev.buff

/-- A packet of `dev_tint` comes with the number of its queue as `-i - 1`. -/
def devQueueXmit (skb : Nat) (pri : Int) (s : Xmit δ) : Xmit δ :=
  if s.links.next skb ≠ 0 then { s with driver := (dev.hardStartXmit 0 s.driver).2 }
  else
    let fromQueue := pri < 0
    let pri := if pri < 0 then -pri - 1 else pri
    let pri := (if pri > devNumbuffs then 1 else pri).toNat
    let (unresolved, driver) := if arp skb then (0, s.driver) else dev.rebuildHeader skb s.driver
    if unresolved ≠ 0 then { s with driver := driver }
    else
      let (skb, links) :=
        if fromQueue then (skb, s.links)
        else skbDequeue (dev.buff pri) (skbQueueTail (dev.buff pri) skb s.links)
      let (refused, driver) := dev.hardStartXmit skb driver
      if refused = 0 then ⟨links, driver⟩ else ⟨skbQueueHead (dev.buff pri) skb links, driver⟩

/-- The `while` loop of `dev_tint`; the answer is whether it left through `tbusy`. -/
def devTintQueue (i : Nat) : Nat → Xmit δ → Option (Bool × Xmit δ)
  | 0, _ => none
  | fuel + 1, s =>
      let (skb, links) := skbDequeue (dev.buff i) s.links
      if skb = 0 then some (false, ⟨links, s.driver⟩)
      else
        let s := dev.devQueueXmit arp skb (-i - 1) ⟨links, s.driver⟩
        if dev.tbusy s.driver then some (true, s) else devTintQueue i fuel s

def devTintFrom (fuel : Nat) : (left i : Nat) → Xmit δ → Option (Xmit δ)
  | 0, _, s => some s
  | left + 1, i, s =>
      (dev.devTintQueue arp i fuel s).bind fun (busy, t) =>
        if busy then some t else devTintFrom fuel left (i + 1) t

def devTint (fuel : Nat) (s : Xmit δ) : Option (Xmit δ) :=
  dev.devTintFrom arp fuel devNumbuffs 0 s

/-- `hard_start_xmit` returns non-zero only with `tbusy` set. -/
def Lawful : Prop :=
  ∀ skb driver, (dev.hardStartXmit skb driver).1 ≠ 0 →
    dev.tbusy (dev.hardStartXmit skb driver).2 = true

/-- The same driver with a list of the packets it has accepted, the last one at the end. -/
def logged : XmitDevice (δ × List Nat) where
  buffs := dev.buffs
  hardStartXmit skb driver :=
    let (refused, after) := dev.hardStartXmit skb driver.1
    (refused, after, if refused = 0 then driver.2 ++ [skb] else driver.2)
  rebuildHeader skb driver :=
    let (unresolved, after) := dev.rebuildHeader skb driver.1
    (unresolved, after, driver.2)
  tbusy driver := dev.tbusy driver.1

end XmitDevice

/-! ## What one call sends -/

/-- An accepted packet with the priority it was submitted at. -/
structure Accepted where
  pri : Nat
  skb : Nat

def sentFrom (pri : Nat) (sent : List Accepted) : List Nat :=
  (sent.filter fun entry => entry.pri = pri).map Accepted.skb

@[simp] theorem sentFrom_nil (pri : Nat) : sentFrom pri [] = [] := rfl

theorem sentFrom_append (pri : Nat) (sent others : List Accepted) :
    sentFrom pri (sent ++ others) = sentFrom pri sent ++ sentFrom pri others := by
  rw [sentFrom, filter_append, map_append]
  rfl

theorem sentFrom_self (pri skb : Nat) : sentFrom pri [⟨pri, skb⟩] = [skb] := by
  simp [sentFrom]

theorem sentFrom_other {pri other : Nat} (ne : other ≠ pri) (skb : Nat) :
    sentFrom other [⟨pri, skb⟩] = [] := by
  simp [sentFrom, Ne.symm ne]

section Call

variable {δ : Type*} {dev : XmitDevice δ} {arp : Nat → Bool} {s t u : Xmit (δ × List Nat)}
  {content : Nat → List Nat} {pri i skb : Nat} {sent others : List Accepted}

theorem buff_logged : dev.logged.buff i = dev.buff i := rfl

theorem buff_mem (lt : pri < devNumbuffs) : dev.buff pri ∈ dev.heads :=
  mem_map_of_mem (mem_range.mpr lt)

theorem buff_ne (ne : i ≠ pri) : dev.buff i ≠ dev.buff pri := by
  unfold XmitDevice.buff
  omega

/-- The last lines of `dev_queue_xmit`: a refused packet goes back to the head of its queue. -/
def offer (dev : XmitDevice δ) (pri skb : Nat) (s : Xmit (δ × List Nat)) : Xmit (δ × List Nat) :=
  let (refused, driver) := dev.logged.hardStartXmit skb s.driver
  if refused = 0 then ⟨s.links, driver⟩ else ⟨skbQueueHead (dev.buff pri) skb s.links, driver⟩

theorem offer_accepted (accepts : (dev.hardStartXmit skb s.driver.1).1 = 0) :
    offer dev pri skb s =
      ⟨s.links, (dev.hardStartXmit skb s.driver.1).2, s.driver.2 ++ [skb]⟩ := by
  simp only [offer, XmitDevice.logged, accepts, ↓reduceIte]

theorem offer_refused (refuses : (dev.hardStartXmit skb s.driver.1).1 ≠ 0) :
    offer dev pri skb s = ⟨skbQueueHead (dev.buff pri) skb s.links,
      (dev.hardStartXmit skb s.driver.1).2, s.driver.2⟩ := by
  simp only [offer, XmitDevice.logged, refuses, ↓reduceIte]

theorem devQueueXmit_submit (isArp : arp skb = true) (null : s.links.next skb = 0)
    (lt : pri < devNumbuffs) :
    dev.logged.devQueueXmit arp skb pri s =
      offer dev pri (skbDequeue (dev.buff pri) (skbQueueTail (dev.buff pri) skb s.links)).1
        ⟨(skbDequeue (dev.buff pri) (skbQueueTail (dev.buff pri) skb s.links)).2, s.driver⟩ := by
  have notNegative : ¬ (pri : Int) < 0 := by omega
  have small : ¬ (pri : Int) > devNumbuffs := by omega
  simp only [XmitDevice.devQueueXmit, offer, null, isArp, if_neg notNegative, if_neg small, ne_eq,
    not_true_eq_false, ↓reduceIte, Int.toNat_natCast]
  rfl

theorem devQueueXmit_again (isArp : arp skb = true) (null : s.links.next skb = 0)
    (lt : i < devNumbuffs) :
    dev.logged.devQueueXmit arp skb (-i - 1) s = offer dev i skb s := by
  have neg : (-i - 1 : Int) < 0 := by omega
  have decoded : -(-i - 1 : Int) - 1 = i := by omega
  have small : ¬ (i : Int) > devNumbuffs := by omega
  simp only [XmitDevice.devQueueXmit, offer, null, isArp, if_pos neg, decoded, if_neg small,
    ne_eq, not_true_eq_false, ↓reduceIte, Int.toNat_natCast]
  rfl

/-- Between the two states the driver has accepted just the packets of `sent`. -/
structure Sends (sent : List Accepted) (s t : Xmit (δ × List Nat)) : Prop where
  log : t.driver.2 = s.driver.2 ++ sent.map Accepted.skb
  below : ∀ entry ∈ sent, entry.pri < devNumbuffs

theorem Sends.nil (same : t.driver.2 = s.driver.2) : Sends [] s t :=
  ⟨by rw [same, map_nil, append_nil], nofun⟩

theorem Sends.one (log : t.driver.2 = s.driver.2 ++ [skb]) (lt : pri < devNumbuffs) :
    Sends [⟨pri, skb⟩] s t := by
  refine ⟨log, fun entry member => ?_⟩
  rwa [mem_singleton.mp member]

theorem Sends.trans (first : Sends sent s t) (second : Sends others t u) :
    Sends (sent ++ others) s u := by
  constructor
  · rw [second.log, first.log, map_append, append_assoc]
  · intro entry member
    rcases mem_append.mp member with old | new
    · exact first.below entry old
    · exact second.below entry new

/-- For each queue, what was sent from it and then what it still holds is what it owed. -/
def Balanced (dev : XmitDevice δ) (s t : Xmit (δ × List Nat)) (owed : Nat → List Nat) : Prop :=
  ∃ sent content, Sends sent s t ∧ Queues dev.heads t.links content ∧
    ∀ i < devNumbuffs, sentFrom i sent ++ content (dev.buff i) = owed i

theorem Balanced.refl (queues : Queues dev.heads s.links content) :
    Balanced dev s s fun i => content (dev.buff i) :=
  ⟨[], content, Sends.nil rfl, queues, fun _ _ => rfl⟩

theorem Balanced.of_sends {owed rest : Nat → List Nat} (sends : Sends sent s t)
    (isOwed : ∀ i < devNumbuffs, sentFrom i sent ++ rest i = owed i)
    (later : Balanced dev t u rest) : Balanced dev s u owed := by
  obtain ⟨others, content, sends', queues, isRest⟩ := later
  refine ⟨sent ++ others, content, sends.trans sends', queues, fun i below => ?_⟩
  rw [sentFrom_append, append_assoc, isRest i below, isOwed i below]

/-- A packet the driver takes is the next of its queue; one it refuses stays the next. -/
theorem balanced_offer (queues : Queues dev.heads s.links content) (lt : pri < devNumbuffs)
    (off : OffQueues dev.heads content skb) :
    Balanced dev s (offer dev pri skb s)
      (update (fun i => content (dev.buff i)) pri (skb :: content (dev.buff pri))) := by
  by_cases accepts : (dev.hardStartXmit skb s.driver.1).1 = 0
  · rw [offer_accepted accepts]
    refine ⟨[⟨pri, skb⟩], content, Sends.one rfl lt, queues, fun i _ => ?_⟩
    by_cases same : i = pri
    · rw [same, sentFrom_self, update_self, singleton_append]
    · rw [sentFrom_other same, update_of_ne same, nil_append]
  · rw [offer_refused accepts]
    refine ⟨[], _, Sends.nil rfl, queues.queueHead (buff_mem lt) off, fun i _ => ?_⟩
    rw [sentFrom_nil, nil_append]
    by_cases same : i = pri
    · rw [same, update_self, update_self]
    · rw [update_of_ne (buff_ne same), update_of_ne same]

theorem balanced_devQueueXmit (queues : Queues dev.heads s.links content) (lt : pri < devNumbuffs)
    (off : OffQueues dev.heads content skb) (isArp : arp skb = true) :
    Balanced dev s (dev.logged.devQueueXmit arp skb pri s)
      (update (fun i => content (dev.buff i)) pri (content (dev.buff pri) ++ [skb])) := by
  have isHead := @buff_mem _ dev _ lt
  have null := (queues.unlinked skb trivial off.notNull off.notHead off.absent).1
  have queued := queues.queueTail isHead off
  -- the oldest packet of the queue, which may be the new one
  obtain ⟨first, back, ring⟩ : ∃ first back, content (dev.buff pri) ++ [skb] = first :: back :=
    exists_cons_of_ne_nil (append_ne_nil_of_right_ne_nil _ (cons_ne_nil _ _))
  have ring' : update content (dev.buff pri) (content (dev.buff pri) ++ [skb])
      (dev.buff pri) = first :: back := by
    rw [update_self, ring]
  obtain ⟨links, ran, after⟩ := queued.dequeue_cons isHead ring'
  have offFirst := queued.off_of_taken isHead ring'
  rw [update_idem] at after offFirst
  rw [devQueueXmit_submit isArp null lt, ran]
  have balanced := @balanced_offer _ _ ⟨links, s.driver⟩ _ _ _ after lt offFirst
  have untouched : Sends [] s ⟨links, s.driver⟩ := Sends.nil rfl
  refine Balanced.of_sends untouched (fun i _ => ?_) balanced
  rw [sentFrom_nil, nil_append]
  by_cases same : i = pri
  · rw [same, update_self, update_self, update_self, ring]
  · rw [update_of_ne same, update_of_ne same, update_of_ne (buff_ne same)]

/-! ## The interrupt -/

section

variable (lawful : dev.Lawful)
include lawful

theorem balanced_devTintQueue (lt : i < devNumbuffs) {fuel : Nat}
    (queues : Queues dev.heads s.links content)
    (isArp : ∀ skb ∈ content (dev.buff i), arp skb = true)
    (enough : (content (dev.buff i)).length < fuel) :
    ∃ busy t, dev.logged.devTintQueue arp i fuel s = some (busy, t) ∧
      Balanced dev s t fun j => content (dev.buff j) := by
  have isHead := @buff_mem _ dev _ lt
  induction fuel generalizing s content with
  | zero => exact absurd enough (Nat.not_lt_zero _)
  | succ fuel ih =>
    cases ring : content (dev.buff i) with
    | nil =>
      refine ⟨false, s, ?_, Balanced.refl queues⟩
      rw [XmitDevice.devTintQueue, buff_logged, queues.dequeue_nil isHead ring]
      rfl
    | cons skb back =>
      obtain ⟨links, ran, after⟩ := queues.dequeue_cons isHead ring
      have off := queues.off_of_taken isHead ring
      have null := (after.unlinked skb trivial off.notNull off.notHead off.absent).1
      have same : ∀ j, update (fun k => update content (dev.buff i) back (dev.buff k)) i
          (skb :: update content (dev.buff i) back (dev.buff i)) j = content (dev.buff j) := by
        intro j
        by_cases isI : j = i
        · rw [isI, update_self, update_self, ring]
        · rw [update_of_ne isI, update_of_ne (buff_ne isI)]
      have turn : dev.logged.devQueueXmit arp skb (-i - 1) ⟨links, s.driver⟩ =
          offer dev i skb ⟨links, s.driver⟩ :=
        devQueueXmit_again (isArp skb (ring ▸ mem_cons_self)) null lt
      have isRound : dev.logged.devTintQueue arp i (fuel + 1) s =
          if dev.logged.tbusy (offer dev i skb ⟨links, s.driver⟩).driver then
            some (true, offer dev i skb ⟨links, s.driver⟩)
          else dev.logged.devTintQueue arp i fuel (offer dev i skb ⟨links, s.driver⟩) := by
        rw [XmitDevice.devTintQueue, buff_logged, ran, ← turn]
        exact if_neg off.notNull
      rw [isRound]
      by_cases busy : dev.logged.tbusy (offer dev i skb ⟨links, s.driver⟩).driver = true
      · rw [if_pos busy]
        have untouched : Sends [] s ⟨links, s.driver⟩ := Sends.nil rfl
        refine ⟨_, _, rfl, Balanced.of_sends untouched (fun j _ => ?_)
          (balanced_offer after lt off)⟩
        rw [sentFrom_nil, nil_append, same j]
      rw [if_neg busy]
      -- a driver that is not busy has taken the packet
      have accepts : (dev.hardStartXmit skb s.driver.1).1 = 0 := by
        by_contra refuses
        have isRefused := @offer_refused _ dev ⟨links, s.driver⟩ i skb refuses
        rw [isRefused] at busy
        exact busy (lawful skb s.driver.1 refuses)
      rw [@offer_accepted _ dev ⟨links, s.driver⟩ i skb accepts]
      have shorter : (update content (dev.buff i) back (dev.buff i)).length < fuel := by
        rw [update_self]
        rw [ring, length_cons] at enough
        omega
      have isArp' : ∀ other ∈ update content (dev.buff i) back (dev.buff i), arp other = true := by
        rw [update_self]
        exact fun other mem => isArp other (ring ▸ mem_cons_of_mem _ mem)
      obtain ⟨again, t, returns, balanced⟩ :=
        @ih ⟨links, (dev.hardStartXmit skb s.driver.1).2, s.driver.2 ++ [skb]⟩ _ after isArp'
          shorter
      have sends : Sends [⟨i, skb⟩] s ⟨links, (dev.hardStartXmit skb s.driver.1).2,
          s.driver.2 ++ [skb]⟩ := Sends.one rfl lt
      refine ⟨again, t, returns, Balanced.of_sends sends (fun j _ => ?_) balanced⟩
      by_cases isI : j = i
      · rw [isI, sentFrom_self, update_self, ring, singleton_append]
      · rw [sentFrom_other isI, update_of_ne (buff_ne isI), nil_append]

theorem balanced_devTintFrom {fuel left : Nat}
    (length : i + left = devNumbuffs) (queues : Queues dev.heads s.links content)
    (isArp : ∀ j < devNumbuffs, ∀ skb ∈ content (dev.buff j), arp skb = true)
    (enough : ∀ j < devNumbuffs, (content (dev.buff j)).length < fuel) :
    ∃ t, dev.logged.devTintFrom arp fuel left i s = some t ∧
      Balanced dev s t fun j => content (dev.buff j) := by
  induction left generalizing i s content with
  | zero => exact ⟨s, rfl, Balanced.refl queues⟩
  | succ left ih =>
    have lt : i < devNumbuffs := by omega
    obtain ⟨busy, t, ran, balanced⟩ :=
      balanced_devTintQueue lawful lt queues (isArp i lt) (enough i lt)
    rw [XmitDevice.devTintFrom, ran, Option.bind_some]
    cases busy with
    | true => exact ⟨t, rfl, balanced⟩
    | false =>
      obtain ⟨sent, content', sends, queues', isOwed⟩ := balanced
      have kept : ∀ j < devNumbuffs, (content' (dev.buff j)).Sublist (content (dev.buff j)) := by
        intro j below
        have owed : sentFrom j sent ++ content' (dev.buff j) = content (dev.buff j) :=
          isOwed j below
        rw [← owed]
        exact sublist_append_right _ _
      obtain ⟨last, returns, balanced⟩ :=
        @ih t content' (i + 1) (by omega) queues'
          (fun j below skb mem => isArp j below skb ((kept j below).subset mem))
          (fun j below => Nat.lt_of_le_of_lt (kept j below).length_le (enough j below))
      exact ⟨last, returns, Balanced.of_sends sends isOwed balanced⟩

end

end Call

/-! ## Runs -/

inductive XmitCall (δ : Type*) where
  | submit (skb pri : Nat)
  | tint (fuel : Nat)
  | driver (driver : δ)

/-- The device with the record of its driver, and the packets submitted at each priority. -/
structure XmitRun (δ : Type*) where
  xmit : Xmit (δ × List Nat)
  submitted : Nat → List Nat

namespace XmitRun

variable {δ : Type*}

def step (dev : XmitDevice δ) (arp : Nat → Bool) :
    XmitCall δ → XmitRun δ → Option (Unit × XmitRun δ)
  | .submit skb pri, s =>
      some ((), ⟨dev.logged.devQueueXmit arp skb pri s.xmit,
        update s.submitted pri (s.submitted pri ++ [skb])⟩)
  | .tint fuel, s => (dev.logged.devTint arp fuel s.xmit).map fun xmit => ((), { s with xmit })
  | .driver driver, s =>
      some ((), { s with xmit := { s.xmit with driver := (driver, s.xmit.driver.2) } })

def Admits (dev : XmitDevice δ) (arp : Nat → Bool) : XmitCall δ → XmitRun δ → Prop
  | .submit skb pri, s => pri < devNumbuffs ∧ skb ≠ 0 ∧ skb ∉ dev.heads ∧ arp skb = true ∧
      s.xmit.links.next skb = 0 ∧ s.xmit.links.prev skb = 0
  | .tint fuel, s => ∀ pri < devNumbuffs, (s.submitted pri).length < fuel
  | .driver _, _ => True

/-- The driver's record, split by priority, is the oldest submissions of each priority, and the
others stand in their queue, in order. -/
def Lossless (dev : XmitDevice δ) (s : XmitRun δ) : Prop :=
  ∃ sent content, s.xmit.driver.2 = sent.map Accepted.skb ∧
    (∀ entry ∈ sent, entry.pri < devNumbuffs) ∧ Queues dev.heads s.xmit.links content ∧
    ∀ pri < devNumbuffs, s.submitted pri = sentFrom pri sent ++ content (dev.buff pri)

def fresh (dev : XmitDevice δ) (links : SkbLinks) (driver : δ) : XmitRun δ :=
  ⟨⟨initHeads dev.heads links, driver, []⟩, fun _ => []⟩

variable {dev : XmitDevice δ} {arp : Nat → Bool} {s : XmitRun δ}

def Good (dev : XmitDevice δ) (arp : Nat → Bool) (s : XmitRun δ) : Prop :=
  s.Lossless dev ∧ ∀ pri < devNumbuffs, ∀ skb ∈ s.submitted pri, arp skb = true

/-- A call that sends what the queues owe keeps the run lossless. -/
theorem Lossless.of_balanced {sent : List Accepted}
    {xmit : Xmit (δ × List Nat)} {submitted owed : Nat → List Nat}
    (log : s.xmit.driver.2 = sent.map Accepted.skb)
    (below : ∀ entry ∈ sent, entry.pri < devNumbuffs)
    (balanced : Balanced dev s.xmit xmit owed)
    (isOwed : ∀ pri < devNumbuffs, submitted pri = sentFrom pri sent ++ owed pri) :
    Lossless dev ⟨xmit, submitted⟩ := by
  obtain ⟨others, content, sends, queues, isSent⟩ := balanced
  refine ⟨sent ++ others, content, ?_, ?_, queues, fun pri lt => ?_⟩
  · rw [sends.log, log, map_append]
  · intro entry member
    rcases mem_append.mp member with old | new
    · exact below entry old
    · exact sends.below entry new
  · rw [sentFrom_append, append_assoc, isSent pri lt]
    exact isOwed pri lt

theorem good_submit {skb pri : Nat} (good : s.Good dev arp)
    (adm : Admits dev arp (.submit skb pri) s) :
    ∃ t, step dev arp (.submit skb pri) s = some ((), t) ∧ t.Good dev arp := by
  obtain ⟨lt, ne0, notHead, isArp, null, -⟩ := adm
  obtain ⟨⟨sent, content, log, below, queues, balance⟩, allArp⟩ := good
  have balanced := balanced_devQueueXmit queues lt (queues.off_of_null ne0 notHead null) isArp
  refine ⟨_, rfl, Lossless.of_balanced log below balanced fun i isBelow => ?_,
    fun i isBelow other mem => ?_⟩
  · by_cases same : i = pri
    · rw [same, update_self, update_self, balance pri lt, append_assoc]
    · rw [update_of_ne same, update_of_ne same, balance i isBelow]
  dsimp only at mem
  by_cases same : i = pri
  · rw [same, update_self, mem_append, mem_singleton] at mem
    rcases mem with old | rfl
    · exact allArp pri lt other old
    · exact isArp
  · rw [update_of_ne same] at mem
    exact allArp i isBelow other mem

theorem good_tint (lawful : dev.Lawful) {fuel : Nat} (good : s.Good dev arp)
    (enough : ∀ pri < devNumbuffs, (s.submitted pri).length < fuel) :
    ∃ t, step dev arp (.tint fuel) s = some ((), t) ∧ t.Good dev arp := by
  obtain ⟨⟨sent, content, log, below, queues, balance⟩, allArp⟩ := good
  have queued : ∀ i < devNumbuffs, (content (dev.buff i)).Sublist (s.submitted i) := by
    intro i isBelow
    rw [balance i isBelow]
    exact sublist_append_right _ _
  obtain ⟨xmit, ran, balanced⟩ :=
    balanced_devTintFrom lawful (Nat.zero_add _) queues
      (fun i isBelow skb mem => allArp i isBelow skb ((queued i isBelow).subset mem))
      (fun i isBelow => Nat.lt_of_le_of_lt (queued i isBelow).length_le (enough i isBelow))
  refine ⟨{ s with xmit }, ?_, Lossless.of_balanced log below balanced balance, allArp⟩
  rw [step, XmitDevice.devTint, ran]
  rfl

/-- Over every run of submissions and `dev_tint`, whatever the driver refuses, each call returns,
and the driver has accepted the packets of each priority once each and in their order, those apart
that still stand on the queue. -/
theorem xmit_run_lossless (lawful : dev.Lawful) (placed : dev.buffs ≠ 0) {links : SkbLinks}
    {driver : δ} (null : ∀ skb, skb ≠ 0 → skb ∉ dev.heads → links.next skb = 0 ∧ links.prev skb = 0)
    (calls : List (XmitCall δ))
    (admitted : AtEach (step dev arp) (Admits dev arp) calls (fresh dev links driver)) :
    ReturnsEach (step dev arp) (fun _ _ _ t => t.Lossless dev) calls (fresh dev links driver) := by
  have headNotNull : 0 ∉ dev.heads := by
    intro member
    obtain ⟨i, -, isNull⟩ := mem_map.mp member
    unfold XmitDevice.buff at isNull
    omega
  have start : (fresh dev links driver).Good dev arp :=
    ⟨⟨[], _, rfl, nofun, queues_initHeads headNotNull fun skb _ => null skb, fun _ _ => rfl⟩,
      fun _ _ _ member => nomatch member⟩
  refine returnsEach_of_good (fun call s good isAdmitted => ?_) start admitted
  cases call with
  | submit skb pri =>
    obtain ⟨t, isStep, next⟩ := good_submit good isAdmitted
    exact ⟨(), t, isStep, next.1, next⟩
  | tint fuel =>
    obtain ⟨t, isStep, next⟩ := good_tint lawful good isAdmitted
    exact ⟨(), t, isStep, next.1, next⟩
  | driver driver => exact ⟨_, _, rfl, good.1, good⟩

def onePacket : XmitDevice Bool where
  buffs := 1000
  hardStartXmit _ full := if full then (1, true) else (0, true)
  rebuildHeader _ full := (0, full)
  tbusy full := full

/-- Two packets are submitted, the second is refused and goes out once the first is sent. -/
theorem xmit_run_lossless_onePacket :
    ReturnsEach (step onePacket fun _ => true) (fun _ _ _ t => t.Lossless onePacket)
      [.submit 1 0, .submit 2 0, .tint 3, .driver false, .tint 3]
      (fresh onePacket ⟨fun _ => 0, fun _ => 0⟩ false) := by
  have lawful : onePacket.Lawful := by
    intro skb full refused
    cases full with
    | false => exact absurd rfl refused
    | true => rfl
  refine xmit_run_lossless lawful (by decide) (fun _ _ _ => ⟨rfl, rfl⟩) _ ?_
  refine atEach_extend rfl ⟨by decide, by decide, by decide, rfl, by decide, by decide⟩ ?_
  refine atEach_extend rfl ⟨by decide, by decide, by decide, rfl, by decide, by decide⟩ ?_
  refine atEach_extend rfl (show ∀ pri < devNumbuffs, _ < _ by decide) ?_
  refine atEach_extend rfl trivial ?_
  exact atEach_extend rfl (show ∀ pri < devNumbuffs, _ < _ by decide) trivial

/-- In the run above both packets reach the driver, in order. -/
example : (runSteps (step onePacket fun _ => true)
    [.submit 1 0, .submit 2 0, .tint 3, .driver false, .tint 3]
    (fresh onePacket ⟨fun _ => 0, fun _ => 0⟩ false)).map (fun ran => ran.2.xmit.driver.2) =
      some [1, 2] := by
  decide

end XmitRun

/-! ## Closing -/

namespace XmitDevice

variable {δ : Type*} (dev : XmitDevice δ) (free : Nat → Bool)

def iffDown : UInt8 := 0x0

/-- The numbers of the queues that are read, the last `ct`, and the links. -/
def closeQueue : Nat → Nat → SkbLinks → Option (List Nat × Nat × SkbLinks)
  | 0, _, _ => none
  | fuel + 1, ct, links =>
      let taken := skbDequeue (dev.buff ct) links
      if taken.1 = 0 then some ([ct], ct, taken.2)
      else
        -- `ct++` is the body of `if(skb->free)`
        (closeQueue fuel (if free taken.1 then ct + 1 else ct) taken.2).map fun done =>
          (ct :: done.1, done.2)

def closeFrom (rounds : Nat) : Nat → Nat → SkbLinks → Option (List Nat × SkbLinks)
  | 0, _, _ => none
  | fuel + 1, ct, links =>
      if ct < devNumbuffs then
        (dev.closeQueue free rounds ct links).bind fun done =>
          (closeFrom rounds fuel done.2.1 done.2.2).map fun later =>
            (done.1 ++ later.1, later.2)
      else some ([], links)

def devClose (flags : UInt8) (fuel : Nat) (links : SkbLinks) : Option (List Nat × SkbLinks) :=
  if flags ≠ iffDown then dev.closeFrom free fuel fuel 0 links else some ([], links)

def Drains (flags : UInt8) (links : SkbLinks) : Prop :=
  ∃ fuel used after content, dev.devClose free flags fuel links = some (used, after) ∧
    Queues dev.heads after content ∧ (∀ head ∈ dev.heads, content head = []) ∧
    ∀ i ∈ used, i < devNumbuffs

variable {dev free} {rounds fuel ct ct' : Nat} {used : List Nat} {links after : SkbLinks}

lemma closeQueue_uses (ran : dev.closeQueue free fuel ct links = some (used, ct', after)) :
    ct' ∈ used := by
  induction fuel generalizing ct links used with
  | zero => cases ran
  | succ fuel ih =>
    rw [closeQueue] at ran
    by_cases drained : (skbDequeue (dev.buff ct) links).1 = 0
    · rw [if_pos drained] at ran
      cases ran
      exact mem_cons_self
    · rw [if_neg drained] at ran
      obtain ⟨⟨_, _, _⟩, ranRest, same⟩ := Option.map_eq_some_iff.mp ran
      cases same
      exact mem_cons_of_mem _ (ih ranRest)

lemma closeFrom_uses (small : ct < devNumbuffs)
    (ran : dev.closeFrom free rounds fuel ct links = some (used, after)) :
    ∃ i ∈ used, devNumbuffs ≤ i := by
  induction fuel generalizing ct links used with
  | zero => cases ran
  | succ fuel ih =>
    rw [closeFrom, if_pos small] at ran
    obtain ⟨⟨_, ct', _⟩, ranQueue, ran⟩ := Option.bind_eq_some_iff.mp ran
    obtain ⟨⟨_, _⟩, ranRest, same⟩ := Option.map_eq_some_iff.mp ran
    cases same
    -- the outer loop ends where the inner one has taken `ct` over the end
    by_cases again : ct' < devNumbuffs
    · obtain ⟨i, mem, large⟩ := ih again ranRest
      exact ⟨i, mem_append_right _ mem, large⟩
    · exact ⟨ct', mem_append_left _ (closeQueue_uses ranQueue), Nat.le_of_not_lt again⟩

/-- The call does not return, or has read a queue behind the last one. -/
theorem devClose_never_drains (dev : XmitDevice δ) (free : Nat → Bool) (links : SkbLinks)
    {flags : UInt8} (up : flags ≠ iffDown) : ¬ dev.Drains free flags links := by
  rintro ⟨fuel, used, after, _, ran, -, -, inside⟩
  rw [devClose, if_pos up] at ran
  obtain ⟨i, mem, large⟩ := closeFrom_uses (by decide) ran
  exact absurd (inside i mem) (Nat.not_lt.mpr large)

def unused (dev : XmitDevice δ) : SkbLinks := initHeads dev.heads ⟨fun _ => 0, fun _ => 0⟩

/-- One packet on each queue. -/
def threeQueued (dev : XmitDevice δ) : SkbLinks :=
  skbQueueTail (dev.buff 2) 3 (skbQueueTail (dev.buff 1) 2 (skbQueueTail (dev.buff 0) 1 dev.unused))

/-- With all three packets to be freed the call returns, and it has read a fourth queue. -/
theorem devClose_never_drains_onePacket :
    (XmitRun.onePacket.devClose (fun _ => true) 1 8 XmitRun.onePacket.threeQueued).map Prod.fst =
        some [0, 1, 2, 3] ∧
      ¬ XmitRun.onePacket.Drains (fun _ => true) 1 XmitRun.onePacket.threeQueued :=
  ⟨by decide, devClose_never_drains _ _ _ (by decide)⟩

/-- With empty queues nothing counts `ct` up. -/
theorem closeFrom_unused : XmitRun.onePacket.closeFrom free rounds fuel 0
    XmitRun.onePacket.unused = none := by
  have first : (skbDequeue (XmitRun.onePacket.buff 0) XmitRun.onePacket.unused) =
      (0, XmitRun.onePacket.unused) := rfl
  induction fuel with
  | zero => rfl
  | succ fuel ih =>
    cases rounds with
    | zero => rfl
    | succ rounds =>
      rw [closeFrom, if_pos (by decide), closeQueue, first, if_pos rfl, Option.bind_some, ih]
      rfl

theorem not_drains_unused :
    ¬ XmitRun.onePacket.Drains (fun _ => false) 1 XmitRun.onePacket.unused := by
  rintro ⟨fuel, used, after, _, ran, -⟩
  rw [devClose, if_pos (by decide), closeFrom_unused] at ran
  cases ran

end XmitDevice

end PrettyOS.Net
