import PrettyOS.Lib.Bitmap
import PrettyOS.Library.Cells
import PrettyOS.Mm.ZoneInvariant

/-!
Contract: requests that no list can serve, and the requests by size and by priority of
`mm/page_alloc.c`.
-/

namespace PrettyOS.Mm

open Lib List
open Library
open Library.Tiling

def examinedOrders (s : Buddy) : (left order : Nat) → List Nat
  | 0, order => [order]
  | left + 1, order =>
      order :: if s.nrFree order = 0 then examinedOrders s left (order + 1) else []

def ReportsExhaustion (order : Nat) (s : Buddy) : Prop :=
  getFreePages order s = some (.null, s) ∧
    ∀ k ∈ examinedOrders s (nrMemLists - order) order, k < nrMemLists

lemma nrMemLists_mem_examinedOrders {s : Buddy} (cnt : s.Counted) {left order : Nat}
    (length : left + order = nrMemLists) (empty : ∀ k, order ≤ k → k < nrMemLists → s.list k = []) :
    nrMemLists ∈ examinedOrders s left order := by
  induction left generalizing order with
  | zero =>
    rw [← length, Nat.zero_add]
    exact mem_singleton_self order
  | succ left ih =>
    have zero : s.nrFree order = 0 := by
      rw [cnt order (by omega), empty order le_rfl (by omega)]
      rfl
    rw [examinedOrders, if_pos zero]
    apply mem_cons_of_mem
    apply ih (by omega)
    exact fun k low high => empty k (by omega) high

/-- With all lists from `order` on empty the request leaves the array; wherever the scan comes to
an end behind it, `buddy_list_del` refuses the order, so the exit can only be `-2`. -/
theorem getFreePages_never_reports {s : Buddy} {order : Nat} (counted : s.Counted)
    (inRange : order < nrMemLists) (empty : ∀ k, order ≤ k → k < nrMemLists → s.list k = []) :
    nrMemLists ∈ examinedOrders s (nrMemLists - order) order ∧ getFreePages order s = none ∧
      (∀ beyond, nrMemLists ≤ beyond → buddyListDel beyond s = .error (-1)) ∧
      ¬ ReportsExhaustion order s := by
  have examined : nrMemLists ∈ examinedOrders s (nrMemLists - order) order :=
    nrMemLists_mem_examinedOrders counted (by omega) empty
  refine ⟨examined, getFreePages_eq_none counted inRange empty, fun beyond above => ?_, ?_⟩
  · rw [buddyListDel, if_pos above]
  · intro reports
    exact absurd (reports.2 _ examined) (lt_irrefl _)

def drainedBuddy : Buddy where
  pages page := ⟨page * pageSize, sysRam⟩
  buddyList _ := ⟨[], 0⟩

/-- A request for one page on the drained allocator reads the counter of `buddy_list[10]`. -/
theorem drainedBuddy_not_reports : drainedBuddy.Counted ∧ (∀ k, drainedBuddy.list k = []) ∧
    examinedOrders drainedBuddy nrMemLists 0 = [0, 1, 2, 3, 4, 5, 6, 7, 8, 9, 10] ∧
    ¬ ReportsExhaustion 0 drainedBuddy := by
  refine ⟨fun _ _ => rfl, fun _ => rfl, rfl, fun reports => ?_⟩
  exact absurd (reports.2 10 (by decide)) (by decide)

/-- The same on the order of the last list. -/
theorem getFreePages_never_reports_last :
    drainedBuddy.Counted ∧ ¬ ReportsExhaustion 9 drainedBuddy :=
  ⟨fun _ _ => rfl, (getFreePages_never_reports (fun _ _ => rfl) (by decide) fun _ _ _ => rfl).2.2.2⟩

def gfpUser : Nat := 0x001
def gfpAtomic : Nat := 0x002
def gfpKernel : Nat := 0x003

def memset (mem : Nat → Byte) (dst : Nat) (ch : Byte) (size : Nat) : Nat → Byte :=
  if dst = 0 then mem else overwrite mem dst (min size (wordSize - dst)) fun _ => ch

def getFreePagesFor (priority order : Nat) (s : Buddy) : Option (Nat × Buddy) :=
  if priority = gfpAtomic then
    (getFreePages order s).map fun (exit, next) => (exit.value, next)
  else
    some (0, s)

def getFreePage (priority : Nat) (mem : Nat → Byte) (s : Buddy) :
    Option (Nat × (Nat → Byte) × Buddy) :=
  (getFreePagesFor priority 0 s).map fun (address, next) =>
    (address, memset mem address 0 pageSize, next)

def allocMem (size : Nat) (s : Buddy) : Option (GetExit × Buddy) :=
  let order := power (size / pageSize)
  if 2 ^ 31 ≤ order then none else getFreePages order s

namespace Buddy

structure Listed (s : Buddy) : Prop where
  counted : s.Counted
  frame : ∀ order < nrMemLists, ∀ page ∈ s.list order,
    0 < page ∧ page < 2 ^ 20 ∧ (s.pages page).address = page * pageSize

def Offers (s : Buddy) (order : Nat) : Prop :=
  ∃ higher, order ≤ higher ∧ higher < nrMemLists ∧ s.list higher ≠ []

def HasBlock (s : Buddy) (size : Nat) : Prop :=
  ∃ order < nrMemLists, s.list order ≠ [] ∧ size ≤ 2 ^ order * pageSize

def ServesSize (s : Buddy) (size : Nat) : Prop :=
  s.HasBlock size → ∃ page order next,
    allocMem size s = some (.address (s.pages page).address, next) ∧ size ≤ 2 ^ order * pageSize ∧
      next.freeFrames + ((Block.mk page order).cells : Multiset Nat) = s.freeFrames

def ServesPriority (s : Buddy) (priority : Nat) : Prop :=
  s.Offers 0 → ∀ mem, ∃ page cleared next,
    getFreePage priority mem s = some ((s.pages page).address, cleared, next) ∧
      next.freeFrames + ((Block.mk page 0).cells : Multiset Nat) = s.freeFrames ∧
      ∀ i < pageSize, cleared ((s.pages page).address + i) = 0

end Buddy

section Requests

variable {s : Buddy} {order size : Nat}

lemma getFreePages_eq (cnt : s.Counted) (lt : order < nrMemLists) (offers : s.Offers order) :
    ∃ page next, getFreePages order s = some (.address (s.pages page).address, next) ∧
      (∃ k < nrMemLists, page ∈ s.list k) ∧
      next.freeFrames + ((Block.mk page order).cells : Multiset Nat) = s.freeFrames := by
  obtain ⟨target, le, targetInRange, found, empty⟩ := Zone.Available.least (z := ⟨s, []⟩) offers
  obtain ⟨page, rest, ring⟩ := exists_cons_of_ne_nil found
  obtain ⟨next, ran, -, -, -, frames⟩ :=
    @getFreePagesRepeat_eq _ _ _ _ nrMemLists _ cnt le targetInRange ring empty (by omega)
  refine ⟨page, next, ?_, ⟨target, targetInRange, ?_⟩, frames⟩
  · rw [getFreePages, if_neg (Nat.not_le.mpr lt)]
    exact ran
  · rw [show s.list target = page :: rest from ring]
    exact mem_cons_self

lemma getFreePages_none (cnt : s.Counted) (lt : order < nrMemLists)
    (unavailable : ¬ s.Offers order) : getFreePages order s = none := by
  apply getFreePages_eq_none cnt lt
  intro k low high
  by_contra ne
  exact unavailable ⟨k, low, high, ne⟩

lemma power_eq_zero {index : Nat} (large : 32 ≤ index) : power index = 0 := by
  induction index, large using Nat.le_induction with
  | base => decide
  | succ index _ ih => rw [power, ih, Nat.zero_mul, Nat.zero_mod]

lemma power_fits_iff : (power (size / pageSize) < nrMemLists ∧
    size ≤ 2 ^ power (size / pageSize) * pageSize) ↔ size < 4 * pageSize := by
  rw [pageSize, nrMemLists]
  constructor
  · rintro ⟨lt, fits⟩
    by_contra large
    by_cases below : size / 4096 < 32
    · rw [power_eq_two_pow below] at lt
      have least : 2 ^ 4 ≤ 2 ^ (size / 4096) := Nat.pow_le_pow_right (by decide) (by omega)
      omega
    · rw [power_eq_zero (by omega)] at fits
      omega
  · intro small
    have few : size / 4096 < 4 := by omega
    have pages := Nat.lt_div_mul_add (a := size) (b := 4096) (by decide)
    generalize size / 4096 = n at few pages ⊢
    interval_cases n
    · exact ⟨by decide, le_trans pages.le (by decide)⟩
    · exact ⟨by decide, le_trans pages.le (by decide)⟩
    · exact ⟨by decide, le_trans pages.le (by decide)⟩
    · exact ⟨by decide, le_trans pages.le (by decide)⟩

lemma servesSize_iff_of_offers (cnt : s.Counted)
    (lt : power (size / pageSize) < nrMemLists) (offers : s.Offers (power (size / pageSize))) :
    s.ServesSize size ↔ (s.HasBlock size → size ≤ 2 ^ power (size / pageSize) * pageSize) := by
  have notNegative : ¬ 2 ^ 31 ≤ power (size / pageSize) := by
    rw [nrMemLists] at lt
    omega
  obtain ⟨page, next, ran, -, frames⟩ := getFreePages_eq cnt lt offers
  have res : allocMem size s = some (.address (s.pages page).address, next) := by
    rw [allocMem, if_neg notNegative, ran]
  constructor
  · intro serves has
    obtain ⟨_, order, _, returns', fits, frames'⟩ := serves has
    rw [res] at returns'
    obtain ⟨-, rfl⟩ := Prod.mk.inj (Option.some.inj returns')
    -- the number of frames that left the lists tells the order of the block
    have cards := congrArg Multiset.card (frames.trans frames'.symm)
    simp only [Multiset.card_add, Multiset.coe_card, Block.cells, length_range'] at cards
    rw [Nat.add_left_cancel cards]
    exact fits
  · intro fits has
    exact ⟨page, _, next, res, fits has, frames⟩

lemma not_servesSize (cnt : s.Counted) (has : s.HasBlock size)
    (refused : ¬ (power (size / pageSize) < nrMemLists ∧ s.Offers (power (size / pageSize)))) :
    ¬ s.ServesSize size := by
  intro serves
  obtain ⟨_, _, _, ran, -⟩ := serves has
  unfold allocMem at ran
  by_cases negative : 2 ^ 31 ≤ power (size / pageSize)
  · rw [if_pos negative] at ran
    cases ran
  rw [if_neg negative] at ran
  by_cases lt : power (size / pageSize) < nrMemLists
  · rw [getFreePages_none cnt lt fun offers => refused ⟨lt, offers⟩] at ran
    cases ran
  · rw [getFreePages, if_pos (Nat.not_lt.mp lt)] at ran
    cases ran

lemma servesSize_iff (cnt : s.Counted) :
    s.ServesSize size ↔ ¬ s.HasBlock size ∨
      size < 4 * pageSize ∧ s.Offers (power (size / pageSize)) := by
  by_cases has : s.HasBlock size
  · rw [or_iff_right (not_not_intro has)]
    by_cases served : power (size / pageSize) < nrMemLists ∧ s.Offers (power (size / pageSize))
    · rw [servesSize_iff_of_offers cnt served.1 served.2, ← power_fits_iff]
      exact ⟨fun fits => ⟨⟨served.1, fits has⟩, served.2⟩, fun fits _ => fits.1.2⟩
    · refine iff_of_false (not_servesSize cnt has served) fun small => served ⟨?_, small.2⟩
      exact (power_fits_iff.mpr small.1).1
  · exact iff_of_true (fun has' => absurd has' has) (Or.inl has)

lemma servesPriority_atomic (listed : s.Listed) : s.ServesPriority gfpAtomic := by
  intro offers mem
  obtain ⟨page, next, ran, ⟨k, lt, onRing⟩, frames⟩ :=
    getFreePages_eq listed.counted (by decide) offers
  obtain ⟨pos, _, addr⟩ := listed.frame k lt page onRing
  have ne0 : (s.pages page).address ≠ 0 := by
    rw [addr]
    exact Nat.mul_ne_zero pos.ne' (by decide)
  have whole : min pageSize (wordSize - (s.pages page).address) = pageSize := by
    rw [addr, pageSize, wordSize]
    omega
  refine ⟨page, memset mem (s.pages page).address 0 pageSize, next, ?_, frames, ?_⟩
  · rw [getFreePage, getFreePagesFor, if_pos rfl, ran]
    rfl
  intro i inside
  rw [memset, if_neg ne0, whole]
  exact overwrite_add inside

lemma not_servesPriority {priority : Nat} (other : priority ≠ gfpAtomic) (offers : s.Offers 0) :
    ¬ s.ServesPriority priority := by
  intro serves
  obtain ⟨_, _, _, ran, frames, -⟩ := serves offers fun _ => 0
  rw [getFreePage, getFreePagesFor, if_neg other] at ran
  obtain ⟨-, rest⟩ := Prod.mk.inj (Option.some.inj ran)
  obtain ⟨-, rfl⟩ := Prod.mk.inj rest
  have cards := congrArg Multiset.card frames
  simp only [Multiset.card_add, Multiset.coe_card, Block.cells, length_range'] at cards
  omega

/-- Which requests are served: sizes below four pages while a list of the computed order or above
has a block, and the priority `GFP_ATOMIC`. -/
theorem requests_served_iff (listed : s.Listed) :
    (∀ size ≥ 1, s.ServesSize size ↔ ¬ s.HasBlock size ∨
        size < 4 * pageSize ∧ s.Offers (power (size / pageSize))) ∧
      ∀ priority ∈ [gfpUser, gfpAtomic, gfpKernel], s.Offers 0 →
        (s.ServesPriority priority ↔ priority = gfpAtomic) := by
  refine ⟨fun size _ => servesSize_iff listed.counted, fun priority _ offers => ?_⟩
  constructor
  · intro serves
    by_contra other
    exact not_servesPriority other offers serves
  · rintro rfl
    exact servesPriority_atomic listed

end Requests

def wholeBuddy : Buddy where
  pages page := ⟨page * pageSize, sysRam⟩
  buddyList order := if order = 9 then ⟨[4096], 1⟩ else ⟨[], 0⟩

lemma wholeBuddy_listed : wholeBuddy.Listed := ⟨by unfold Buddy.Counted; decide, by decide⟩

/-- With 2 MB free in one block, four pages are refused, forty pages get a single page, and a page
for the kernel is refused. -/
theorem wholeBuddy_not_served : wholeBuddy.Listed ∧ wholeBuddy.HasBlock 0x4000 ∧
    allocMem 0x4000 wholeBuddy = some (.null, wholeBuddy) ∧ ¬ wholeBuddy.ServesSize 0x4000 ∧
    ¬ wholeBuddy.ServesSize 0x28000 ∧ ¬ wholeBuddy.ServesPriority gfpKernel := by
  have counted := wholeBuddy_listed.counted
  have offers : wholeBuddy.Offers 0 := ⟨9, by decide, by decide, by decide⟩
  have has : ∀ size ≤ 0x200000, wholeBuddy.HasBlock size := fun size small =>
    ⟨9, by decide, by decide, small⟩
  refine ⟨wholeBuddy_listed, has _ (by decide), rfl, ?_, ?_, ?_⟩
  · exact not_servesSize counted (has _ (by decide)) fun served => absurd served.1 (by decide)
  · have zero : power (0x28000 / pageSize) = 0 := by decide
    rw [servesSize_iff_of_offers counted (by rw [zero]; decide) (by rw [zero]; exact offers), zero]
    exact fun fits => absurd (fits (has _ (by decide))) (by decide)
  · exact not_servesPriority (by decide) offers

/-- On the same state a page for an atomic request is served, and so is one byte. -/
theorem requests_served_iff_whole : wholeBuddy.Listed ∧ wholeBuddy.ServesSize 1 ∧
    wholeBuddy.ServesPriority gfpAtomic := by
  have served := requests_served_iff wholeBuddy_listed
  refine ⟨wholeBuddy_listed, (served.1 1 (by decide)).mpr (Or.inr ⟨by decide, ?_⟩), ?_⟩
  · exact ⟨9, by decide, by decide, by decide⟩
  · exact (served.2 gfpAtomic (by decide) ⟨9, by decide, by decide, by decide⟩).mpr rfl

end PrettyOS.Mm
