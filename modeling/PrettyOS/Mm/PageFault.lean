import PrettyOS.Mm.PageTable

/-!
Contract: the page faults of `mm/memory.c`.
-/

namespace PrettyOS.Mm

open List

def pageRw : Nat := 0x002
def pageAccessed : Nat := 0x008
def pageDirty : Nat := 0x010

def pteIswrite (value : Nat) : Prop := value &&& pageRw ≠ 0

instance (value : Nat) : Decidable (pteIswrite value) := inferInstanceAs (Decidable (_ ≠ _))

def pteMkwrite (value : Nat) : Nat := value ||| pageRw
def pteMkyoung (value : Nat) : Nat := value ||| pageAccessed
def pteMkdirty (value : Nat) : Nat := value ||| pageDirty

inductive FaultCall where
  | oom
  | bogusPage (address : Nat) (oldPage : Option Nat)
deriving DecidableEq, Repr

structure Fault where
  paging : Paging
  made : List FaultCall

namespace Fault

def call (made : FaultCall) (f : Fault) : Fault := { f with made := f.made ++ [made] }

def entry (slot : Nat) (f : Fault) : Nat := f.paging.tables.entry slot

def setEntry (slot value : Nat) (f : Fault) : Fault :=
  { f with paging := f.paging.setEntry slot value }

end Fault

def doNoPage (f : Fault) : Fault := { f with paging := (getFreePageKernel f.paging).2 }

def doWpPage (cr3 address : Nat) (f : Fault) : Fault :=
  let (newPage, paging) := getFreePageKernel f.paging
  let f := { f with paging }
  let tables := f.paging.tables
  let pgd := pgdOffset cr3 address
  if entryNone (f.entry pgd) then f
  else
    let pmd := pmdOffset pgd address tables
    if entryNone (f.entry pmd) then f
    else if pmdBad (f.entry pmd) tables then f.call (.bogusPage address none)
    else
      let slot := pteOffset pmd address tables
      let pte := f.entry slot
      if ¬ ptePresent pte then f
      else if pteIswrite pte then f
      else
        let oldPage := tables.address (tables.entryPage pte)
        if oldPage ≥ tables.mainMemoryEnd then f.call (.bogusPage address (some oldPage))
        else
          let written := f.setEntry slot (pteMkdirty (pteMkwrite pte))
          if newPage ≠ 0 then written else written.call (.bogusPage address (some oldPage))

def handlePteFault (cr3 address slot : Nat) (writeAccess : Int) (f : Fault) : Fault :=
  if ¬ ptePresent (f.entry slot) then doNoPage f
  else
    let young := f.setEntry slot (pteMkyoung (f.entry slot))
    if writeAccess = 0 then young.setEntry slot (pteMkdirty (young.entry slot))
    else doWpPage cr3 address young

def handleMmFault (cr3 address : Nat) (writeAccess : Int) (f : Fault) : Fault :=
  let pmd := pmdAlloc (pgdOffset cr3 address) address
  if pmd = 0 then f.call .oom
  else
    let allocated := pteAlloc pmd address f.paging
    let f := { f with paging := allocated.2 }
    if allocated.1 = 0 then f.call .oom
    else (handlePteFault cr3 address allocated.1 writeAccess f).call .oom

variable {cr3 address slot : Nat} {writeAccess : Int} {f : Fault}

structure Resolved (slot : Nat) (writeAccess : Int) (f after : Fault) : Prop where
  quiet : after.made.count .oom = f.made.count .oom
  read : writeAccess = 0 → after.entry slot = f.entry slot ||| pageAccessed
  write : writeAccess ≠ 0 → ptePresent (after.entry slot) ∧ pteIswrite (after.entry slot) ∧
    after.entry slot &&& pageDirty ≠ 0 ∧ ∀ i < pageSize,
      after.paging.tables.mem (tableOf (after.entry slot) + i) =
        f.paging.tables.mem (tableOf (f.entry slot) + i)

lemma prefix_doWpPage : f.made <+: (doWpPage cr3 address f).made := by
  unfold doWpPage
  dsimp only
  split_ifs <;> simp [Fault.call, Fault.setEntry]

lemma prefix_handlePteFault :
    f.made <+: (handlePteFault cr3 address slot writeAccess f).made := by
  unfold handlePteFault
  dsimp only
  split_ifs
  · exact prefix_rfl
  · exact @prefix_doWpPage cr3 address (f.setEntry slot (pteMkyoung (f.entry slot)))
  · exact prefix_rfl

lemma handleMmFault_eq : ∃ t : Fault, handleMmFault cr3 address writeAccess f = t.call .oom ∧
    f.made <+: t.made := by
  unfold handleMmFault
  dsimp only
  generalize pteAlloc (pmdAlloc (pgdOffset cr3 address) address) address f.paging = alloc
  split_ifs
  · exact ⟨f, rfl, prefix_rfl⟩
  · exact ⟨_, rfl, prefix_rfl⟩
  · refine ⟨_, rfl, ?_⟩
    exact @prefix_handlePteFault cr3 address alloc.1 writeAccess ⟨alloc.2, f.made⟩

lemma handlePteFault_read (here : ptePresent (f.entry slot)) :
    (handlePteFault cr3 address slot 0 f).entry slot =
      f.entry slot ||| pageAccessed ||| pageDirty := by
  have small := entry_lt slot f.paging.tables
  have young : pteMkyoung (f.entry slot) < 2 ^ 32 := Nat.or_lt_two_pow small (by decide)
  have dirty : pteMkdirty (pteMkyoung (f.entry slot)) < 2 ^ 32 :=
    Nat.or_lt_two_pow young (by decide)
  have stored {g : Fault} {value : Nat} (below : value < 2 ^ 32) :
      (g.setEntry slot value).entry slot = value :=
    Lib.word32_store below
  simp only [handlePteFault, here, not_true, if_false, if_true, stored young, stored dirty]
  rfl

/-- No fault on a present page is resolved: `oom` is called for it, and a read leaves the dirty
bit behind. -/
theorem handleMmFault_not_resolved (reached : pmdAlloc (pgdOffset cr3 address) address ≠ 0)
    (found : (pteAlloc (pmdAlloc (pgdOffset cr3 address) address) address f.paging).1 = slot)
    (nonnull : slot ≠ 0)
    (present : ptePresent ((pteAlloc (pmdAlloc (pgdOffset cr3 address) address) address
      f.paging).2.tables.entry slot)) :
    ¬ Resolved slot writeAccess f (handleMmFault cr3 address writeAccess f) ∧
      (handleMmFault cr3 address writeAccess f).made.getLast? = some .oom ∧
      (writeAccess = 0 → (handleMmFault cr3 address writeAccess f).entry slot =
        (pteAlloc (pmdAlloc (pgdOffset cr3 address) address) address f.paging).2.tables.entry slot
          ||| pageAccessed ||| pageDirty) := by
  obtain ⟨t, result, grows⟩ := @handleMmFault_eq cr3 address writeAccess f
  refine ⟨fun resolved => ?_, by simp [result, Fault.call], ?_⟩
  · have quiet := resolved.quiet
    have more := grows.sublist.count_le FaultCall.oom
    simp [result, Fault.call] at quiet
    omega
  rintro rfl
  subst found
  simp only [handleMmFault, reached, nonnull, if_false]
  exact handlePteFault_read present

def readOnlyPage : Fault where
  paging :=
    let s := oneEntry 0x60cc00 0x600000 0x602017
    s.setEntry (0x60cc00 + sizeofPage * 0x602) 0x700005
  made := []

theorem handleMmFault_not_resolved_readOnly :
    ¬ Resolved 0x621C70 0 readOnlyPage (handleMmFault 0x600000 0 0 readOnlyPage) :=
  (@handleMmFault_not_resolved 0x600000 0 0x621C70 0 readOnlyPage (by decide) (by decide)
    (by decide) (by decide)).1

/-- The read leaves the page dirty and the write leaves it read-only, and both call `oom`. -/
theorem handleMmFault_readOnlyPage :
    (pteAlloc (pmdAlloc (pgdOffset 0x600000 0) 0) 0 readOnlyPage.paging).1 = 0x621C70 ∧
      readOnlyPage.entry 0x621C70 = 0x700005 ∧
      (handleMmFault 0x600000 0 0 readOnlyPage).entry 0x621C70 = 0x70001D ∧
      (handleMmFault 0x600000 0 0 readOnlyPage).made = [.oom] ∧
      (handleMmFault 0x600000 0 1 readOnlyPage).entry 0x621C70 = 0x70000D ∧
      (handleMmFault 0x600000 0 1 readOnlyPage).made = [.oom] := by
  decide

end PrettyOS.Mm
