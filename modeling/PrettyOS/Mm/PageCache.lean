import PrettyOS.Lib.List
import PrettyOS.Lib.RadixMap
import PrettyOS.Library.Runs

/-!
Contract: the page cache of `mm/filemap.c` as a map from offsets to pages.

Each call comes with the answers `kmem_get_obj` gives during it. The objects are fresh, so no
pointer is handed out twice in a run; what their memory holds is not restricted by the model.
-/

namespace PrettyOS.Mm

open Lib List Function
open Library

structure PageCache where
  mapping : Nat
  pageTree : RadixTree
  cleanPages : List Nat
  pageCount : Nat → Nat
  pageMapping : Nat → Nat
  pageIndex : Nat → Nat
  inactiveList : List Nat

def addToCleanPages (page index : Nat) (s : PageCache) : PageCache :=
  { s with
    cleanPages := listAddHead page s.cleanPages
    pageMapping := update s.pageMapping page s.mapping
    pageIndex := update s.pageIndex page index }

def getPage (page : Nat) (s : PageCache) : PageCache :=
  { s with pageCount := update s.pageCount page ((s.pageCount page + 1) % 2 ^ 32) }

def addToPageTree (page offset : Nat) (s : PageCache) : Int × PageCache :=
  let held := getPage page s
  let inserted := radixTreeInsert offset page held.pageTree
  if inserted.1 < 0 then
    (-1, { held with pageTree := inserted.2 })
  else
    (0, addToCleanPages page offset { held with pageTree := inserted.2 })

def addToPageCache (page offset : Nat) (s : PageCache) : Int × PageCache :=
  let added := addToPageTree page offset s
  if added.1 < 0 then
    (-1, added.2)
  else
    (0, { added.2 with inactiveList := listAddHead page added.2.inactiveList })

structure AddCall where
  page : Nat
  offset : Nat
  supply : List (Option NodeObject)

def withSupply (supply : List (Option NodeObject)) (s : PageCache) : PageCache :=
  { s with pageTree := { s.pageTree with supply := supply } }

def cacheStep (call : AddCall) (s : PageCache) : Option (Int × PageCache) :=
  some (addToPageCache call.page call.offset (withSupply call.supply s))

def initPageTree (s : PageCache) : PageCache :=
  { s with pageTree := initRadixTree s.pageTree }

def cached (i : Nat) (s : PageCache) : Nat := radixTreeLookup i s.pageTree

def pageAdded : List AddCall → List Int → Nat → Nat
  | call :: calls, result :: results, i =>
      if result = 0 ∧ call.offset = i then call.page else pageAdded calls results i
  | _, _, _ => 0

def FailsSafely (call : AddCall) (s : PageCache) (result : Int) (t : PageCache) : Prop :=
  (cached call.offset s ≠ 0 → result < 0) ∧ (result < 0 → ∀ i < 2 ^ 32, cached i t = cached i s)

def IsMap (calls : List AddCall) (s : PageCache) : Prop :=
  ∃ results t, runSteps cacheStep calls s = some (results, t) ∧
    (∀ i < 2 ^ 32, cached i t = pageAdded calls results i) ∧
    AfterEach cacheStep FailsSafely calls s

structure Admissible (calls : List AddCall) : Prop where
  page : ∀ call ∈ calls, call.page ≠ 0
  offset : ∀ call ∈ calls, call.offset < 2 ^ 32
  object : ∀ call ∈ calls, ∀ node ∈ pointers call.supply, node ≠ 0
  fresh : (calls.flatMap fun call => pointers call.supply).Nodup

def BlankObjects (calls : List AddCall) : Prop :=
  ∀ call ∈ calls, ∀ object, some object ∈ call.supply → object.Blank

variable {place : Nat → Option (Nat × Nat)} {calls : List AddCall} {call : AddCall}
  {s t : PageCache} {results : List Int}

lemma addToPageCache_eq (page offset : Nat) (s : PageCache) :
    (addToPageCache page offset s).1 =
        (if (radixTreeInsert offset page s.pageTree).1 < 0 then -1 else 0) ∧
      (addToPageCache page offset s).2.pageTree =
        (radixTreeInsert offset page s.pageTree).2 := by
  unfold addToPageCache
  by_cases failed : (radixTreeInsert offset page s.pageTree).1 < 0
  · have added : addToPageTree page offset s =
        (-1, { getPage page s with pageTree := (radixTreeInsert offset page s.pageTree).2 }) :=
      if_pos failed
    rw [added, if_pos failed]
    exact ⟨rfl, rfl⟩
  have added : addToPageTree page offset s = (0, addToCleanPages page offset
        { getPage page s with pageTree := (radixTreeInsert offset page s.pageTree).2 }) :=
    if_neg failed
  rw [added, if_neg failed]
  exact ⟨rfl, rfl⟩

structure AddsOrFails (call : AddCall) (s : PageCache) (result : Int) (t : PageCache) : Prop where
  lookup : result = 0 ∧ cached call.offset s = 0 ∧
      (∀ i, cached i t = if i = call.offset then call.page else cached i s) ∨
    result = -1 ∧ ∀ i, cached i t = cached i s

lemma cacheStep_spec (placed : Placed place s.pageTree) (fits : call.offset < 2 ^ 32)
    (sup : Supplied place (withSupply call.supply s).pageTree) :
    ∃ res t place', cacheStep call s = some (res, t) ∧ Placed place' t.pageTree ∧
      (∀ node, place' node ≠ none → place node ≠ none ∨ node ∈ pointers call.supply) ∧
      AddsOrFails call s res t := by
  obtain ⟨isResult, isTree⟩ := addToPageCache_eq call.page call.offset (withSupply call.supply s)
  have ready : Placed place (withSupply call.supply s).pageTree :=
    ⟨placed.low, placed.root, placed.closed⟩
  obtain ⟨place', inserts⟩ := radixTreeInsert_spec call.page ready sup fits
  unfold cacheStep
  generalize addToPageCache call.page call.offset (withSupply call.supply s) = done at *
  refine ⟨done.1, done.2, place', rfl, ?_, inserts.source, ⟨?_⟩⟩
  · rw [isTree]
    exact inserts.placed
  unfold cached
  rw [isResult, isTree]
  refine inserts.lookup.imp (fun added => ⟨?_, added.2⟩) (fun failed => ⟨?_, failed.2⟩)
  · rw [added.1]
    rfl
  · exact if_pos failed.1

lemma AddsOrFails.failsSafely {res : Int} (outcome : AddsOrFails call s res t) :
    FailsSafely call s res t := by
  constructor
  · intro used
    cases outcome.lookup with
    | inl added => exact absurd added.2.1 used
    | inr failed =>
      rw [failed.1]
      decide
  · intro neg i _
    cases outcome.lookup with
    | inl added =>
      rw [added.1] at neg
      exact absurd neg (by decide)
    | inr failed => exact failed.2 i

lemma AddsOrFails.before_later {res : Int} (outcome : AddsOrFails call s res t)
    (page : call.page ≠ 0) (i later : Nat) :
    (if cached i t = 0 then later else cached i t) =
      if cached i s = 0 then if res = 0 ∧ call.offset = i then call.page else later
      else cached i s := by
  cases outcome.lookup with
  | inl added =>
    obtain ⟨isZero, free, changed⟩ := added
    rw [changed i]
    by_cases here : i = call.offset
    · rw [if_pos here, if_neg page, here, if_pos free, if_pos ⟨isZero, rfl⟩]
    · have away : ¬ (res = 0 ∧ call.offset = i) := fun both => here both.2.symm
      rw [if_neg here, if_neg away]
  | inr failed =>
    have away : ¬ (res = 0 ∧ call.offset = i) := by
      intro both
      rw [failed.1] at both
      exact absurd both.1 (by decide)
    rw [failed.2 i, if_neg away]

lemma run_isMap (placed : Placed place s.pageTree)
    (away : ∀ call ∈ calls, ∀ node ∈ pointers call.supply, place node = none)
    (admissible : Admissible calls) (blank : BlankObjects calls) :
    ∃ results t, runSteps cacheStep calls s = some (results, t) ∧
      (∀ i, cached i t = if cached i s = 0 then pageAdded calls results i else cached i s) ∧
      AfterEach cacheStep FailsSafely calls s := by
  induction calls generalizing place s with
  | nil =>
    refine ⟨[], s, rfl, fun i => ?_, trivial⟩
    split
    · assumption
    · rfl
  | cons call rest ih =>
    obtain ⟨page, pages⟩ := forall_mem_cons.mp admissible.page
    obtain ⟨offset, offsets⟩ := forall_mem_cons.mp admissible.offset
    obtain ⟨object, objs⟩ := forall_mem_cons.mp admissible.object
    obtain ⟨blankNow, blankLater⟩ := forall_mem_cons.mp blank
    obtain ⟨awayNow, awayLater⟩ := forall_mem_cons.mp away
    have fresh := admissible.fresh
    rw [flatMap_cons, nodup_append] at fresh
    obtain ⟨res, t, place', isStep, placed', source, outcome⟩ :=
      cacheStep_spec placed offset ⟨blankNow, object, awayNow, fresh.1⟩
    -- the nodes of the tree are those handed out so far, and later objects are others
    have away' : ∀ call ∈ rest, ∀ node ∈ pointers call.supply, place' node = none := by
      intro later inRest node given
      by_contra inTree
      cases source node inTree with
      | inl old => exact old (awayLater later inRest node given)
      | inr now =>
        exact fresh.2.2 node now node (mem_flatMap.mpr ⟨later, inRest, given⟩) rfl
    obtain ⟨results, last, isRest, lookups, after⟩ := ih placed' away'
      ⟨pages, offsets, objs, fresh.2.1⟩ blankLater
    refine ⟨res :: results, last, ?_, ?_, ?_⟩
    · exact runSteps_extend isStep isRest
    · intro i
      rw [lookups i, pageAdded]
      exact outcome.before_later page i _
    · intro result' t' isStep'
      cases isStep.symm.trans isStep'
      exact ⟨outcome.failsSafely, after⟩

lemma placed_initPageTree (s : PageCache) : Placed (fun _ => none) (initPageTree s).pageTree where
  low := Nat.zero_le _
  root := Or.inl rfl
  closed node level lead d known _ := by cases known

lemma cached_initPageTree (i : Nat) (s : PageCache) : cached i (initPageTree s) = 0 := ite_self 0

/-- From an empty tree, every run of `add_to_page_cache` in which the objects handed out are empty
behind their first eight bytes leaves a map, whatever the offsets and wherever allocations fail. -/
theorem pageCache_isMap (s : PageCache) (admissible : Admissible calls)
    (blank : BlankObjects calls) : IsMap calls (initPageTree s) := by
  obtain ⟨results, t, returned, lookups, after⟩ :=
    run_isMap (placed_initPageTree s) (fun _ _ _ _ => rfl) admissible blank
  refine ⟨results, t, returned, ?_, after⟩
  intro i _
  rw [lookups i, if_pos (cached_initPageTree i s)]

def emptyCache : PageCache :=
  initPageTree
    { mapping := 0x8000
      pageTree :=
        { height := 0, rnode := 0, count := fun _ => 0, slots := fun _ _ => 0, supply := [] }
      cleanPages := []
      pageCount := fun _ => 0
      pageMapping := fun _ => 0
      pageIndex := fun _ => 0
      inactiveList := [] }

def filledObject (pointer word : Nat) : NodeObject := ⟨pointer, word, fun _ => word⟩

lemma blank_filledObject (pointer : Nat) : (filledObject pointer 0).Blank :=
  fun _ _ _ => rfl

/-- Two offsets in two leaves, with an allocation left over. -/
theorem pageCache_isMap_twoPages :
    IsMap
      [⟨0x1000, 1, [some (filledObject 0x7000 0)]⟩,
        ⟨0x2000, 17, [some (filledObject 0x7100 0), some (filledObject 0x7200 0), none]⟩]
      (initPageTree emptyCache) := by
  apply pageCache_isMap emptyCache
  · exact ⟨by decide, by decide, by decide, by decide⟩
  intro call inCalls object given
  simp only [mem_cons, not_mem_nil, or_false] at inCalls
  cases inCalls with
  | inl first =>
    rw [first, mem_singleton] at given
    cases given
    exact blank_filledObject _
  | inr second =>
    rw [second] at given
    simp only [mem_cons, not_mem_nil, or_false, reduceCtorEq] at given
    cases given with
    | inl root =>
      cases root
      exact blank_filledObject _
    | inr leaf =>
      cases leaf
      exact blank_filledObject _

/-- The first call of all, at offset 1, with an object that still holds old data: it is refused
as if the offset were occupied, and the lookup of the offset then returns the old data. -/
theorem not_isMap_staleObject :
    Admissible [⟨0x1000, 1, [some (filledObject 0x7000 0xdead0000)]⟩] ∧
      (cacheStep ⟨0x1000, 1, [some (filledObject 0x7000 0xdead0000)]⟩ emptyCache).map
        (fun done => (done.1, cached 1 done.2)) = some (-1, 0xdead0000) ∧
      ¬ IsMap [⟨0x1000, 1, [some (filledObject 0x7000 0xdead0000)]⟩] emptyCache := by
  refine ⟨⟨by decide, by decide, by decide, by decide⟩, by decide, ?_⟩
  rintro ⟨results, t, returned, lookups, -⟩
  have value : (runSteps cacheStep [⟨0x1000, 1, [some (filledObject 0x7000 0xdead0000)]⟩]
      emptyCache).map (fun done => (done.1, cached 1 done.2)) = some ([-1], 0xdead0000) := by
    decide
  rw [returned] at value
  injection value with value
  injection value with isResults isCached
  have expected := lookups 1 (by decide)
  rw [isCached, show results = [-1] from isResults] at expected
  exact absurd expected (by decide)

def LeavesPageAlone (page : Nat) (s t : PageCache) : Prop :=
  t.pageCount page = s.pageCount page ∧ t.pageMapping page = s.pageMapping page ∧
    t.pageIndex page = s.pageIndex page ∧ t.cleanPages = s.cleanPages ∧
    t.inactiveList = s.inactiveList

lemma addToPageCache_refused {page offset : Nat} (refused : (addToPageCache page offset s).1 < 0) :
    addToPageCache page offset s =
      (-1, { getPage page s with pageTree := (radixTreeInsert offset page s.pageTree).2 }) := by
  rw [(addToPageCache_eq page offset s).1] at refused
  have failed : (radixTreeInsert offset page s.pageTree).1 < 0 := by
    by_contra inserted
    rw [if_neg inserted] at refused
    exact absurd refused (by decide)
  have added : addToPageTree page offset s =
      (-1, { getPage page s with pageTree := (radixTreeInsert offset page s.pageTree).2 }) :=
    if_pos failed
  rw [addToPageCache, added]
  rfl

/-- Every refused insertion keeps the reference that `get_page` took before the tree was asked,
and changes nothing else of the page, of `clean_pages` and of `inactive_list`. -/
theorem addToPageCache_refused_keeps_reference (page offset : Nat) (s : PageCache)
    (refused : (addToPageCache page offset s).1 < 0) : let t := (addToPageCache page offset s).2
    (t.pageCount = update s.pageCount page ((s.pageCount page + 1) % 2 ^ 32) ∧
      t.pageMapping = s.pageMapping ∧ t.pageIndex = s.pageIndex ∧
      t.cleanPages = s.cleanPages ∧ t.inactiveList = s.inactiveList) ∧
      ¬ LeavesPageAlone page s t := by
  intro t
  have isLeft : t =
      { getPage page s with pageTree := (radixTreeInsert offset page s.pageTree).2 } :=
    congrArg Prod.snd (addToPageCache_refused refused)
  rw [isLeft]
  refine ⟨⟨rfl, rfl, rfl, rfl, rfl⟩, fun alone => ?_⟩
  have counted : update s.pageCount page ((s.pageCount page + 1) % 2 ^ 32) page =
      s.pageCount page := alone.1
  rw [update_self] at counted
  omega

theorem addToPageCache_refused_keeps_reference_emptyCache :
    let t := (addToPageCache 0x1000 1 emptyCache).2
    (t.pageCount = update emptyCache.pageCount 0x1000 1 ∧
      t.pageMapping = emptyCache.pageMapping ∧ t.pageIndex = emptyCache.pageIndex ∧
      t.cleanPages = emptyCache.cleanPages ∧ t.inactiveList = emptyCache.inactiveList) ∧
      ¬ LeavesPageAlone 0x1000 emptyCache t :=
  addToPageCache_refused_keeps_reference 0x1000 1 emptyCache (by decide)

/-- No node can be allocated for the first page of all. -/
theorem addToPageCache_emptyCache_counts :
    (addToPageCache 0x1000 1 emptyCache).1 = -1 ∧ emptyCache.pageCount 0x1000 = 0 ∧
      (addToPageCache 0x1000 1 emptyCache).2.pageCount 0x1000 = 1 := by
  decide

end PrettyOS.Mm
