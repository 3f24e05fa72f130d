import PrettyOS.Lib.RadixTree

/-!
Contract: what an insertion into the radix tree does to every lookup.

A node's place is its level and the leading digits of its indices. Pushing a new root over the old
one gives the new node a place and moves none.
-/

namespace PrettyOS.Lib

open Library.DigitTree List Nat
open Function

def NodeObject.Blank (object : NodeObject) : Prop :=
  ∀ d, 0 < d → d < radixTreeMapSize → object.slots d = 0

def pointers (supply : List (Option NodeObject)) : List Nat :=
  supply.filterMap fun answer => answer.map NodeObject.pointer

structure Placed (place : Nat → Option (Nat × Nat)) (t : RadixTree) : Prop where
  low : t.height ≤ 8
  root : Points place t.height 0 t.rnode
  closed : Closed radixTreeMapSize place t.slots

structure Supplied (place : Nat → Option (Nat × Nat)) (t : RadixTree) : Prop where
  blank : ∀ object, some object ∈ t.supply → object.Blank
  nonzero : ∀ node ∈ pointers t.supply, node ≠ 0
  unplaced : ∀ node ∈ pointers t.supply, place node = none
  distinct : (pointers t.supply).Nodup

structure Preserves (place place' : Nat → Option (Nat × Nat)) (t u : RadixTree) : Prop where
  placed : Placed place' u
  supplied : Supplied place' u
  keeps : ∀ node position, place node = some position → place' node = some position
  source : ∀ node, place' node ≠ none → place node ≠ none ∨ node ∈ pointers t.supply
  supply : pointers u.supply ⊆ pointers t.supply
  lookup : ∀ j, radixTreeLookup j u = radixTreeLookup j t

variable {place place' place'' : Nat → Option (Nat × Nat)} {t u w : RadixTree}
  {i j h q value : Nat} {slot other : SlotAddress}

lemma Preserves.refl (placed : Placed place t) (supplied : Supplied place t) :
    Preserves place place t t where
  placed := placed
  supplied := supplied
  keeps _ _ same := same
  source _ inTree := Or.inl inTree
  supply := List.Subset.refl _
  lookup _ := rfl

lemma Preserves.trans (first : Preserves place place' t u)
    (second : Preserves place' place'' u w) : Preserves place place'' t w where
  placed := second.placed
  supplied := second.supplied
  keeps node position same := second.keeps node position (first.keeps node position same)
  source node inTree := by
    cases second.source node inTree with
    | inl old => exact first.source node old
    | inr new => exact .inr (first.supply new)
  supply := List.Subset.trans second.supply first.supply
  lookup j := (second.lookup j).trans (first.lookup j)

lemma radixTreeMaxindex_eq (low : h ≤ 8) : radixTreeMaxindex h = 16 ^ h - 1 := by
  interval_cases h <;> rfl

lemma le_radixTreeMaxindex_iff (low : h ≤ 8) : j ≤ radixTreeMaxindex h ↔ j / 16 ^ h = 0 := by
  have pos : 0 < 16 ^ h := Nat.pow_pos (by decide)
  rw [radixTreeMaxindex_eq low, div_eq_zero_iff_lt pos]
  omega

lemma radixTreeLookup_of_div_eq_zero (low : t.height ≤ 8) (inside : j / 16 ^ t.height = 0) :
    radixTreeLookup j t = find radixTreeMapSize t.slots t.height t.rnode j :=
  if_neg (Nat.not_lt.mpr ((le_radixTreeMaxindex_iff low).mpr inside))

lemma radixTreeLookup_of_div_ne_zero (low : t.height ≤ 8) (out : j / 16 ^ t.height ≠ 0) :
    radixTreeLookup j t = 0 :=
  if_pos (Nat.lt_of_not_le fun inside => out ((le_radixTreeMaxindex_iff low).mp inside))

lemma radixTreeLookup_congr (low : t.height ≤ 8) (height : u.height = t.height)
    (same : j / 16 ^ t.height = 0 → find radixTreeMapSize u.slots t.height u.rnode j =
        find radixTreeMapSize t.slots t.height t.rnode j) :
    radixTreeLookup j u = radixTreeLookup j t := by
  have lowU := height ▸ low
  by_cases inside : j / 16 ^ t.height = 0
  · rw [radixTreeLookup_of_div_eq_zero lowU (height.symm ▸ inside),
      radixTreeLookup_of_div_eq_zero low inside, height]
    exact same inside
  · rw [radixTreeLookup_of_div_ne_zero lowU (height.symm ▸ inside),
      radixTreeLookup_of_div_ne_zero low inside]

lemma Placed.points_root (placed : Placed place t) (inside : j / 16 ^ t.height = 0) :
    Points place t.height (j / radixTreeMapSize ^ t.height) t.rnode := by
  show Points place t.height (j / 16 ^ t.height) t.rnode
  rw [inside]
  exact placed.root

lemma extendHeight_spec {fuel height : Nat} (fits : i < 2 ^ 32) (low : height ≤ 8)
    (enough : 8 ≤ height + fuel) :
    height ≤ extendHeight i fuel height ∧ extendHeight i fuel height ≤ 8 ∧
      i ≤ radixTreeMaxindex (extendHeight i fuel height) := by
  induction fuel generalizing height with
  | zero =>
    have top : height = 8 := by omega
    rw [extendHeight, top, radixTreeMaxindex_eq (Nat.le_refl 8)]
    omega
  | succ fuel ih =>
    rw [extendHeight]
    by_cases above : i > radixTreeMaxindex height
    · have notTop : height ≠ 8 := by
        intro top
        rw [top, radixTreeMaxindex_eq (Nat.le_refl 8)] at above
        omega
      rw [if_pos above]
      have later := @ih (height + 1) (by omega) (by omega)
      exact ⟨by omega, later.2⟩
    · rw [if_neg above]
      exact ⟨Nat.le_refl _, low, Nat.not_lt.mp above⟩

section Slots

open RadixTree

lemma readSlot_writeSlot : readSlot slot (writeSlot slot value t) = value := by
  cases slot with
  | root => rfl
  | ofNode node index => simp [readSlot, writeSlot]

lemma readSlot_writeSlot_of_ne (differ : other ≠ slot) :
    readSlot other (writeSlot slot value t) = readSlot other t := by
  cases slot with
  | root =>
    cases other with
    | root => exact absurd rfl differ
    | ofNode node index => rfl
  | ofNode node index =>
    cases other with
    | root => rfl
    | ofNode node' index' =>
      show update t.slots node _ node' index' = t.slots node' index'
      by_cases same : node' = node
      · subst same
        rw [update_self, update_of_ne]
        intro sameIndex
        exact differ (by rw [sameIndex])
      · rw [update_of_ne same]

lemma writeSlot_writeSlot (first : Nat) :
    writeSlot slot value (writeSlot slot first t) = writeSlot slot value t := by
  cases slot with
  | root => rfl
  | ofNode node index => simp [writeSlot]

lemma writeSlot_readSlot : writeSlot slot (readSlot slot t) t = t := by
  cases slot with
  | root => rfl
  | ofNode node index => simp [writeSlot, readSlot]

@[simp] theorem height_writeSlot : (writeSlot slot value t).height = t.height := by
  cases slot <;> rfl

@[simp] theorem supply_writeSlot : (writeSlot slot value t).supply = t.supply := by
  cases slot <;> rfl

@[simp] theorem slots_countUp (node : Nat) : (countUp node t).slots = t.slots := by
  unfold countUp
  split <;> rfl

@[simp] theorem rnode_countUp (node : Nat) : (countUp node t).rnode = t.rnode := by
  unfold countUp
  split <;> rfl

@[simp] theorem height_countUp (node : Nat) : (countUp node t).height = t.height := by
  unfold countUp
  split <;> rfl

@[simp] theorem supply_countUp (node : Nat) : (countUp node t).supply = t.supply := by
  unfold countUp
  split <;> rfl

@[simp] theorem readSlot_countUp (node : Nat) :
    readSlot slot (countUp node t) = readSlot slot t := by
  cases slot <;> simp [readSlot]

def OnWay (place : Nat → Option (Nat × Nat)) (t : RadixTree) (h i : Nat) : SlotAddress → Prop
  | .root => h = t.height ∧ i / 16 ^ h = 0
  | .ofNode node index =>
      index = digit radixTreeMapSize h i ∧ place node = some (h + 1, i / 16 ^ (h + 1))

lemma OnWay.points (onWay : OnWay place t h i slot) (placed : Placed place t) :
    Points place h (i / 16 ^ h) (readSlot slot t) := by
  cases slot with
  | root =>
    rw [onWay.1, ← onWay.1, onWay.2, onWay.1]
    exact placed.root
  | ofNode node index =>
    rw [onWay.1]
    exact placed.closed.points (by decide) onWay.2

lemma OnWay.ne {h' : Nat} (onWay : OnWay place t h i slot) (onWay' : OnWay place t h' j other)
    (differ : h ≠ h') : slot ≠ other := by
  intro same
  subst same
  cases slot with
  | root => exact differ (onWay.1.trans onWay'.1.symm)
  | ofNode node index =>
    have levels := (place_unique onWay.2 onWay'.2).1
    omega

structure Reserves (place place' : Nat → Option (Nat × Nat)) (h : Nat) (t u : RadixTree) : Prop
    extends Preserves place place' t u where
  height : u.height = t.height
  above : ∀ h' j other, h < h' → OnWay place t h' j other → readSlot other u = readSlot other t

lemma Reserves.refl (placed : Placed place t) (sup : Supplied place t) (h : Nat) :
    Reserves place place h t t where
  toPreserves := Preserves.refl placed sup
  height := rfl
  above _ _ _ _ _ := rfl

lemma Reserves.onWay (reserves : Reserves place place' h t u) {h' : Nat}
    (onWay : OnWay place t h' j other) : OnWay place' u h' j other := by
  cases other with
  | root => exact ⟨onWay.1.trans reserves.height.symm, onWay.2⟩
  | ofNode parent index => exact ⟨onWay.1, reserves.keeps parent _ onWay.2⟩

lemma Reserves.trans {h' : Nat} (first : Reserves place place' h t u)
    (second : Reserves place' place'' h' u w) (deeper : h' ≤ h) : Reserves place place'' h t w where
  toPreserves := first.toPreserves.trans second.toPreserves
  height := second.height.trans first.height
  above level j other higher onWay :=
    (second.above level j other (Nat.lt_of_le_of_lt deeper higher) (first.onWay onWay)).trans
      (first.above level j other higher onWay)

lemma mem_pointers {object : NodeObject} {supply : List (Option NodeObject)}
    (given : some object ∈ supply) : object.pointer ∈ pointers supply :=
  mem_filterMap.mpr ⟨some object, given, rfl⟩

lemma Supplied.congr (sup : Supplied place t) (same : u.supply = t.supply) :
    Supplied place u where
  blank := same ▸ sup.blank
  nonzero := same ▸ sup.nonzero
  unplaced := same ▸ sup.unplaced
  distinct := same ▸ sup.distinct

lemma Supplied.tail {answer : Option NodeObject} {rest : List (Option NodeObject)}
    (sup : Supplied place t) (isSupply : t.supply = answer :: rest) (same : u.supply = rest) :
    Supplied place u ∧ pointers u.supply ⊆ pointers t.supply := by
  subst same
  have later : (pointers u.supply).Sublist (pointers t.supply) := by
    rw [isSupply]
    exact (sublist_cons_self _ _).filterMap _
  refine ⟨⟨?_, ?_, ?_, sup.distinct.sublist later⟩, later.subset⟩
  · exact fun object given => sup.blank object (by simp [isSupply, given])
  · exact fun node given => sup.nonzero node (later.subset given)
  · exact fun node given => sup.unplaced node (later.subset given)

structure Allocated (place : Nat → Option (Nat × Nat)) (t u : RadixTree) (q : Nat) : Prop where
  nonzero : q ≠ 0
  unplaced : place q = none
  given : q ∈ pointers t.supply
  gone : q ∉ pointers u.supply
  height : u.height = t.height
  rnode : u.rnode = t.rnode
  empty : ∀ d < radixTreeMapSize, u.slots q d = 0
  others : ∀ node ≠ q, u.slots node = t.slots node

lemma nodeAlloc_spec (placed : Placed place t) (supplied : Supplied place t) :
    (nodeAlloc t).1 = 0 ∧ (∀ h, Reserves place place h t (nodeAlloc t).2) ∨
      Allocated place t (nodeAlloc t).2 (nodeAlloc t).1 ∧ Supplied place (nodeAlloc t).2 ∧
        pointers (nodeAlloc t).2.supply ⊆ pointers t.supply := by
  obtain ⟨supply, isSupply⟩ : ∃ supply, t.supply = supply := ⟨_, rfl⟩
  cases supply with
  | nil =>
    have same : nodeAlloc t = (0, t) := by simp [nodeAlloc, isSupply]
    rw [same]
    exact .inl ⟨rfl, Reserves.refl placed supplied⟩
  | cons answer rest =>
    have tail : Supplied place { t with supply := rest } ∧
        pointers rest ⊆ pointers t.supply := supplied.tail isSupply rfl
    cases answer with
    | none =>
      have same : nodeAlloc t = (0, { t with supply := rest }) := by
        simp [nodeAlloc, isSupply]
      rw [same]
      exact .inl ⟨rfl, fun _ =>
        { placed := ⟨placed.low, placed.root, placed.closed⟩
          supplied := tail.1
          keeps := fun _ _ known => known
          source := fun _ known => .inl known
          supply := tail.2
          lookup := fun _ => rfl
          height := rfl
          above := fun _ _ other _ _ => by cases other <;> rfl }⟩
    | some object =>
      have first : some object ∈ t.supply := by simp [isSupply]
      have given := mem_pointers first
      have ne := supplied.distinct
      rw [isSupply] at ne
      have same : nodeAlloc t =
          (object.pointer, clearObject object { t with supply := rest }) := by
        simp [nodeAlloc, isSupply]
      rw [same]
      refine .inr ⟨?_, tail.1.congr rfl, tail.2⟩
      exact
        { nonzero := supplied.nonzero _ given
          unplaced := supplied.unplaced _ given
          given := given
          gone := (nodup_cons.mp ne).1
          height := rfl
          rnode := rfl
          empty := by
            intro d inside
            show update t.slots object.pointer _ object.pointer d = 0
            rw [update_self]
            by_cases cleared : d = 0
            · rw [cleared, update_self]
            · rw [update_of_ne cleared]
              exact supplied.blank object first d (Nat.pos_of_ne_zero cleared) inside
          others := fun node differ => update_of_ne differ _ _ }

def addPlace (place : Nat → Option (Nat × Nat)) (node level lead : Nat) :
    Nat → Option (Nat × Nat) :=
  update place node (some (level, lead))

lemma addPlace_keeps {node level lead : Nat} {position : Nat × Nat} (unplaced : place q = none)
    (known : place node = some position) : addPlace place q level lead node = some position := by
  rw [addPlace, update_of_ne (ne_of_placed known unplaced)]
  exact known

lemma addPlace_source {node level lead : Nat} (given : q ∈ pointers t.supply)
    (inTree : addPlace place q level lead node ≠ none) :
    place node ≠ none ∨ node ∈ pointers t.supply := by
  by_cases same : node = q
  · rw [same]
    exact .inr given
  · rw [addPlace, update_of_ne same] at inTree
    exact .inl inTree

lemma Supplied.addPlace {level lead : Nat} (sup : Supplied place t)
    (gone : q ∉ pointers t.supply) : Supplied (addPlace place q level lead) t where
  blank := sup.blank
  nonzero := sup.nonzero
  unplaced node given := by
    have differ : node ≠ q := fun same => gone (same ▸ given)
    rw [Lib.addPlace, update_of_ne differ]
    exact sup.unplaced node given
  distinct := sup.distinct

lemma Allocated.preserves {level lead : Nat} (allocated : Allocated place t u q)
    (rest : Supplied place u ∧ pointers u.supply ⊆ pointers t.supply) (same : w.supply = u.supply)
    (placed : Placed (addPlace place q level lead) w)
    (lookup : ∀ j, radixTreeLookup j w = radixTreeLookup j t) :
    Preserves place (addPlace place q level lead) t w where
  placed := placed
  supplied := (rest.1.addPlace allocated.gone).congr same
  keeps _ _ known := addPlace_keeps allocated.unplaced known
  source _ inTree := addPlace_source allocated.given inTree
  supply := same ▸ rest.2
  lookup := lookup

lemma points_addPlace {level lead : Nat} (unplaced : place q = none) {at₁ lead₁ : Nat}
    (points : Points place at₁ lead₁ value) :
    Points (addPlace place q level lead) at₁ lead₁ value :=
  points.imp_right fun deeper => deeper.imp_right fun known => addPlace_keeps unplaced known

section Link

variable {node : Nat}

lemma OnWay.ne_of_unplaced (onWay : OnWay place t h i slot) (unplaced : place q = none)
    (index : Nat) : slot ≠ .ofNode q index := by
  intro same
  rw [same] at onWay
  exact ne_of_placed onWay.2 unplaced rfl

section

variable (allocated : Allocated place t u q) (placed : Placed place t)
  (onWay : OnWay place t (h + 1) i slot)
include allocated

lemma Allocated.readSlot_other (old : other ≠ slot) (tree : ∀ index, other ≠ .ofNode q index) :
    readSlot other (countUp node (writeSlot slot q u)) = readSlot other t := by
  rw [readSlot_countUp, readSlot_writeSlot_of_ne old]
  cases other with
  | root => exact allocated.rnode
  | ofNode parent index =>
    have differ : parent ≠ q := fun same => tree index (by rw [same])
    exact congrFun (allocated.others parent differ) index

lemma Allocated.height_link : (countUp node (writeSlot slot q u)).height = t.height := by
  rw [height_countUp, height_writeSlot, allocated.height]

include onWay in
lemma Allocated.slots_new {d : Nat} (inside : d < radixTreeMapSize) :
    (countUp node (writeSlot slot q u)).slots q d = 0 := by
  show readSlot (.ofNode q d) (countUp node (writeSlot slot q u)) = 0
  rw [readSlot_countUp, readSlot_writeSlot_of_ne (onWay.ne_of_unplaced allocated.unplaced d).symm]
  exact allocated.empty d inside

include placed onWay

lemma Allocated.placed_link :
    Placed (addPlace place q (h + 1) (i / 16 ^ (h + 1))) (countUp node (writeSlot slot q u)) := by
  have height : (countUp node (writeSlot slot q u)).height = t.height := allocated.height_link
  have new : addPlace place q (h + 1) (i / 16 ^ (h + 1)) q = some (h + 1, i / 16 ^ (h + 1)) :=
    update_self _ _ _
  refine ⟨height ▸ placed.low, ?_, ?_⟩
  · rw [height]
    show Points _ t.height 0 (readSlot .root (countUp node (writeSlot slot q u)))
    by_cases atRoot : slot = .root
    · subst atRoot
      rw [readSlot_countUp, readSlot_writeSlot, ← onWay.1, ← onWay.2]
      exact .inr (.inr new)
    · rw [allocated.readSlot_other (Ne.symm atRoot) (fun index => SlotAddress.noConfusion)]
      exact points_addPlace allocated.unplaced placed.root
  intro parent level lead d known inside
  by_cases isNew : parent = q
  · rw [isNew, allocated.slots_new onWay inside]
    exact .inl rfl
  have known : place parent = some (level + 1, lead) := by
    rw [addPlace, update_of_ne isNew] at known
    exact known
  show Points _ level _ (readSlot (.ofNode parent d) (countUp node (writeSlot slot q u)))
  by_cases isSlot : slot = .ofNode parent d
  · subst isSlot
    obtain ⟨_, leads⟩ := place_unique onWay.2 known
    have sameLevel : level = h + 1 := by omega
    rw [readSlot_countUp, readSlot_writeSlot, sameLevel, ← leads, onWay.1]
    right; right
    rw [new]
    congr 2
    exact lead_eq 16 (h + 1) i
  · rw [allocated.readSlot_other (Ne.symm isSlot)
      (fun index same => isNew (by injection same))]
    exact points_addPlace allocated.unplaced (placed.closed parent level lead d known inside)

lemma Allocated.lookup (empty : readSlot slot t = 0) (j : Nat) :
    radixTreeLookup j (countUp node (writeSlot slot q u)) = radixTreeLookup j t := by
  apply radixTreeLookup_congr placed.low allocated.height_link
  intro inside
  have nothing : find radixTreeMapSize (countUp node (writeSlot slot q u)).slots (h + 1) q j =
      0 := by
    rw [find_succ allocated.nonzero,
      allocated.slots_new onWay (digit_lt (by decide) h j), find_zero]
  have through :
      find radixTreeMapSize (countUp node (writeSlot slot q u)).slots t.height t.rnode j =
        find radixTreeMapSize t.slots t.height t.rnode j := by
    apply find_eq placed.closed (by decide)
    · intro parent level known
      by_cases isSlot : slot = .ofNode parent (digit radixTreeMapSize level j)
      · subst isSlot
        have levels := (place_unique onWay.2 known).1
        have sameLevel : level = h + 1 := by omega
        right
        refine ⟨empty, ?_⟩
        show find _ _ level (readSlot (.ofNode parent _) (countUp node (writeSlot _ q u))) j = 0
        rw [sameLevel] at nothing
        rwa [readSlot_countUp, readSlot_writeSlot, sameLevel]
      · have old : OnWay place t level j (.ofNode parent (digit radixTreeMapSize level j)) :=
          ⟨rfl, known⟩
        left
        exact allocated.readSlot_other (Ne.symm isSlot) (old.ne_of_unplaced allocated.unplaced)
    · exact placed.points_root inside
  by_cases atRoot : slot = .root
  · subst atRoot
    have was : t.rnode = 0 := empty
    have is : (countUp node (writeSlot .root q u)).rnode = q := rnode_countUp node
    rw [is, was, find_zero, ← onWay.1]
    exact nothing
  · have same : (countUp node (writeSlot slot q u)).rnode = t.rnode :=
      allocated.readSlot_other (Ne.symm atRoot) (fun index => SlotAddress.noConfusion)
    rw [same]
    exact through

end

lemma addChild_spec (node : Nat) (placed : Placed place t) (sup : Supplied place t)
    (onWay : OnWay place t (h + 1) i slot) :
    ∃ place', Reserves place place' (h + 1) t (addChild node slot t).2 ∧
      ((addChild node slot t).1 = true → readSlot slot (addChild node slot t).2 ≠ 0) := by
  by_cases empty : readSlot slot t = 0
  swap
  · rw [addChild, if_neg empty]
    exact ⟨place, Reserves.refl placed sup _, fun _ => empty⟩
  rw [addChild, if_pos empty]
  cases nodeAlloc_spec placed sup with
  | inl failed =>
    dsimp only
    rw [if_pos failed.1]
    exact ⟨place, failed.2 _, fun added => by cases added⟩
  | inr found =>
    obtain ⟨allocated, rest⟩ := found
    dsimp only
    rw [if_neg allocated.nonzero]
    refine ⟨addPlace place (nodeAlloc t).1 (h + 1) (i / 16 ^ (h + 1)), ?_, ?_⟩
    · exact
        { toPreserves := allocated.preserves rest (by simp) (allocated.placed_link placed onWay)
            (allocated.lookup placed onWay empty)
          height := allocated.height_link
          above := fun _ _ other higher otherOnWay =>
            allocated.readSlot_other (otherOnWay.ne onWay (Nat.ne_of_gt higher))
              (otherOnWay.ne_of_unplaced allocated.unplaced) }
    · intro _
      rw [readSlot_countUp, readSlot_writeSlot]
      exact allocated.nonzero

lemma reserveWalk_spec (node : Nat) (placed : Placed place t) (sup : Supplied place t)
    (onWay : OnWay place t h i slot) :
    ∃ place', Reserves place place' h t (reserveWalk i h node slot t).2 ∧
      ∀ last found, (reserveWalk i h node slot t).1 = some (last, found) →
        OnWay place' (reserveWalk i h node slot t).2 0 i found ∧ ∀ item, find radixTreeMapSize
            (writeSlot found item (reserveWalk i h node slot t).2).slots h
            (readSlot slot (writeSlot found item (reserveWalk i h node slot t).2)) i = item := by
  induction h generalizing place node slot t with
  | zero =>
    refine ⟨place, Reserves.refl placed sup 0, ?_⟩
    intro last found isFound
    rw [reserveWalk] at isFound ⊢
    cases isFound
    exact ⟨onWay, fun item => readSlot_writeSlot⟩
  | succ h ih =>
    obtain ⟨place₁, reserves, filled⟩ := addChild_spec node placed sup onWay
    rw [reserveWalk]
    dsimp only
    by_cases added : (addChild node slot t).1 = true
    swap
    · rw [if_neg added]
      exact ⟨place₁, reserves, fun _ _ isFound => by cases isFound⟩
    rw [if_pos added]
    generalize (addChild node slot t).2 = u at reserves filled ⊢
    have ne0 := filled added
    have here := reserves.onWay onWay
    have known := ((here.points reserves.placed).resolve_left ne0).resolve_left (succ_ne_zero h)
    have below : OnWay place₁ u h i
        (.ofNode (readSlot slot u) (digit radixTreeMapSize h i)) := ⟨rfl, known⟩
    obtain ⟨place₂, deeper, stored⟩ := @ih place₁ u
      (.ofNode (readSlot slot u) (digit radixTreeMapSize h i)) (readSlot slot u)
      reserves.placed reserves.supplied below
    refine ⟨place₂, reserves.trans deeper (le_succ h), ?_⟩
    intro last found isFound
    obtain ⟨lowest, finds⟩ := stored last found isFound
    refine ⟨lowest, fun item => ?_⟩
    -- neither the rest of the walk nor the last store reaches the slot it started from
    have kept : readSlot slot (writeSlot found item (reserveWalk i h (readSlot slot u)
        (.ofNode (readSlot slot u) (digit radixTreeMapSize h i)) u).2) = readSlot slot u := by
      rw [readSlot_writeSlot_of_ne ((deeper.onWay here).ne lowest (succ_ne_zero h))]
      exact deeper.above (h + 1) i slot (lt_succ_self h) here
    rw [kept, find_succ ne0]
    exact finds item

end Link

lemma slots_pushRoot_self (q : Nat) (u : RadixTree) (d : Nat) :
    (pushRoot q u).slots q d = if d = 0 then u.rnode else u.slots q d := by
  show readSlot (.ofNode q d) (writeSlot (.ofNode q 0) u.rnode u) = _
  by_cases first : d = 0
  · rw [if_pos first, first, readSlot_writeSlot]
  · rw [if_neg first, readSlot_writeSlot_of_ne (fun same => first (by injection same))]
    rfl

lemma slots_pushRoot_other {node : Nat} (differ : node ≠ q) :
    (pushRoot q u).slots node = u.slots node :=
  update_of_ne differ _ _

section

variable (allocated : Allocated place t u q) (placed : Placed place t) (room : t.height + 1 ≤ 8)
include allocated

lemma Allocated.height_pushRoot : (pushRoot q u).height = t.height + 1 :=
  congrArg (· + 1) allocated.height

lemma Allocated.slots_pushRoot {node : Nat} {position : Nat × Nat}
    (known : place node = some position) : (pushRoot q u).slots node = t.slots node := by
  have differ := ne_of_placed known allocated.unplaced
  rw [slots_pushRoot_other differ, allocated.others node differ]

include placed room

lemma Allocated.placed_pushRoot : Placed (addPlace place q (t.height + 1) 0) (pushRoot q u) := by
  have height := allocated.height_pushRoot
  have new : addPlace place q (t.height + 1) 0 q = some (t.height + 1, 0) := update_self _ _ _
  refine ⟨height ▸ room, ?_, ?_⟩
  · rw [height]
    exact .inr (.inr new)
  intro node level lead d known inside
  by_cases isNew : node = q
  · obtain ⟨_, leads⟩ := place_unique new (isNew ▸ known)
    have sameLevel : t.height = level := by omega
    rw [isNew, slots_pushRoot_self, allocated.rnode, ← leads, ← sameLevel]
    by_cases first : d = 0
    · rw [if_pos first, first]
      exact points_addPlace allocated.unplaced placed.root
    · rw [if_neg first, allocated.empty d inside]
      exact .inl rfl
  · rw [addPlace, update_of_ne isNew] at known
    rw [allocated.slots_pushRoot known]
    exact points_addPlace allocated.unplaced (placed.closed node level lead d known inside)

lemma Allocated.lookup_pushRoot (j : Nat) :
    radixTreeLookup j (pushRoot q u) = radixTreeLookup j t := by
  have height := allocated.height_pushRoot
  have low := height ▸ room
  by_cases far : j / 16 ^ (t.height + 1) = 0
  swap
  · -- an index beyond the new height is beyond the old one
    have out : j / 16 ^ t.height ≠ 0 := by
      intro inside
      apply far
      rw [Nat.pow_succ, ← Nat.div_div_eq_div_mul, inside, Nat.zero_div]
    rw [radixTreeLookup_of_div_ne_zero low (height.symm ▸ far),
      radixTreeLookup_of_div_ne_zero placed.low out]
  rw [radixTreeLookup_of_div_eq_zero low (height.symm ▸ far), height]
  show find _ _ (t.height + 1) q j = _
  rw [find_succ allocated.nonzero, slots_pushRoot_self]
  have lead : j / 16 ^ t.height = digit radixTreeMapSize t.height j := by
    have split := lead_eq 16 t.height j
    rw [far, Nat.mul_zero, Nat.zero_add] at split
    exact split
  by_cases inside : j / 16 ^ t.height = 0
  · rw [if_pos (lead ▸ inside), allocated.rnode, radixTreeLookup_of_div_eq_zero placed.low inside]
    apply find_eq placed.closed (by decide)
    · intro node level known
      left
      rw [allocated.slots_pushRoot known]
    · exact placed.points_root inside
  · rw [if_neg (lead ▸ inside), allocated.empty _ (digit_lt (by decide) _ _), find_zero,
      radixTreeLookup_of_div_ne_zero placed.low inside]

end

lemma growRoot_spec (left : Nat) (placed : Placed place t) (sup : Supplied place t)
    (room : t.height + left ≤ 8) :
    ∃ place', Preserves place place' t (growRoot left t).2 ∧
      ((growRoot left t).1 = 0 ∧ (growRoot left t).2.height = t.height + left ∨
        (growRoot left t).1 < 0) := by
  induction left generalizing place t with
  | zero => exact ⟨place, Preserves.refl placed sup, .inl ⟨rfl, rfl⟩⟩
  | succ left ih =>
    rw [growRoot]
    cases nodeAlloc_spec placed sup with
    | inl failed =>
      rw [if_pos failed.1]
      exact ⟨place, (failed.2 0).toPreserves, .inr (show (-2 : Int) < 0 by decide)⟩
    | inr found =>
      obtain ⟨allocated, rest⟩ := found
      rw [if_neg allocated.nonzero]
      have pushed : Preserves place (addPlace place (nodeAlloc t).1 (t.height + 1) 0) t
          (pushRoot (nodeAlloc t).1 (nodeAlloc t).2) :=
        allocated.preserves rest rfl (allocated.placed_pushRoot placed (by omega))
          (allocated.lookup_pushRoot placed (by omega))
      have height := allocated.height_pushRoot
      obtain ⟨place', preserves, outcome⟩ := ih pushed.placed pushed.supplied (by omega)
      refine ⟨place', pushed.trans preserves, outcome.imp_left fun done => ⟨done.1, ?_⟩⟩
      rw [done.2, height]
      omega

lemma radixTreeExtend_spec (placed : Placed place t) (sup : Supplied place t)
    (fits : i < 2 ^ 32) (above : i > radixTreeMaxindex t.height) :
    ∃ place', Preserves place place' t (radixTreeExtend i t).2 ∧
      ((radixTreeExtend i t).1 = 0 ∧ i / 16 ^ (radixTreeExtend i t).2.height = 0 ∨
        (radixTreeExtend i t).1 < 0) := by
  have notTop : t.height ≠ 8 := by
    intro top
    rw [top, radixTreeMaxindex_eq (Nat.le_refl 8)] at above
    omega
  have low := placed.low
  obtain ⟨_, most, inside⟩ := @extendHeight_spec i 8 (t.height + 1) fits (by omega) (by omega)
  rw [le_radixTreeMaxindex_iff most] at inside
  rw [radixTreeExtend]
  by_cases empty : t.rnode = 0
  · rw [if_neg (not_not.mpr empty)]
    refine ⟨place, ⟨⟨most, .inl empty, placed.closed⟩, sup.congr rfl, fun _ _ known => known,
      fun _ known => .inl known, List.Subset.refl _, ?_⟩, .inl ⟨rfl, inside⟩⟩
    intro j
    unfold radixTreeLookup
    dsimp only
    rw [empty, find_zero, find_zero, ite_self, ite_self]
  · rw [if_pos empty]
    obtain ⟨place', preserves, outcome⟩ :=
      growRoot_spec (extendHeight i 8 (t.height + 1) - t.height) placed sup (by omega)
    refine ⟨place', preserves, outcome.imp_left fun done => ⟨done.1, ?_⟩⟩
    rw [done.2, Nat.add_sub_cancel' (by omega)]
    exact inside

lemma OnWay.eq_of_lowest {parent index level : Nat}
    (lowest : OnWay place t 0 i (.ofNode parent index))
    (onWay : OnWay place t level j (.ofNode parent index)) : j = i := by
  obtain ⟨_, leads⟩ := place_unique lowest.2 onWay.2
  have isLowest : level = 0 := by omega
  subst isLowest
  have digits : digit 16 0 j = digit 16 0 i := onWay.1.symm.trans lowest.1
  have iDigits := lead_eq 16 0 i
  have jDigits := lead_eq 16 0 j
  rw [Nat.pow_zero, Nat.div_one] at iDigits jDigits
  rw [iDigits, jDigits, digits]
  congr 2
  exact leads.symm

lemma lookup_writeSlot_of_ne (placed : Placed place t) (onWay : OnWay place t 0 i slot)
    (differ : j ≠ i) : radixTreeLookup j (writeSlot slot value t) = radixTreeLookup j t := by
  apply radixTreeLookup_congr placed.low height_writeSlot
  intro inside
  cases slot with
  | root =>
    -- height 0: both indices would be 0
    have isZero := onWay.2
    rw [← onWay.1, Nat.pow_zero, Nat.div_one] at inside
    rw [Nat.pow_zero, Nat.div_one] at isZero
    exact absurd (inside.trans isZero.symm) differ
  | ofNode parent index =>
    apply find_eq placed.closed (by decide)
    · intro node level known
      left
      have old : OnWay place t level j (.ofNode node (digit radixTreeMapSize level j)) :=
        ⟨rfl, known⟩
      have apart : SlotAddress.ofNode node (digit radixTreeMapSize level j) ≠
          .ofNode parent index := fun same => differ (onWay.eq_of_lowest (same ▸ old))
      exact readSlot_writeSlot_of_ne apart
    · exact placed.points_root inside

lemma Placed.writeSlot_lowest (placed : Placed place t) (onWay : OnWay place t 0 i slot)
    (value : Nat) : Placed place (writeSlot slot value t) := by
  cases slot with
  | root => exact ⟨placed.low, .inr (.inl onWay.1.symm), placed.closed⟩
  | ofNode parent index =>
    refine ⟨placed.low, placed.root, ?_⟩
    intro node level lead d known inside
    by_cases same : SlotAddress.ofNode node d = .ofNode parent index
    · injection same with sameNode _
      have levels := (place_unique onWay.2 (sameNode ▸ known)).1
      exact .inr (.inl (by omega))
    show Points place level _
      (readSlot (.ofNode node d) (writeSlot (.ofNode parent index) value t))
    rw [readSlot_writeSlot_of_ne same]
    exact placed.closed node level lead d known inside

lemma writeSlot_countUp (node : Nat) :
    writeSlot slot value (countUp node t) = countUp node (writeSlot slot value t) := by
  unfold countUp
  cases slot <;> split <;> rfl

lemma Placed.countUp (placed : Placed place t) (node : Nat) : Placed place (countUp node t) :=
  ⟨by simpa using placed.low, by simpa using placed.root, by simpa using placed.closed⟩

@[simp] theorem radixTreeLookup_countUp (node : Nat) :
    radixTreeLookup j (countUp node t) = radixTreeLookup j t := by
  simp [radixTreeLookup]

structure Inserts (place place' : Nat → Option (Nat × Nat)) (i item : Nat) (t : RadixTree)
    (result : Int × RadixTree) : Prop where
  placed : Placed place' result.2
  source : ∀ node, place' node ≠ none → place node ≠ none ∨ node ∈ pointers t.supply
  lookup : result.1 = 0 ∧ radixTreeLookup i t = 0 ∧
      (∀ j, radixTreeLookup j result.2 = if j = i then item else radixTreeLookup j t) ∨
    result.1 < 0 ∧ ∀ j, radixTreeLookup j result.2 = radixTreeLookup j t

def insertInside (i item : Nat) (t : RadixTree) : Int × RadixTree :=
  match (reserveSlot i t).2.1 with
  | none => ((reserveSlot i t).1, (reserveSlot i t).2.2)
  | some slot => ((reserveSlot i t).1, writeSlot slot item (reserveSlot i t).2.2)

lemma insertInside_spec (item : Nat) (placed : Placed place t) (sup : Supplied place t)
    (inside : i / 16 ^ t.height = 0) :
    ∃ place', Inserts place place' i item t (insertInside i item t) := by
  have start : OnWay place t t.height i .root := ⟨rfl, inside⟩
  obtain ⟨place', reserves, stored⟩ := reserveWalk_spec 0 placed sup start
  refine ⟨place', ?_⟩
  cases outcome : (reserveWalk i t.height 0 .root t).1 with
  | none =>
    have res : insertInside i item t = (-2, (reserveWalk i t.height 0 .root t).2) := by
      simp only [insertInside, reserveSlot, outcome]
    rw [res]
    exact ⟨reserves.placed, reserves.source, .inr ⟨show (-2 : Int) < 0 by decide, reserves.lookup⟩⟩
  | some hit =>
    obtain ⟨last, found⟩ := hit
    obtain ⟨lowest, finds⟩ := stored last found outcome
    generalize walked : (reserveWalk i t.height 0 .root t).2 = u at reserves finds lowest
    have insideU : i / 16 ^ u.height = 0 := by rwa [reserves.height]
    -- what the lookup of the index finds once something is stored at the addr
    have finds : ∀ value, radixTreeLookup i (writeSlot found value u) = value := by
      intro value
      have insideW : i / 16 ^ (writeSlot found value u).height = 0 := by rwa [height_writeSlot]
      rw [radixTreeLookup_of_div_eq_zero (reserves.placed.writeSlot_lowest lowest value).low
        insideW, height_writeSlot, reserves.height]
      exact finds value
    have before : radixTreeLookup i t = readSlot found u := by
      rw [← reserves.lookup i, ← finds (readSlot found u), writeSlot_readSlot]
    by_cases used : readSlot found u = 0
    swap
    · have res : insertInside i item t = (-3, u) := by
        simp only [insertInside, reserveSlot, outcome, walked, if_pos used]
      rw [res]
      exact ⟨reserves.placed, reserves.source,
        .inr ⟨show (-3 : Int) < 0 by decide, reserves.lookup⟩⟩
    have res : insertInside i item t = (0, countUp last (writeSlot found item u)) := by
      simp only [insertInside, reserveSlot, outcome, walked, if_neg (not_not.mpr used),
        writeSlot_writeSlot, writeSlot_countUp]
    rw [res]
    refine ⟨(reserves.placed.writeSlot_lowest lowest item).countUp last, reserves.source,
      .inl ⟨rfl, before.trans used, fun j => ?_⟩⟩
    rw [radixTreeLookup_countUp]
    by_cases same : j = i
    · rw [if_pos same, same]
      exact finds item
    · rw [if_neg same, lookup_writeSlot_of_ne reserves.placed lowest same]
      exact reserves.lookup j

lemma radixTreeInsert_eq (i item : Nat) (t : RadixTree) :
    radixTreeInsert i item t =
      if i > radixTreeMaxindex t.height then
        if (radixTreeExtend i t).1 ≠ 0 then radixTreeExtend i t
        else insertInside i item (radixTreeExtend i t).2
      else insertInside i item t := by
  unfold radixTreeInsert radixTreeReserve
  by_cases above : i > radixTreeMaxindex t.height
  · simp only [if_pos above]
    by_cases failed : (radixTreeExtend i t).1 ≠ 0
    · simp only [if_pos failed]
    · simp only [if_neg failed]
      rfl
  · simp only [if_neg above]
    rfl

lemma radixTreeInsert_spec (item : Nat) (placed : Placed place t) (sup : Supplied place t)
    (fits : i < 2 ^ 32) : ∃ place', Inserts place place' i item t (radixTreeInsert i item t) := by
  rw [radixTreeInsert_eq]
  by_cases above : i > radixTreeMaxindex t.height
  swap
  · rw [if_neg above]
    exact insertInside_spec item placed sup
      ((le_radixTreeMaxindex_iff placed.low).mp (Nat.not_lt.mp above))
  rw [if_pos above]
  obtain ⟨place₁, preserves, outcome⟩ := radixTreeExtend_spec placed sup fits above
  cases outcome with
  | inr failed =>
    rw [if_pos (Int.ne_of_lt failed)]
    exact ⟨place₁, preserves.placed, preserves.source, .inr ⟨failed, preserves.lookup⟩⟩
  | inl ext =>
    rw [if_neg (not_not.mpr ext.1)]
    obtain ⟨place₂, inserts⟩ := insertInside_spec item preserves.placed preserves.supplied ext.2
    refine ⟨place₂, inserts.placed, ?_, ?_⟩
    · intro node inTree
      cases inserts.source node inTree with
      | inl old => exact preserves.source node old
      | inr new => exact .inr (preserves.supply new)
    · have lookup := inserts.lookup
      simp only [preserves.lookup] at lookup
      exact lookup

end Slots

end PrettyOS.Lib
