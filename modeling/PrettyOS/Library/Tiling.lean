import Mathlib

/-!
Contract: power-of-two blocks of unit cells and the cells they cover.
-/

namespace PrettyOS.Library.Tiling

open List Function

structure Block where
  start : Nat
  order : Nat
deriving DecidableEq, Repr

namespace Block

def cells (block : Block) : List Nat :=
  List.range' block.start (2 ^ block.order)

def Aligned (block : Block) : Prop :=
  2 ^ block.order ∣ block.start

instance (block : Block) : Decidable block.Aligned := by
  unfold Aligned
  infer_instance

def Apart (left right : Block) : Prop :=
  left.cells.Disjoint right.cells

instance (left right : Block) : Decidable (left.Apart right) :=
  inferInstanceAs (Decidable (∀ cell ∈ left.cells, cell ∉ right.cells))

lemma mem_cells {block : Block} {cell : Nat} :
    cell ∈ block.cells ↔ block.start ≤ cell ∧ cell < block.start + 2 ^ block.order := by
  simp [cells, mem_range'_1]

lemma start_mem_cells (block : Block) : block.start ∈ block.cells := by
  have pos : 0 < 2 ^ block.order := Nat.two_pow_pos _
  exact mem_cells.mpr ⟨le_rfl, by omega⟩

lemma cells_succ (start order : Nat) :
    (Block.mk start (order + 1)).cells =
      (Block.mk start order).cells ++ (Block.mk (start + 2 ^ order) order).cells := by
  simp only [cells, pow_succ, Nat.mul_two]
  simp

lemma sum_cells_lt {low high order : Nat} (less : low < high) :
    (Block.mk low order).cells.sum < (Block.mk high order).cells.sum := by
  have pos : 0 < 2 ^ order := Nat.two_pow_pos _
  simp only [cells, sum_range']
  exact Nat.add_lt_add_right (Nat.mul_lt_mul_of_pos_left less pos) _

end Block

def orderCells (order : Nat) (starts : List Nat) : Multiset Nat :=
  ((starts.flatMap fun start => (Block.mk start order).cells : List Nat) : Multiset Nat)

@[simp] theorem orderCells_nil (order : Nat) : orderCells order [] = 0 := rfl

lemma orderCells_cons (order start : Nat) (rest : List Nat) :
    orderCells order (start :: rest) =
      ((Block.mk start order).cells : Multiset Nat) + orderCells order rest := by
  simp [orderCells]

lemma orderCells_append (order : Nat) (left right : List Nat) :
    orderCells order (left ++ right) = orderCells order left + orderCells order right := by
  simp [orderCells]

lemma card_orderCells (order : Nat) (starts : List Nat) :
    (orderCells order starts).card = starts.length * 2 ^ order := by
  simp [orderCells, Block.cells, length_flatMap]

lemma orderCells_perm {order : Nat} {left right : List Nat} (permutation : left.Perm right) :
    orderCells order left = orderCells order right :=
  Multiset.coe_eq_coe.mpr (permutation.flatMap_right _)

lemma orderCells_halves (order start : Nat) :
    orderCells order [start, start + 2 ^ order] = orderCells (order + 1) [start] := by
  simp [orderCells, Block.cells_succ]

def familyCells (count : Nat) (lists : Nat → List Nat) : Multiset Nat :=
  ∑ order ∈ Finset.range count, orderCells order (lists order)

def familyBlocks (count : Nat) (lists : Nat → List Nat) : List Block :=
  (List.range count).flatMap fun order => (lists order).map fun start => ⟨start, order⟩

def cellsOf (blocks : List Block) : List Nat :=
  blocks.flatMap Block.cells

lemma mem_familyBlocks {count : Nat} {lists : Nat → List Nat} {block : Block} :
    block ∈ familyBlocks count lists ↔
      block.order < count ∧ block.start ∈ lists block.order := by
  obtain ⟨start, order⟩ := block
  simp only [familyBlocks, mem_flatMap, mem_range, mem_map, Block.mk.injEq]
  constructor
  · rintro ⟨_, below, _, mem, rfl, rfl⟩
    exact ⟨below, mem⟩
  · rintro ⟨below, mem⟩
    exact ⟨order, below, start, mem, rfl, rfl⟩

lemma cellsOf_append (left right : List Block) :
    cellsOf (left ++ right) = cellsOf left ++ cellsOf right := by
  simp [cellsOf]

lemma coe_cellsOf_erase {block : Block} {blocks : List Block} (held : block ∈ blocks) :
    (cellsOf blocks : Multiset Nat) =
      (block.cells : Multiset Nat) + (cellsOf (blocks.erase block) : Multiset Nat) := by
  have extracted := (perm_cons_erase held).flatMap_right Block.cells
  simpa [cellsOf] using Multiset.coe_eq_coe.mpr extracted

lemma coe_cellsOf_familyBlocks (count : Nat) (lists : Nat → List Nat) :
    (cellsOf (familyBlocks count lists) : Multiset Nat) = familyCells count lists := by
  induction count with
  | zero => rfl
  | succ count ih =>
    have last : cellsOf ((lists count).map fun start => ⟨start, count⟩) =
        (lists count).flatMap fun start => (Block.mk start count).cells := by
      simp [cellsOf, flatMap_map]
    have split : familyBlocks (count + 1) lists =
        familyBlocks count lists ++ (lists count).map fun start => ⟨start, count⟩ := by
      simp [familyBlocks, range_succ]
    rw [split, cellsOf_append, last, ← Multiset.coe_add, ih]
    simp [familyCells, Finset.sum_range_succ, orderCells]

lemma familyCells_update {count order : Nat} (below : order < count)
    (lists : Nat → List Nat) (starts : List Nat) :
    familyCells count (update lists order starts) + orderCells order (lists order) =
      familyCells count lists + orderCells order starts := by
  have mem := Finset.mem_range.mpr below
  unfold familyCells
  rw [← Finset.add_sum_erase _ _ mem, ← Finset.add_sum_erase _ (fun k => orderCells k (lists k))
    mem]
  have rest : ∑ k ∈ (Finset.range count).erase order, orderCells k (update lists order starts k) =
        ∑ k ∈ (Finset.range count).erase order, orderCells k (lists k) := by
    refine Finset.sum_congr rfl fun k kMember => ?_
    rw [update_of_ne (Finset.ne_of_mem_erase kMember)]
  rw [rest, update_self]
  simp only [add_comm, add_left_comm]

def Tiles (blocks : List Block) (low high : Nat) : Prop :=
  (cellsOf blocks).Perm (List.range' low (high - low))

namespace Tiles

variable {blocks : List Block} {low high : Nat}

section

variable (tiles : Tiles blocks low high)
include tiles

lemma nodup : (cellsOf blocks).Nodup := tiles.nodup_iff.mpr nodup_range'

lemma apart : blocks.Pairwise Block.Apart := (nodup_flatMap.mp tiles.nodup).2

lemma cover (cell : Nat) : (∃ block ∈ blocks, cell ∈ block.cells) ↔ low ≤ cell ∧ cell < high := by
  have mem : cell ∈ cellsOf blocks ↔ cell ∈ List.range' low (high - low) := tiles.mem_iff
  rw [cellsOf, mem_flatMap] at mem
  rw [mem, mem_range'_1]
  omega

lemma start_bounds {block : Block} (mem : block ∈ blocks) :
    low ≤ block.start ∧ block.start + 2 ^ block.order ≤ high := by
  have pos : 0 < 2 ^ block.order := Nat.two_pow_pos _
  have first := (tiles.cover block.start).mp ⟨block, mem, block.start_mem_cells⟩
  have last := (tiles.cover (block.start + 2 ^ block.order - 1)).mp
    ⟨block, mem, Block.mem_cells.mpr ⟨by omega, by omega⟩⟩
  omega

end

end Tiles

lemma starts_ne_of_apart {left right : Block} (apart : left.Apart right) :
    left.start ≠ right.start := by
  intro same
  exact apart left.start_mem_cells (same ▸ right.start_mem_cells)

lemma cellsOf_nodup_iff {blocks : List Block} :
    (cellsOf blocks).Nodup ↔ blocks.Pairwise Block.Apart := by
  unfold cellsOf Block.Apart
  rw [nodup_flatMap]
  exact ⟨fun both => both.2, fun apart => ⟨fun _ _ => nodup_range', apart⟩⟩

end PrettyOS.Library.Tiling
