import PrettyOS.Fs.Buffer
import PrettyOS.Kernel.HardDisk

/-!
Contract: where `buffer_init` of `fs/buffer_head.c` puts the buffers, and what a transfer of one
sector reaches there.

The area does not lie in the first sector of memory, so no address wraps around.
-/

namespace PrettyOS.Fs

open Library List Nat
open Lib (Byte)
open Kernel (HardDiskInfo hdRw ataRead ataWrite portRead portWrite hdSectorSize)

structure BufferPlace where
  head : Nat
  data : Nat
  deriving DecidableEq

def sizeofBufferHead : Nat := 36

def layBuffers (bh b : Nat) : List BufferPlace :=
  if bh + sizeofBufferHead ≤ b - sectorSize then
    ⟨bh, b - sectorSize⟩ :: layBuffers (bh + sizeofBufferHead) (b - sectorSize)
  else []
termination_by b
decreasing_by
  have positive : 0 < sizeofBufferHead := by decide
  have sector : 0 < sectorSize := by decide
  omega

section Layout

variable {bh b i : Nat} {place before : BufferPlace}

lemma layBuffers_cons (room : bh + sizeofBufferHead ≤ b - sectorSize) :
    layBuffers bh b =
      ⟨bh, b - sectorSize⟩ :: layBuffers (bh + sizeofBufferHead) (b - sectorSize) := by
  conv_lhs => unfold layBuffers
  exact if_pos room

lemma layBuffers_nil (full : ¬ bh + sizeofBufferHead ≤ b - sectorSize) : layBuffers bh b = [] := by
  conv_lhs => unfold layBuffers
  exact if_neg full

lemma place_eq (laid : (layBuffers bh b)[i]? = some place) :
    place.head = bh + sizeofBufferHead * i ∧ place.data + sectorSize * (i + 1) = b := by
  fun_induction layBuffers bh b generalizing i with
  | case1 bh b room ih =>
    have head : 0 < sizeofBufferHead := by decide
    have sector : 0 < sectorSize := by decide
    cases i with
    | zero =>
      obtain rfl : (⟨bh, b - sectorSize⟩ : BufferPlace) = place := Option.some.inj laid
      exact ⟨rfl, by dsimp only; omega⟩
    | succ i =>
      obtain ⟨_, isData⟩ := ih laid
      simp only [mul_succ] at isData ⊢
      omega
  | case2 bh b full => cases laid

lemma data_next (laid : (layBuffers bh b)[i + 1]? = some place)
    (laidBefore : (layBuffers bh b)[i]? = some before) : place.data + sectorSize = before.data := by
  have isPlace := (place_eq laid).2
  have isBefore := (place_eq laidBefore).2
  rw [mul_succ] at isPlace
  omega

lemma length_layBuffers (bh b : Nat) :
    (layBuffers bh b).length = (b - bh) / (sizeofBufferHead + sectorSize) := by
  have head : 0 < sizeofBufferHead := by decide
  have sector : 0 < sectorSize := by decide
  fun_induction layBuffers bh b with
  | case1 bh b room ih =>
    have rest : b - sectorSize - (bh + sizeofBufferHead) =
        b - bh - (sizeofBufferHead + sectorSize) := by omega
    have more : sizeofBufferHead + sectorSize ≤ b - bh := by omega
    rw [length_cons, ih, rest, div_eq_sub_div (by omega) more]
  | case2 bh b full =>
    have less : b - bh < sizeofBufferHead + sectorSize := by omega
    rw [length_nil, div_eq_of_lt less]

/-- Wherever the memory of the cache begins, the loop of `buffer_init` lays out as many buffers as
the cache counts, each head points to the data the cache uses for it, the heads lie below all data,
and no two buffers share data. -/
theorem layBuffers_bufferInit (stale : Nat → Nat) (start : Nat) :
    (layBuffers start (start + 2 ^ 8 * 4096)).length = Buffers.nrBuffers ∧
      ∀ (i j : Nat) (p q : BufferPlace), (layBuffers start (start + 2 ^ 8 * 4096))[i]? = some p →
        (layBuffers start (start + 2 ^ 8 * 4096))[j]? = some q →
        (Buffers.bufferInit stale start).bData p.head = p.data ∧
        p.head + sizeofBufferHead ≤ q.data ∧
          (i < j → p.head < q.head ∧ q.data + sectorSize ≤ p.data) := by
  have laidAll : (layBuffers start (start + 2 ^ 8 * 4096)).length = Buffers.nrBuffers := by
    rw [length_layBuffers, Nat.add_sub_cancel_left]
    rfl
  refine ⟨laidAll, fun i j p q laid other => ?_⟩
  obtain ⟨isHead, isData⟩ := place_eq laid
  obtain ⟨otherHead, otherData⟩ := place_eq other
  have few := (List.getElem?_eq_some_iff.mp laid).1
  have otherFew := (List.getElem?_eq_some_iff.mp other).1
  rw [laidAll] at few otherFew
  simp only [Buffers.nrBuffers, sizeofBufferHead, sectorSize] at *
  refine ⟨?_, by omega, by omega⟩
  rw [isHead]
  show start + 2 ^ 8 * 4096 - 512 * ((start + 36 * i - start) / 36 + 1) = _
  omega

end Layout

section Transfer

variable (hdInfo : Int → HardDiskInfo) (device s : BitVec 32)

def ReadStays (data : Nat) (mem : Nat → Byte) : Prop :=
  ∀ delivered address, address < data ∨ data + sectorSize ≤ address →
    (hdRw hdInfo device s 1 ataRead (some data) true delivered mem).mem address = mem address

def WriteStays (data : Nat) (mem : Nat → Byte) : Prop :=
  ∀ delivered, (hdRw hdInfo device s 1 ataWrite (some data) true delivered mem).sent =
    (List.range sectorSize).map fun i => mem (data + i)

variable {start finish i : Nat} {place before : BufferPlace} {mem : Nat → Byte}

lemma exists_other (byte : Byte) : ∃ other : Byte, other ≠ byte := ⟨~~~byte, by decide +revert⟩

lemma not_readStays (data : Nat) (mem : Nat → Byte) : ¬ ReadStays hdInfo device s data mem := by
  intro stays
  obtain ⟨other, differs⟩ := exists_other (mem (data + sectorSize))
  have kept := stays (fun _ => other) (data + sectorSize) (Or.inr le_rfl)
  rw [PrettyOS.Kernel.mem_hdRw_read, overwrite_add (by decide)] at kept
  exact differs kept

lemma not_writeStays (data : Nat) (mem : Nat → Byte) : ¬ WriteStays hdInfo device s data mem := by
  intro stays
  have lengths := congrArg List.length (stays fun _ => 0)
  rw [PrettyOS.Kernel.sent_hdRw_write, portWrite, length_map, length_map,
    length_range, length_range] at lengths
  exact absurd lengths (by decide)

structure Reaches (data other : Nat) (mem : Nat → Byte) : Prop where
  reads : ∀ delivered, ∀ k < sectorSize,
    (hdRw hdInfo device s 1 ataRead (some data) true delivered mem).mem (other + k) =
      delivered (sectorSize + k)
  sends : ∀ delivered, (hdRw hdInfo device s 1 ataWrite (some data) true delivered mem).sent =
      ((List.range sectorSize).map fun k => mem (data + k)) ++
        (List.range sectorSize).map fun k => mem (other + k)

lemma reaches_next {data other : Nat} (next : data + sectorSize = other) (mem : Nat → Byte) :
    Reaches hdInfo device s data other mem := by
  have same : hdSectorSize = sectorSize := rfl
  constructor
  · intro delivered k inside
    rw [PrettyOS.Kernel.mem_hdRw_read, ← next, Nat.add_assoc, overwrite_add]
    omega
  intro delivered
  rw [PrettyOS.Kernel.sent_hdRw_write, portWrite, same, Nat.two_mul, range_add, map_append, map_map]
  apply congrArg
  apply map_congr_left
  intro k _
  rw [Function.comp_apply, ← Nat.add_assoc, next]

/-- Wherever `buffer_init` has put a buffer, reading a sector stores beyond its data and writing one
sends more than its data; what is reached is the data of the buffer before it. -/
theorem transfer_never_stays (laid : (layBuffers start finish)[i]? = some place)
    (mem : Nat → Byte) :
    ¬ ReadStays hdInfo device s place.data mem ∧ ¬ WriteStays hdInfo device s place.data mem ∧
      ∀ j before, i = j + 1 → (layBuffers start finish)[j]? = some before →
        Reaches hdInfo device s place.data before.data mem := by
  refine ⟨not_readStays hdInfo device s place.data mem,
    not_writeStays hdInfo device s place.data mem, ?_⟩
  intro j before isNext laidBefore
  rw [isNext] at laid
  exact reaches_next hdInfo device s (data_next laid laidBefore) mem

end Transfer

lemma layBuffers_pair : layBuffers 65536 66632 = [⟨65536, 66120⟩, ⟨65572, 65608⟩] := by
  have first := @layBuffers_cons 65536 66632 (by decide)
  have second := @layBuffers_cons 65572 66120 (by decide)
  have last : layBuffers 65608 65608 = [] := layBuffers_nil (by decide)
  exact first.trans (congrArg _ (second.trans (congrArg _ last)))

/-- The second buffer reaches the first one. -/
theorem transfer_never_stays_pair :
    (layBuffers 65536 66632)[1]? = some ⟨65572, 65608⟩ ∧
      Reaches (fun _ => PrettyOS.Kernel.unpartitioned) 0x313 700 65608 66120 fun _ => 0 := by
  have laid : (layBuffers 65536 66632)[1]? = some ⟨65572, 65608⟩ := by
    rw [layBuffers_pair]
    rfl
  have laidBefore : (layBuffers 65536 66632)[0]? = some ⟨65536, 66120⟩ := by
    rw [layBuffers_pair]
    rfl
  exact ⟨laid, (transfer_never_stays (fun _ => PrettyOS.Kernel.unpartitioned) 0x313 700 laid
    fun _ => 0).2.2 0 ⟨65536, 66120⟩ rfl laidBefore⟩

/-- A sector of ones is read into the second of two buffers, and the data of the first one changes
from zeros to ones. -/
theorem pair_not_stays :
    (layBuffers 65536 66632)[1]? = some ⟨65572, 65608⟩ ∧
      (layBuffers 65536 66632)[0]? = some ⟨65536, 66120⟩ ∧
      (hdRw (fun _ => PrettyOS.Kernel.unpartitioned) 0x313 700 1 ataRead (some 65608) true
        (fun _ => 1) fun _ => 0).mem 66120 = 1 ∧
      ¬ ReadStays (fun _ => PrettyOS.Kernel.unpartitioned) 0x313 700 65608 fun _ => 0 := by
  have changed : (hdRw (fun _ => PrettyOS.Kernel.unpartitioned) 0x313 700 1 ataRead (some 65608)
      true (fun _ => 1) fun _ => 0).mem 66120 = 1 := rfl
  refine ⟨?_, ?_, changed, ?_⟩
  · rw [layBuffers_pair]
    rfl
  · rw [layBuffers_pair]
    rfl
  · intro stays
    have kept := stays (fun _ => 1) 66120 (Or.inr (by decide))
    exact absurd (changed.symm.trans kept) (by decide)

end PrettyOS.Fs
