import PrettyOS.Lib.Words
import PrettyOS.Lib.PhysCopy
import PrettyOS.Net.Defrag
import PrettyOS.Net.Device

/-!
Contract: `ip_fragment` of `net/inet/ip.c`, against the words that `ip_defrag` decodes.

The commented-out allocation is taken to return a fresh packet for every piece.
-/

namespace PrettyOS.Net

open Lib (Byte store store_of_outside uPhysCopy uPhysCopy_add uPhysCopy_of_before word16
  word16_congr word16_store)
open List Nat BitVec

def ihlAt (data : Nat → Byte) (iph : Nat) : Nat := (data iph >>> 4).toNat

def totLenAt (data : Nat → Byte) (iph : Nat) : BitVec 16 := BitVec.ofNat 16 (word16 data (iph + 2))

def flagsOffAt (data : Nat → Byte) (iph : Nat) : BitVec 16 :=
  BitVec.ofNat 16 (word16 data (iph + 6))

def setFlagsOff (data : Nat → Byte) (iph : Nat) (word : BitVec 16) : Nat → Byte :=
  store data (iph + 6) 2 word.toNat

structure Piece where
  offset : Nat
  len : Nat
  more : Bool
  data : Nat → Byte
  raw : Nat

def Piece.flagsOff (piece : Piece) : BitVec 16 := flagsOffAt piece.data 0

def pieceLen (mtu left : Nat) : Nat :=
  let len := if left > mtu then mtu else left
  -- not the last piece
  if len < left then len / 8 * 8 else len

def flagsOffOf (offset : Nat) (more : Bool) : BitVec 16 :=
  let word := htons (BitVec.ofNat 16 (offset >>> 3))
  if more = true then word ||| htons ipMf else word

def makePiece (raw fresh : Nat → Byte) (hardHeaderLen hlen ptr offset len : Nat) (more : Bool) :
    Piece :=
  let copied := uPhysCopy (uPhysCopy fresh 0 raw 0 hlen) hlen raw ptr len
  ⟨offset, len, more, setFlagsOff copied 0 (flagsOffOf offset more), hardHeaderLen⟩

def fragmentLoop (raw : Nat → Byte) (fresh : Nat → Nat → Byte) (isFlag : BitVec 32)
    (hardHeaderLen hlen mtu : Nat) : Nat → Nat → Nat → Nat → Option (List Piece)
  | 0, _, _, _ => none
  | fuel + 1, left, ptr, offset =>
      if left > 0 then
        let len := pieceLen mtu left
        let more := decide (left - len > 0 ∨ isFlag &&& 1 ≠ 0)
        (fragmentLoop raw fresh isFlag hardHeaderLen hlen mtu fuel (left - len) (ptr + len)
          (offset + len)).map
          (makePiece raw (fresh offset) hardHeaderLen hlen ptr offset len more :: ·)
      else some []

def headersLen (dev : NetDevice) (raw : Nat → Byte) : Nat :=
  ihlAt raw dev.hardHeaderLen.toNat * 4 + dev.hardHeaderLen.toNat

def payloadLen (dev : NetDevice) (raw : Nat → Byte) : Nat :=
  (ntohs (totLenAt raw dev.hardHeaderLen.toNat)).toNat - ihlAt raw dev.hardHeaderLen.toNat * 4

def roomOf (dev : NetDevice) (raw : Nat → Byte) : Nat := dev.mtu.toNat - headersLen dev raw

def ipFragment (fuel : Nat) (dev : NetDevice) (raw : Nat → Byte) (isFlag : BitVec 32)
    (fresh : Nat → Nat → Byte) : Option (List Piece) :=
  let iph := dev.hardHeaderLen.toNat
  let hlen := headersLen dev raw
  let mtu := roomOf dev raw
  if ntohs (flagsOffAt raw iph) &&& ipDf ≠ 0 then some []
  else if mtu < 8 then some []
  else
    let offset := if isFlag &&& 3 ≠ 0 then offsetIn (flagsOffAt raw iph) <<< 3 else 0
    fragmentLoop raw fresh isFlag dev.hardHeaderLen.toNat hlen mtu fuel (payloadLen dev raw) hlen
      offset

def Tiles : Nat → Nat → List Piece → Prop
  | start, stop, [] => start = stop
  | start, stop, piece :: rest =>
      piece.offset = start ∧ 0 < piece.len ∧ Tiles (start + piece.len) stop rest

variable {mtu left fuel ptr offset hardHeaderLen hlen : Nat} {raw : Nat → Byte}
  {fresh : Nat → Nat → Byte} {isFlag : BitVec 32} {dev : NetDevice} {pieces : List Piece}
  {piece : Piece}

lemma pieceLen_of_le (fits : left ≤ mtu) : pieceLen mtu left = left := by
  unfold pieceLen
  rw [if_neg (not_lt.mpr fits), if_neg (lt_irrefl left)]

lemma pieceLen_of_lt (longer : mtu < left) : pieceLen mtu left = mtu / 8 * 8 := by
  unfold pieceLen
  rw [if_pos longer, if_pos longer]

lemma pieceLen_bounds (room : 8 ≤ mtu) (some : 0 < left) :
    0 < pieceLen mtu left ∧ pieceLen mtu left ≤ left := by
  by_cases fits : left ≤ mtu
  · rw [pieceLen_of_le fits]
    exact ⟨some, le_rfl⟩
  · rw [pieceLen_of_lt (not_le.mp fits)]
    omega

lemma dvd_pieceLen (leaves : pieceLen mtu left < left) : 8 ∣ pieceLen mtu left := by
  by_cases fits : left ≤ mtu
  · rw [pieceLen_of_le fits] at leaves
    exact absurd leaves (lt_irrefl left)
  · rw [pieceLen_of_lt (not_le.mp fits)]
    exact Nat.dvd_mul_left 8 _

lemma Tiles.le {start stop : Nat} (tiles : Tiles start stop pieces) : start ≤ stop := by
  induction pieces generalizing start with
  | nil => exact le_of_eq tiles
  | cons first rest ih =>
    exact (Nat.le_add_right start first.len).trans (ih tiles.2.2)

lemma fragmentLoop_tiles (room : 8 ≤ mtu) (enough : left < fuel) :
    ∃ pieces, fragmentLoop raw fresh isFlag hardHeaderLen hlen mtu fuel left ptr offset =
        some pieces ∧
      Tiles offset (offset + left) pieces ∧ ∀ piece ∈ pieces.dropLast, 8 ∣ piece.len := by
  induction fuel generalizing left ptr offset with
  | zero => exact absurd enough (Nat.not_lt_zero left)
  | succ fuel ih =>
    by_cases isEnd : left = 0
    · rw [isEnd, fragmentLoop, if_neg (lt_irrefl 0)]
      exact ⟨[], rfl, rfl, fun _ mem => absurd mem not_mem_nil⟩
    have some := Nat.pos_of_ne_zero isEnd
    obtain ⟨pos, _⟩ := pieceLen_bounds room some
    obtain ⟨pieces, isLoop, tiles, multiples⟩ :=
      @ih (left - pieceLen mtu left) (ptr + pieceLen mtu left)
        (offset + pieceLen mtu left) (by omega)
    rw [fragmentLoop, if_pos some]
    dsimp only
    rw [isLoop]
    have stop : offset + pieceLen mtu left + (left - pieceLen mtu left) = offset + left := by
      omega
    rw [stop] at tiles
    refine ⟨_, rfl, ⟨rfl, pos, tiles⟩, ?_⟩
    cases pieces with
    | nil => exact fun _ mem => absurd mem not_mem_nil
    | cons second rest =>
      intro piece mem
      rw [dropLast_cons_cons] at mem
      rcases mem_cons.mp mem with rfl | later
      · -- the second piece has a byte, which the first one left
        have behind := tiles.2.2.le
        have hasByte := tiles.2.1
        exact dvd_pieceLen (by omega)
      · exact multiples piece later

def Piece.Agrees (piece : Piece) : Prop :=
  offsetIn piece.flagsOff <<< 3 = piece.offset ∧ moreIn piece.flagsOff = piece.more

lemma flagsOffAt_setFlagsOff (data : Nat → Byte) (iph : Nat) (word : BitVec 16) :
    flagsOffAt (setFlagsOff data iph word) iph = word := by
  rw [flagsOffAt, setFlagsOff, word16_store word.isLt, ofNat_toNat, setWidth_eq]

lemma offsetIn_flagsOffOf (multiple : 8 ∣ offset) (small : offset < 2 ^ 16) :
    offsetIn (flagsOffOf offset false) <<< 3 = offset := by
  have mask : ipOffset.toNat = 2 ^ 13 - 1 := rfl
  change ((BitVec.ofNat 16 (offset >>> 3)) &&& ipOffset).toNat <<< 3 = offset
  rw [BitVec.toNat_and, BitVec.toNat_ofNat, mask, Nat.and_two_pow_sub_one_eq_mod,
    Nat.shiftRight_eq_div_pow, Nat.shiftLeft_eq]
  omega

lemma makePiece_agrees_iff {fresh : Nat → Byte} {len : Nat} {more : Bool} (multiple : 8 ∣ offset)
    (small : offset < 2 ^ 16) :
    (makePiece raw fresh hardHeaderLen hlen ptr offset len more).Agrees ↔ more = false := by
  have word : (makePiece raw fresh hardHeaderLen hlen ptr offset len more).flagsOff =
      flagsOffOf offset more := flagsOffAt_setFlagsOff _ 0 _
  rw [Piece.Agrees, word, moreIn_eq_false]
  constructor
  · rintro ⟨-, isMore⟩
    exact isMore.symm
  · rintro rfl
    exact ⟨offsetIn_flagsOffOf multiple small, rfl⟩

lemma fragmentLoop_of_le (fits : left ≤ mtu) (notMore : isFlag &&& 1 = 0) (enough : left < fuel) :
    fragmentLoop raw fresh isFlag hardHeaderLen hlen mtu fuel left ptr offset =
      some (if left = 0 then [] else
        [makePiece raw (fresh offset) hardHeaderLen hlen ptr offset left false]) := by
  obtain ⟨fuel, rfl⟩ := exists_eq_succ_of_ne_zero (Nat.ne_zero_of_lt enough)
  by_cases isEnd : left = 0
  · rw [isEnd, fragmentLoop, if_neg (lt_irrefl 0), if_pos rfl]
  obtain ⟨fuel, rfl⟩ := exists_eq_succ_of_ne_zero (show fuel ≠ 0 by omega)
  rw [fragmentLoop, if_pos (Nat.pos_of_ne_zero isEnd), if_neg isEnd]
  dsimp only
  rw [pieceLen_of_le fits, Nat.sub_self, fragmentLoop, if_neg (lt_irrefl 0)]
  have last : decide (0 > 0 ∨ isFlag &&& 1 ≠ 0) = false :=
    decide_eq_false (fun either => either.elim (lt_irrefl 0) (fun isMore => isMore notMore))
  rw [last]
  rfl

lemma fragmentLoop_of_lt (room : 8 ≤ mtu) (longer : mtu < left)
    (isLoop : fragmentLoop raw fresh isFlag hardHeaderLen hlen mtu fuel left ptr offset =
      some pieces) :
    makePiece raw (fresh offset) hardHeaderLen hlen ptr offset (mtu / 8 * 8) true ∈ pieces := by
  cases fuel with
  | zero => cases isLoop
  | succ fuel =>
    have leaves : left - mtu / 8 * 8 > 0 := by omega
    rw [fragmentLoop, if_pos (show left > 0 by omega)] at isLoop
    dsimp only at isLoop
    rw [pieceLen_of_lt longer, decide_eq_true (Or.inl leaves)] at isLoop
    obtain ⟨_, -, rfl⟩ := Option.map_eq_some_iff.mp isLoop
    exact mem_cons_self

lemma ipFragment_eq (unfragmented : offsetIn (flagsOffAt raw dev.hardHeaderLen.toNat) = 0)
    (room : 8 ≤ roomOf dev raw) :
    ipFragment fuel dev raw isFlag fresh =
      fragmentLoop raw fresh isFlag dev.hardHeaderLen.toNat (headersLen dev raw) (roomOf dev raw)
        fuel (payloadLen dev raw) (headersLen dev raw) 0 := by
  have noDf : ntohs (flagsOffAt raw dev.hardHeaderLen.toNat) &&& ipDf = 0 := by
    have isZero : ntohs (flagsOffAt raw dev.hardHeaderLen.toNat) &&& ipOffset = 0 :=
      BitVec.eq_of_toNat_eq unfragmented
    have inside : ipDf = ipOffset &&& ipDf := by decide
    rw [inside, ← BitVec.and_assoc, isZero]
    exact zero_and
  unfold ipFragment
  dsimp only
  rw [if_neg (not_not.mpr noDf), if_neg (not_lt.mpr room), unfragmented, Nat.zero_shiftLeft,
    ite_self]

/-- The pieces of an unfragmented datagram tile its payload; `ip_defrag` reads their headers as
they were meant exactly if the payload fits in one packet. -/
theorem ipFragment_agrees_iff (unfragmented : offsetIn (flagsOffAt raw dev.hardHeaderLen.toNat) = 0)
    (notMore : isFlag &&& 1 = 0) (room : 8 ≤ roomOf dev raw) (enough : payloadLen dev raw < fuel) :
    (∃ pieces, ipFragment fuel dev raw isFlag fresh = some pieces ∧
        Tiles 0 (payloadLen dev raw) pieces ∧ (∀ piece ∈ pieces.dropLast, 8 ∣ piece.len) ∧
        ∀ piece ∈ pieces, piece.Agrees) ↔
      payloadLen dev raw ≤ roomOf dev raw := by
  rw [ipFragment_eq unfragmented room]
  constructor
  · rintro ⟨pieces, isLoop, -, -, agree⟩
    by_contra longer
    have first := fragmentLoop_of_lt room (not_le.mp longer) isLoop
    exact absurd ((makePiece_agrees_iff (dvd_zero 8) (by decide)).mp (agree _ first)) (by decide)
  intro fits
  obtain ⟨pieces, isLoop, tiles, multiples⟩ := fragmentLoop_tiles room enough
  rw [Nat.zero_add] at tiles
  refine ⟨pieces, isLoop, tiles, multiples, ?_⟩
  rw [fragmentLoop_of_le fits notMore enough] at isLoop
  intro piece member
  rw [← Option.some.inj isLoop] at member
  split_ifs at member with isEmpty
  · cases member
  · rw [mem_singleton.mp member]
    exact (makePiece_agrees_iff (dvd_zero 8) (by decide)).mpr rfl

def etherWithRoom (room : Nat) : NetDevice :=
  ⟨BitVec.ofNat 16 (34 + room), 6, 1, 0, 0, 14, iffUp, fun _ => 0, fun _ => 0⟩

def zeroDatagram (len : Nat) : Nat → Byte :=
  Function.update (Function.update (fun _ => 0) 14 0x54) 16 (BitVec.ofNat 8 (20 + len))

/-- A payload of 12 bytes where there is room for 16. -/
theorem ipFragment_agrees_iff_short :
    payloadLen (etherWithRoom 16) (zeroDatagram 12) = 12 ∧
      ∃ pieces, ipFragment 13 (etherWithRoom 16) (zeroDatagram 12) 0 (fun _ _ => 0) = some pieces ∧
        Tiles 0 (payloadLen (etherWithRoom 16) (zeroDatagram 12)) pieces ∧
        (∀ piece ∈ pieces.dropLast, 8 ∣ piece.len) ∧ ∀ piece ∈ pieces, piece.Agrees :=
  ⟨by decide, (ipFragment_agrees_iff (by decide) (by decide) (by decide) (by decide)).mpr
    (by decide)⟩

/-- A payload of 16 bytes where there is room for 8: the first of two pieces is sent with the word
0x20, which `ip_defrag` reads as the offset 0x100 and as a last fragment. -/
theorem not_agrees_twoPieces :
    ∃ first second, ipFragment 17 (etherWithRoom 8) (zeroDatagram 16) 0 (fun _ _ => 0) =
        some [first, second] ∧
      Tiles 0 16 [first, second] ∧ first.more = true ∧ first.flagsOff = 0x20 ∧
      offsetIn first.flagsOff <<< 3 = 0x100 ∧ moreIn first.flagsOff = false ∧ ¬ first.Agrees := by
  refine ⟨_, _, rfl, ⟨rfl, by decide, rfl, by decide, rfl⟩, rfl, rfl, rfl, rfl, ?_⟩
  rintro ⟨-, isMore⟩
  exact absurd isMore (by decide)

end PrettyOS.Net
