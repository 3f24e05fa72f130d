import PrettyOS.Lib.Bitmap
import PrettyOS.Library.Cells
import PrettyOS.Library.WordParts

/-!
Contract: the commands of `kernel/hd.c` to the disk controller.

Whether the controller becomes ready in time and what its data port delivers is given to a
call.

An `int` that is a device or an index is a number, one that is a sector or a count is a 32-bit
word.
-/

namespace PrettyOS.Kernel

open Library BitVec
open Lib (Byte)

structure HdCmd where
  features : Byte
  count : Byte
  lbaLow : Byte
  lbaMid : Byte
  lbaHigh : Byte
  device : Byte
  command : Byte

def makeCmd (features count lbaLow lbaMid lbaHigh device command : Byte) : HdCmd where
  features := features
  count := count
  lbaLow := lbaLow
  lbaMid := lbaMid
  lbaHigh := lbaHigh
  device := device
  command := command

def makeDeviceReg (lba drive lbaHighest : BitVec 32) : BitVec 32 :=
  (lba <<< 6) ||| (drive <<< 4) ||| (lbaHighest &&& 0xf) ||| 0xA0

def makeRwCmd (drive startSect nrSects flag : BitVec 32) : HdCmd :=
  makeCmd 0 (nrSects.setWidth 8) ((startSect &&& 0xff).setWidth 8)
    ((startSect.sshiftRight 8 &&& 0xff).setWidth 8)
    ((startSect.sshiftRight 16 &&& 0xff).setWidth 8)
    ((makeDeviceReg 1 drive (startSect.sshiftRight 24 &&& 0xF)).setWidth 8) (flag.setWidth 8)

inductive Port where
  | devCtl
  | features
  | nsector
  | lbaLow
  | lbaMid
  | lbaHigh
  | device
  | command
deriving DecidableEq

def hdCmdOut (cmd : HdCmd) : List (Port × Byte) :=
  [(.devCtl, 0), (.features, cmd.features), (.nsector, cmd.count), (.lbaLow, cmd.lbaLow),
    (.lbaMid, cmd.lbaMid), (.lbaHigh, cmd.lbaHigh), (.device, cmd.device),
    (.command, cmd.command)]

structure PartitionInfo where
  startSector : BitVec 32
  totalSectors : BitVec 32
deriving DecidableEq

structure HardDiskInfo where
  primary : Int → PartitionInfo
  logical : Int → PartitionInfo

def nrPrimPerDrive : Int := 5

def nrLogPerPart : Nat := 16

def nrLogPerDrive : Int := 64

def maxPrimary : Int := 4

def minorHd1a : Nat := 0x10

def drvOfDev (dev : Int) : Int :=
  if dev ≤ maxPrimary then dev.tdiv nrPrimPerDrive else (dev - minorHd1a).tdiv nrLogPerDrive

def makeDevHd (minor : Nat) : BitVec 32 := (3 <<< 8) ||| BitVec.ofNat 32 minor

def minor (device : BitVec 32) : Int := (device &&& 0xff).toInt

def hdSectorSize : Nat := 512

def portRead (buf nr : Nat) (delivered mem : Nat → Byte) : Nat → Byte :=
  overwrite mem buf (2 * nr) delivered

def portWrite (buf nr : Nat) (mem : Nat → Byte) : List Byte :=
  (List.range (2 * nr)).map fun i => mem (buf + i)

def ataRead : BitVec 32 := 0x20

def ataWrite : BitVec 32 := 0x30

structure Transfer where
  ret : Int
  outs : List (Port × Byte)
  sent : List Byte
  mem : Nat → Byte

def hdRw (hdInfo : Int → HardDiskInfo) (device startSect nrSects flag : BitVec 32)
    (bh : Option Nat) (ready : Bool) (delivered : Nat → Byte) (mem : Nat → Byte) : Transfer :=
  match bh with
  | none => { ret := -1, outs := [], sent := [], mem := mem }
  | some bData =>
      let drive := drvOfDev (minor device)
      let nrSects :=
        if maxPrimary < device.toInt then
          let partIndex := (device.toInt - minorHd1a).tmod nrLogPerDrive
          nrSects + ((hdInfo drive).logical partIndex).startSector
        else nrSects + ((hdInfo drive).primary device.toInt).startSector
      let outs := hdCmdOut (makeRwCmd (BitVec.ofInt 32 drive) startSect nrSects flag)
      if flag = ataRead then
        let cleared := overwrite mem bData hdSectorSize fun _ => 0
        if ready = true then
          { ret := 0, outs := outs, sent := [],
            mem := portRead bData hdSectorSize delivered cleared }
        else { ret := -2, outs := outs, sent := [], mem := cleared }
      else if flag = ataWrite then
        if ready = true then
          { ret := 0, outs := outs, sent := portWrite bData hdSectorSize mem, mem := mem }
        else { ret := -3, outs := outs, sent := [], mem := mem }
      else { ret := -4, outs := outs, sent := [], mem := mem }

section Data

variable (hdInfo : Int → HardDiskInfo) (device startSect nrSects : BitVec 32) (bData : Nat)
  (delivered mem : Nat → Byte)

lemma mem_hdRw_read : (hdRw hdInfo device startSect nrSects ataRead (some bData) true delivered
    mem).mem = overwrite mem bData (2 * hdSectorSize) delivered := by
  have covered : portRead bData hdSectorSize delivered
      (overwrite mem bData hdSectorSize fun _ => 0) =
        overwrite mem bData (2 * hdSectorSize) delivered := by
    funext addr
    simp only [portRead, overwrite]
    split_ifs <;> first | rfl | omega
  simp only [hdRw, if_true]
  exact covered

lemma sent_hdRw_write : (hdRw hdInfo device startSect nrSects ataWrite (some bData) true delivered
    mem).sent = portWrite bData hdSectorSize mem := by
  have notRead : ataWrite ≠ ataRead := by decide
  simp only [hdRw, if_neg notRead, if_true]

end Data

def register (outs : List (Port × Byte)) (port : Port) : Byte :=
  ((outs.reverse.find? (·.1 = port)).map (·.2)).getD 0

def lbaOf (outs : List (Port × Byte)) : BitVec 32 :=
  (register outs .lbaLow).setWidth 32 ||| ((register outs .lbaMid).setWidth 32 <<< 8) |||
    ((register outs .lbaHigh).setWidth 32 <<< 16) |||
    ((register outs .device &&& 15).setWidth 32 <<< 24)

structure Addresses (outs : List (Port × Byte)) (lba count : Nat) : Prop where
  sector : (lbaOf outs).toNat = lba
  count : (register outs .nsector).toNat = count
  lbaMode : (register outs .device).getLsbD 6 = true

section Registers

variable {startSect nrSects flag : BitVec 32}

lemma makeDeviceReg_nibble (lbaHighest : BitVec 32) :
    (makeDeviceReg 1 0 lbaHighest).setWidth 8 &&& 15 = (lbaHighest &&& 0xf).setWidth 8 := by
  have fixed : ∀ i < 8, (15 : Byte).getLsbD i = true →
      ((1 : BitVec 32) <<< 6).getLsbD i = false ∧ ((0 : BitVec 32) <<< 4).getLsbD i = false ∧
        (0xA0 : BitVec 32).getLsbD i = false := by
    decide
  have mask : ∀ i < 8, (15 : Byte).getLsbD i = (0xf : BitVec 32).getLsbD i := by decide
  apply eq_of_getLsbD_eq
  intro i small
  rw [getLsbD_and, getLsbD_setWidth, getLsbD_setWidth, makeDeviceReg]
  simp only [getLsbD_or, getLsbD_and]
  cases low : (15 : Byte).getLsbD i with
  | false => rw [← mask i small, low, Bool.and_false, Bool.and_false, Bool.and_false]
  | true =>
    obtain ⟨noMode, noDrive, noMark⟩ := fixed i small low
    rw [noMode, noDrive, noMark, Bool.false_or, Bool.false_or, Bool.or_false, Bool.and_true]

lemma lbaMode_makeDeviceReg (drive lbaHighest : BitVec 32) :
    ((makeDeviceReg 1 drive lbaHighest).setWidth 8).getLsbD 6 = true := by
  rw [getLsbD_setWidth, makeDeviceReg]
  simp only [getLsbD_or, show ((1 : BitVec 32) <<< 6).getLsbD 6 = true by decide, Bool.true_or]
  rfl

lemma lbaOf_makeRwCmd (small : startSect.toNat < 2 ^ 28) :
    lbaOf (hdCmdOut (makeRwCmd 0 startSect nrSects flag)) = startSect := by
  have top : (startSect.sshiftRight 24 &&& 0xF &&& 0xf).setWidth 8 =
      startSect.extractLsb' 24 8 := by
    have mask : ∀ i < 8, (0xF : BitVec 32).getLsbD i = decide (i < 4) := by decide
    ext i inside
    have clear : 4 ≤ i → startSect.getLsbD (24 + i) = false := by
      intro high
      rw [← testBit_toNat]
      exact Nat.testBit_lt_two_pow (small.trans_le (Nat.pow_le_pow_right (by decide) (by omega)))
    rw [getElem_setWidth, getLsbD_and, getLsbD_and, mask i inside,
      getLsbD_sshiftRight, if_pos (by omega), getElem_extractLsb']
    by_cases low : i < 4
    · rw [decide_eq_true low, decide_eq_false (by omega), Bool.and_true, Bool.and_true]
      rfl
    · rw [decide_eq_false low, clear (by omega), Bool.and_false]
  show ((startSect &&& 0xff).setWidth 8).setWidth 32 |||
      (((startSect.sshiftRight 8 &&& 0xff).setWidth 8).setWidth 32 <<< 8) |||
      (((startSect.sshiftRight 16 &&& 0xff).setWidth 8).setWidth 32 <<< 16) |||
      (((makeDeviceReg 1 0 (startSect.sshiftRight 24 &&& 0xF)).setWidth 8 &&& 15).setWidth 32
        <<< 24) = startSect
  rw [setWidth_and_byteMask, setWidth_sshiftRight_and _ 8 (by decide),
    setWidth_sshiftRight_and _ 16 (by decide), makeDeviceReg_nibble, top]
  exact or_bytes startSect

end Registers

lemma outs_hdRw (hdInfo : Int → HardDiskInfo) {i : Nat} (logical : i < 64)
    (s n flag : BitVec 32) (bData : Nat) (ready : Bool) (delivered mem : Nat → Byte) :
    (hdRw hdInfo (makeDevHd (minorHd1a + i)) s n flag (some bData) ready delivered mem).outs =
      hdCmdOut (makeRwCmd 0 s (n + ((hdInfo 0).logical i).startSector) flag) := by
  have device : ∀ i < 64, drvOfDev (minor (makeDevHd (minorHd1a + i))) = 0 ∧
      maxPrimary < (makeDevHd (minorHd1a + i)).toInt ∧
        ((makeDevHd (minorHd1a + i)).toInt - minorHd1a).tmod nrLogPerDrive = i := by
    decide
  obtain ⟨isDrive, isLogical, isIndex⟩ := device i logical
  rw [hdRw]
  dsimp only
  rw [isDrive, if_pos isLogical, isIndex]
  split_ifs <;> rfl

/-- A transfer on a logical partition addresses the sectors it is asked for exactly if the
partition starts at sector 0. -/
theorem hdRw_addresses_iff (hdInfo : Int → HardDiskInfo) {i : Nat} (logical : i < 64)
    (s n flag : BitVec 32) (bData : Nat) (ready : Bool) (delivered mem : Nat → Byte)
    (few : n.toNat < 256) (onDisk : ((hdInfo 0).logical i).startSector.toNat + s.toNat < 2 ^ 28) :
    Addresses
        (hdRw hdInfo (makeDevHd (minorHd1a + i)) s n flag (some bData) ready delivered mem).outs
        (((hdInfo 0).logical i).startSector.toNat + s.toNat) n.toNat ↔
      ((hdInfo 0).logical i).startSector = 0 := by
  rw [outs_hdRw hdInfo logical]
  constructor
  · intro addresses
    have sector := addresses.sector
    rw [lbaOf_makeRwCmd (by omega)] at sector
    rw [← toNat_inj]
    show _ = 0
    omega
  · intro atStart
    rw [atStart]
    constructor
    · rw [lbaOf_makeRwCmd (by omega)]
      exact (Nat.zero_add _).symm
    · show ((n + 0).setWidth 8).toNat = n.toNat
      rw [add_zero, toNat_setWidth, Nat.mod_eq_of_lt few]
    · exact lbaMode_makeDeviceReg 0 _

def unpartitioned : HardDiskInfo where
  primary _ := { startSector := 0, totalSectors := 0x10000 }
  logical _ := { startSector := 0, totalSectors := 0x10000 }

theorem hdRw_addresses_iff_unpartitioned :
    Addresses
      (hdRw (fun _ => unpartitioned) (makeDevHd (minorHd1a + 3)) 700 1 0x20 (some 0x8000) true
        (fun _ => 0) (fun _ => 0)).outs (0 + 700) 1 :=
  (hdRw_addresses_iff (fun _ => unpartitioned) (by decide) 700 1 0x20 0x8000 true (fun _ => 0)
    (fun _ => 0) (by decide) (by decide)).mpr rfl

def bootAt63 : HardDiskInfo where
  primary _ := { startSector := 0, totalSectors := 0 }
  logical _ := { startSector := 63, totalSectors := 0x10000 }

/-- Reading one sector at sector 2 of it asks the controller for 64 sectors at sector 2 of the
disk. -/
theorem not_addresses_bootAt63 :
    Addresses
        (hdRw (fun _ => bootAt63) (makeDevHd minorHd1a) 2 1 0x20 (some 0x8000) true (fun _ => 0)
          (fun _ => 0)).outs 2 64 ∧
      ¬ Addresses
        (hdRw (fun _ => bootAt63) (makeDevHd minorHd1a) 2 1 0x20 (some 0x8000) true (fun _ => 0)
          (fun _ => 0)).outs (63 + 2) 1 := by
  have asked : Addresses
      (hdRw (fun _ => bootAt63) (makeDevHd minorHd1a) 2 1 0x20 (some 0x8000) true (fun _ => 0)
        (fun _ => 0)).outs 2 64 :=
    ⟨by decide, by decide, by decide⟩
  refine ⟨asked, ?_⟩
  intro wanted
  exact absurd (asked.sector.symm.trans wanted.sector) (by decide)

end PrettyOS.Kernel
