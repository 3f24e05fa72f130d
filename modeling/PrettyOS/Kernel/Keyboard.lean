import PrettyOS.Library.RingBuffer

/-!
Contract: the keyboard of `kernel/keyboard.c`, from the interrupt to the key handed to a
terminal.

A `char` is a byte read as a signed number, as it is on i386: `scan_code == 0xE0` compares a
number below 128 with 224. `none` is a wait for a byte that nothing delivers.
-/

namespace PrettyOS.Kernel

open Library

def kbInBytes : Nat := 32

namespace Key

def flagExt : Nat := 0x0100
def flagShiftL : Nat := 0x0200
def flagShiftR : Nat := 0x0400
def flagCtrlL : Nat := 0x0800
def flagCtrlR : Nat := 0x1000
def flagAltL : Nat := 0x2000
def flagAltR : Nat := 0x4000
def flagPad : Nat := 0x8000

def maskRaw : Nat := 0x01FF

def esc : Nat := 0x01 + flagExt
def tab : Nat := 0x02 + flagExt
def enter : Nat := 0x03 + flagExt
def backspace : Nat := 0x04 + flagExt
def guiL : Nat := 0x05 + flagExt
def guiR : Nat := 0x06 + flagExt
def apps : Nat := 0x07 + flagExt
def shiftL : Nat := 0x08 + flagExt
def shiftR : Nat := 0x09 + flagExt
def ctrlL : Nat := 0x0A + flagExt
def ctrlR : Nat := 0x0B + flagExt
def altL : Nat := 0x0C + flagExt
def altR : Nat := 0x0D + flagExt
def capsLock : Nat := 0x0E + flagExt
def numLock : Nat := 0x0F + flagExt
def scrollLock : Nat := 0x10 + flagExt

def f (n : Nat) : Nat := 0x10 + n + flagExt
def printscreen : Nat := 0x1D + flagExt
def pausebreak : Nat := 0x1E + flagExt
def insert : Nat := 0x1F + flagExt
def delete : Nat := 0x20 + flagExt
def home : Nat := 0x21 + flagExt
def end_ : Nat := 0x22 + flagExt
def pageup : Nat := 0x23 + flagExt
def pagedown : Nat := 0x24 + flagExt
def up : Nat := 0x25 + flagExt
def down : Nat := 0x26 + flagExt
def left : Nat := 0x27 + flagExt
def right : Nat := 0x28 + flagExt
def padSlash : Nat := 0x2C + flagExt
def padStar : Nat := 0x2D + flagExt
def padMinus : Nat := 0x2E + flagExt
def padPlus : Nat := 0x2F + flagExt
def padEnter : Nat := 0x30 + flagExt
def padDot : Nat := 0x31 + flagExt

def pad (n : Nat) : Nat := 0x32 + n + flagExt

end Key

open Key in
def keymap : List (Nat × Nat × Nat) :=
  [ (0, 0, 0), (esc, esc, 0),
    -- 0x02 to 0x0D: the row of digits
    (0x31, 0x21, 0), (0x32, 0x40, 0), (0x33, 0x23, 0), (0x34, 0x24, 0), (0x35, 0x25, 0),
    (0x36, 0x5E, 0), (0x37, 0x26, 0), (0x38, 0x2A, 0), (0x39, 0x28, 0), (0x30, 0x29, 0),
    (0x2D, 0x5F, 0), (0x3D, 0x2B, 0),
    (backspace, backspace, 0), (tab, tab, 0),
    -- 0x10 to 0x1B: q to ]
    (0x71, 0x51, 0), (0x77, 0x57, 0), (0x65, 0x45, 0), (0x72, 0x52, 0), (0x74, 0x54, 0),
    (0x79, 0x59, 0), (0x75, 0x55, 0), (0x69, 0x49, 0), (0x6F, 0x4F, 0), (0x70, 0x50, 0),
    (0x5B, 0x7B, 0), (0x5D, 0x7D, 0),
    (enter, enter, padEnter), (ctrlL, ctrlL, ctrlR),
    -- 0x1E to 0x29: a to the back quote
    (0x61, 0x41, 0), (0x73, 0x53, 0), (0x64, 0x44, 0), (0x66, 0x46, 0), (0x67, 0x47, 0),
    (0x68, 0x48, 0), (0x6A, 0x4A, 0), (0x6B, 0x4B, 0), (0x6C, 0x4C, 0), (0x3B, 0x3A, 0),
    (0x27, 0x22, 0), (0x60, 0x7E, 0),
    (shiftL, shiftL, 0),
    -- 0x2B to 0x35: the backslash to /
    (0x5C, 0x7C, 0), (0x7A, 0x5A, 0), (0x78, 0x58, 0), (0x63, 0x43, 0), (0x76, 0x56, 0),
    (0x62, 0x42, 0), (0x6E, 0x4E, 0), (0x6D, 0x4D, 0), (0x2C, 0x3C, 0), (0x2E, 0x3E, 0),
    (0x2F, 0x3F, padSlash),
    (shiftR, shiftR, 0), (0x2A, 0x2A, 0), (altL, altL, altR), (0x20, 0x20, 0),
    (Key.capsLock, Key.capsLock, 0),
    -- 0x3B to 0x44: F1 to F10
    (f 1, f 1, 0), (f 2, f 2, 0), (f 3, f 3, 0), (f 4, f 4, 0), (f 5, f 5, 0),
    (f 6, f 6, 0), (f 7, f 7, 0), (f 8, f 8, 0), (f 9, f 9, 0), (f 10, f 10, 0),
    (Key.numLock, Key.numLock, 0), (Key.scrollLock, Key.scrollLock, 0),
    -- 0x47 to 0x53: the number pad
    (pad 7, 0x37, home), (pad 8, 0x38, up), (pad 9, 0x39, pageup), (padMinus, 0x2D, 0),
    (pad 4, 0x34, left), (pad 5, 0x35, 0), (pad 6, 0x36, right), (padPlus, 0x2B, 0),
    (pad 1, 0x31, end_), (pad 2, 0x32, down), (pad 3, 0x33, pagedown), (pad 0, 0x30, insert),
    (padDot, 0x2E, delete),
    (0, 0, 0), (0, 0, 0), (0, 0, 0), (f 11, f 11, 0), (f 12, f 12, 0), (0, 0, 0), (0, 0, 0),
    (0, 0, guiL), (0, 0, guiR), (0, 0, apps) ] ++ List.replicate 34 (0, 0, 0)

def keyIn (keyrow : Nat × Nat × Nat) : Nat → Nat
  | 0 => keyrow.1
  | 1 => keyrow.2.1
  | _ => keyrow.2.2

structure Keyboard where
  kbIn : RingBuffer (BitVec 8)
  codeWithE0 : Bool
  shiftL : Bool
  shiftR : Bool
  altL : Bool
  altR : Bool
  ctrlL : Bool
  ctrlR : Bool
  capsLock : Bool
  numLock : Bool
  scrollLock : Bool
  column : Nat

def keyboardHandler (scanCode : BitVec 8) (k : Keyboard) : Keyboard :=
  { k with kbIn := k.kbIn.put kbInBytes scanCode }

def getByteFromKbBuf (k : Keyboard) : Option (BitVec 8 × Keyboard) :=
  if 0 < k.kbIn.count then
    let taken := k.kbIn.take kbInBytes
    some (taken.1, { k with kbIn := taken.2 })
  else none

def initKeyboard (k : Keyboard) : Keyboard :=
  { k with
    kbIn := { k.kbIn with count := 0, head := 0, tail := 0 }
    capsLock := false
    numLock := true
    scrollLock := false }

lemma initKeyboard_empty (k : Keyboard) : (initKeyboard k).kbIn.Holds kbInBytes [] :=
  RingBuffer.holds_nil (by decide : 0 < kbInBytes) rfl rfl rfl

structure Fetched where
  scanCode : BitVec 8
  key : Nat
  make : Bool

def matchesPausebreak : List (BitVec 8) → Keyboard → Option (Bool × Keyboard)
  | [], k => some (true, k)
  | expected :: rest, k =>
      (getByteFromKbBuf k).bind fun got =>
        if got.1 ≠ expected then some (false, got.2) else matchesPausebreak rest got.2

def fetchPrintscreen (uninitialised : Bool) (last : Int) (make : Bool) (k : Keyboard) :
    Option (Fetched × Keyboard) :=
  (getByteFromKbBuf { k with codeWithE0 := false }).bind fun third =>
    if third.1.toInt = 0xE0 then
      (getByteFromKbBuf { third.2 with codeWithE0 := true }).map fun fourth =>
        if fourth.1.toInt = last then (⟨fourth.1, Key.printscreen, make⟩, fourth.2)
        else (⟨fourth.1, 0, uninitialised⟩, fourth.2)
    else some (⟨third.1, 0, uninitialised⟩, third.2)

def fetch (uninitialised : Bool) (k : Keyboard) : Option (Fetched × Keyboard) :=
  (getByteFromKbBuf { k with codeWithE0 := false }).bind fun first =>
    if first.1.toInt = 0xE1 then
      (matchesPausebreak [0x1D, 0x45, 0xE1, 0x9D, 0xC5] first.2).map fun done =>
        (⟨first.1, if done.1 then Key.pausebreak else 0, uninitialised⟩, done.2)
    else if first.1.toInt = 0xE0 then
      (getByteFromKbBuf { first.2 with codeWithE0 := true }).bind fun second =>
        if second.1.toInt = 0x2A then fetchPrintscreen uninitialised 0x37 true second.2
        else if second.1.toInt = 0xB7 then fetchPrintscreen uninitialised 0xAA false second.2
        else some (⟨second.1, 0, uninitialised⟩, second.2)
    else some (⟨first.1, 0, uninitialised⟩, first.2)

def track (key : Nat) (make : Bool) (k : Keyboard) : Keyboard :=
  if key = Key.shiftL then { k with shiftL := make }
  else if key = Key.shiftR then { k with shiftR := make }
  else if key = Key.ctrlL then { k with ctrlL := make }
  else if key = Key.ctrlR then { k with ctrlR := make }
  else if key = Key.altL then { k with altL := make }
  -- the source sets the left flag for the right key
  else if key = Key.altR then { k with altL := make }
  else if key = Key.capsLock then
    if make then { k with capsLock := !k.capsLock } else k
  else if key = Key.numLock then
    if make then { k with numLock := !k.numLock } else k
  else if key = Key.scrollLock then
    if make then { k with scrollLock := !k.scrollLock } else k
  else k

def columnFor (keyrow : Nat × Nat × Nat) (k : Keyboard) : Nat :=
  let shift := k.shiftL || k.shiftR
  let caps := if k.capsLock && (0x61 ≤ keyrow.1 && keyrow.1 ≤ 0x7A) then !shift else shift
  if k.codeWithE0 then 2 else if caps then 1 else 0

def decode (scanCode : BitVec 8) (k : Keyboard) : Bool × Nat × Keyboard :=
  let make := !scanCode.msb
  let keyrow := keymap.getD (scanCode.toNat % 0x80) (0, 0, 0)
  let column := columnFor keyrow k
  let key := keyIn keyrow column
  (make, key, track key make { k with column := column })

def padKey (numLock : Bool) (key : Nat) : Nat :=
  if key = Key.padSlash then 0x2F
  else if key = Key.padStar then 0x2A
  else if key = Key.padMinus then 0x2D
  else if key = Key.padPlus then 0x2B
  else if key = Key.padEnter then Key.enter
  else if numLock then
    if Key.pad 0 ≤ key ∧ key ≤ Key.pad 9 then key - Key.pad 0 + 0x30
    else if key = Key.padDot then 0x2E
    else key
  else if key = Key.pad 7 then Key.home
  else if key = Key.pad 1 then Key.end_
  else if key = Key.pad 9 then Key.pageup
  else if key = Key.pad 3 then Key.pagedown
  else if key = Key.pad 0 then Key.insert
  else if key = Key.pad 8 then Key.up
  else if key = Key.pad 2 then Key.down
  else if key = Key.pad 4 then Key.left
  else if key = Key.pad 6 then Key.right
  else if key = Key.padDot then Key.delete
  else key

def flagged (key : Nat) (k : Keyboard) : Nat :=
  let pad := Key.padSlash ≤ key ∧ key ≤ Key.pad 9
  let key := if pad then padKey k.numLock key else key
  key ||| (if k.shiftL then Key.flagShiftL else 0) ||| (if k.shiftR then Key.flagShiftR else 0) |||
    (if k.ctrlL then Key.flagCtrlL else 0) ||| (if k.ctrlR then Key.flagCtrlR else 0) |||
    (if k.altL then Key.flagAltL else 0) ||| (if k.altR then Key.flagAltR else 0) |||
    (if pad then Key.flagPad else 0)

def keyboardRead (uninitialised : Bool) (k : Keyboard) : Option (Option Nat × Keyboard) :=
  if 0 < k.kbIn.count then
    (fetch uninitialised k).map fun fetched =>
      let decoded :=
        if fetched.1.key ≠ Key.pausebreak ∧ fetched.1.key ≠ Key.printscreen then
          decode fetched.1.scanCode fetched.2
        else (fetched.1.make, fetched.1.key, fetched.2)
      (if decoded.1 then some (flagged decoded.2.1 decoded.2.2) else none, decoded.2.2)
  else some (none, k)

end PrettyOS.Kernel
