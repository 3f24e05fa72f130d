import Mathlib

/-!
Contract: the consoles of `kernel/console.c` and the video memory they share.

Addresses and the fields of a console are 32-bit words; a cursor counts characters, of two bytes
each. `none` is a loop that has run out of fuel.
-/

namespace PrettyOS.Kernel

open Function

def vMemBase : Nat := 0xB8000

def vMemSize : Nat := 0x8000

abbrev nrConsoles : Nat := 3

def screenWidth : Nat := 80

def screenHigh : Nat := 25

def screenSize : Nat := screenWidth * screenHigh

def defaultCharColor : BitVec 8 := 0x07

def word (n : Nat) : Nat := n % 2 ^ 32

def wordSub (a b : Nat) : Nat := (a + (2 ^ 32 - b)) % 2 ^ 32

structure Console where
  currentStartAddr : Nat
  originalAddr : Nat
  currentEndAddr : Nat
  vMemLimit : Nat
  cursor : Nat

structure Screen where
  mem : Nat → BitVec 8
  console : Fin nrConsoles → Console
  outCharNumber : Int

def Screen.setConsole (nr : Fin nrConsoles) (con : Console) (s : Screen) : Screen :=
  { s with console := update s.console nr con }

def Screen.setCursor (nr : Fin nrConsoles) (cursor : Nat) (s : Screen) : Screen :=
  s.setConsole nr { s.console nr with cursor := cursor }

def storeChar (address : Nat) (ch : BitVec 8) (mem : Nat → BitVec 8) : Nat → BitVec 8 :=
  update (update mem address ch) (word (address + 1)) defaultCharColor

def cleanConsoleScreen (nr : Fin nrConsoles) (s : Screen) : Screen :=
  let base := vMemBase + word (2 * (s.console nr).originalAddr)
  { s with
    mem := fun address =>
      if base ≤ address ∧ address < base + 2 * (s.console nr).vMemLimit then
        if (address - base) % 2 = 0 then 0x20 else 0x07
      else s.mem address }

def scrollScreenUp : Int := 1

def scrollScreenDown : Int := -1

def Console.scrollUp (con : Console) : Console :=
  if con.originalAddr < con.currentStartAddr then
    { con with
      currentStartAddr := wordSub con.currentStartAddr screenWidth
      currentEndAddr := wordSub con.currentEndAddr screenWidth
      cursor := wordSub con.cursor screenWidth }
  else con

def Console.Above (con : Console) : Prop :=
  word (con.currentStartAddr + screenSize) < word (con.originalAddr + con.vMemLimit)

instance (con : Console) : Decidable con.Above := by
  unfold Console.Above
  infer_instance

def Console.scrollLine (con : Console) : Console :=
  { con with
    currentStartAddr := word (con.currentStartAddr + screenWidth)
    currentEndAddr :=
      if word (con.originalAddr + con.vMemLimit) < word (con.currentEndAddr + screenWidth) then
        word (con.originalAddr + con.vMemLimit)
      else word (con.currentEndAddr + screenWidth) }

def Console.rewind (con : Console) : Console :=
  { con with
    currentStartAddr := con.originalAddr
    currentEndAddr := word (con.currentEndAddr + (con.originalAddr + screenSize)) }

def scrollScreen (nr : Fin nrConsoles) (direction : Int) (s : Screen) : Screen :=
  if direction = scrollScreenUp then s.setConsole nr (s.console nr).scrollUp
  else if direction = scrollScreenDown then
    if (s.console nr).Above then s.setConsole nr (s.console nr).scrollLine
    else (cleanConsoleScreen nr s).setConsole nr (s.console nr).rewind
  else s

def outCharSwitch (nr : Fin nrConsoles) (ch : BitVec 8) (s : Screen) : Screen :=
  let con := s.console nr
  let pVmem := word (vMemBase + con.cursor * 2)
  if ch = 0x0A then
    let moved :=
      if con.cursor < wordSub (word (con.originalAddr + con.vMemLimit)) screenWidth then
        s.setCursor nr (word (con.originalAddr +
          screenWidth * (wordSub con.cursor con.originalAddr / screenWidth + 1)))
      else (scrollScreen nr scrollScreenDown s).setCursor nr con.originalAddr
    { moved with outCharNumber := 0 }
  else if ch = 0x08 then
    if con.originalAddr < con.cursor ∧ 0 < s.outCharNumber then
      { s.setCursor nr (wordSub con.cursor 1) with
        mem := storeChar (wordSub pVmem 2) 0x20 s.mem
        outCharNumber := s.outCharNumber - 1 }
    else s
  else if ch = 0x09 then
    { s.setCursor nr (word (con.cursor + 8)) with outCharNumber := s.outCharNumber + 8 }
  else if con.cursor < wordSub (word (con.originalAddr + con.vMemLimit)) 1 then
    { s.setCursor nr (word (con.cursor + 1)) with
      mem := storeChar pVmem ch s.mem
      outCharNumber := s.outCharNumber + 1 }
  else s

def scrollToCursor (nr : Fin nrConsoles) : Nat → Screen → Option Screen
  | 0, _ => none
  | fuel + 1, s =>
      if word ((s.console nr).currentStartAddr + screenSize) ≤ (s.console nr).cursor then
        scrollToCursor nr fuel (scrollScreen nr scrollScreenDown s)
      else some s

def outChar (fuel : Nat) (nr : Fin nrConsoles) (ch : BitVec 8) (s : Screen) : Option Screen :=
  scrollToCursor nr fuel (outCharSwitch nr ch s)

def conVMemSize : Nat := (vMemSize / 2) / nrConsoles

def freshConsole (nr : Nat) : Console where
  currentStartAddr := nr * conVMemSize
  originalAddr := nr * conVMemSize
  currentEndAddr := nr * conVMemSize + screenSize
  vMemLimit := conVMemSize / screenWidth * screenWidth
  cursor := nr * conVMemSize

def initScreen (nr : Fin nrConsoles) (s : Screen) : Screen :=
  let fresh := s.setConsole nr (freshConsole nr)
  if nr.val = 0 then
    let shown := fresh.setCursor nr screenSize
    ((scrollScreen nr scrollScreenDown)^[screenHigh] shown).setCursor nr screenSize
  else fresh

def initScreens (s : Screen) : Screen := initScreen 2 (initScreen 1 (initScreen 0 s))

inductive ScreenCall where
  | outChar (nr : Fin nrConsoles) (ch : BitVec 8)
  | scrollScreen (nr : Fin nrConsoles) (direction : Int)

def ScreenCall.nr : ScreenCall → Fin nrConsoles
  | .outChar nr _ => nr
  | .scrollScreen nr _ => nr

def screenStep (fuel : Nat) : ScreenCall → Screen → Option (Unit × Screen)
  | .outChar nr ch, s => (outChar fuel nr ch s).map fun after => ((), after)
  | .scrollScreen nr direction, s => some ((), PrettyOS.Kernel.scrollScreen nr direction s)

end PrettyOS.Kernel
