import PrettyOS.Mm.Avl
import PrettyOS.Mm.Page

/-!
Contract: the areas of an address space, as `mm/mmap.c` keeps them.

A pointer is a number and `0` is `NULL`; an `unsigned long` is a number below `wordSize`.
Calls that leave the file (callbacks of `vm_ops`, `iput`, `unmap_page_range`) and its
messages are recorded in order. `kmalloc` is a parameter: it is given the areas that are in
use and returns a pointer. Loops take `fuel`, and `none` is a loop that did not end.
-/

namespace PrettyOS.Mm

open Library.AvlTree Function

def pageOffset : Nat := 0xC0000000

def pageAlign (addr : Nat) : Nat := (addr + pageSize - 1) % wordSize / pageSize * pageSize

def failure (error : Nat) : Nat := wordSize - error

def enodev : Nat := 19
def einval : Nat := 22

def mapType : Nat := 0x0f
def mapShared : Nat := 0x01
def mapPrivate : Nat := 0x02
def mapFixed : Nat := 0x04
def fileRead : Nat := 0x01
def fileWrite : Nat := 0x02

def vmRead : Nat := 0x0001
def vmWrite : Nat := 0x0002
def vmExec : Nat := 0x0004
def vmShared : Nat := 0x0008
def vmMayread : Nat := 0x0010
def vmMaywrite : Nat := 0x0020
def vmMayexec : Nat := 0x0040
def vmMayshare : Nat := 0x0080
def vmGrowsdown : Nat := 0x0100
def vmShm : Nat := 0x0400
def vmDenywrite : Nat := 0x0800
def vmExecutable : Nat := 0x1000

def addWord (x y : Nat) : Nat := (x + y) % wordSize

def subWord (x y : Nat) : Nat := (x + (wordSize - y)) % wordSize

structure Vma where
  vmStart : Nat
  vmEnd : Nat
  vmFlags : Nat
  vmPageProt : Nat
  vmOffset : Nat
  vmInode : Nat
  vmOps : Nat
  vmPte : Nat
deriving DecidableEq, Repr

structure VmOperations where
  hasOpen : Bool
  hasClose : Bool
  hasUnmap : Bool
deriving DecidableEq, Repr

inductive Effect where
  | openVma (area : Nat)
  | closeVma (area : Nat)
  | unmapVma (area st len : Nat)
  | iput (inode : Nat)
  | unmapPageRange (addr len : Nat)
  | ringCorrupted
  | treeInconsistent
  | unmapFixupRange (vmStart vmEnd addr last : Nat)
deriving DecidableEq, Repr

structure AddressSpace where
  mmap : Nat
  avl : Avl
  next : Nat → Nat
  nextShare : Nat → Nat
  prevShare : Nat → Nat
  vma : Nat → Vma
  iMmap : Nat → Nat
  iCount : Nat → Nat
  operations : Nat → VmOperations
  live : Finset Nat
  effects : List Effect

namespace AddressSpace

def vmEnd (s : AddressSpace) (area : Nat) : Nat := (s.vma area).vmEnd

def vmStart (s : AddressSpace) (area : Nat) : Nat := (s.vma area).vmStart

def setVma (s : AddressSpace) (area : Nat) (vma : Vma) : AddressSpace :=
  { s with vma := update s.vma area vma }

def setNext (s : AddressSpace) (area next : Nat) : AddressSpace :=
  { s with next := update s.next area next }

def record (s : AddressSpace) (effect : Effect) : AddressSpace :=
  { s with effects := s.effects ++ [effect] }

def callback (s : AddressSpace) (area : Nat) (has : VmOperations → Bool) : Bool :=
  (s.vma area).vmOps ≠ 0 && has (s.operations (s.vma area).vmOps)

def duplicate (s : AddressSpace) (mpnt area : Nat) : AddressSpace :=
  { s with
    live := insert mpnt s.live
    avl := ((s.avl.setChild .left mpnt (s.avl.child .left area)).setChild .right mpnt
      (s.avl.child .right area)).setHeight mpnt (s.avl.height area)
    next := update s.next mpnt (s.next area)
    nextShare := update s.nextShare mpnt (s.nextShare area)
    prevShare := update s.prevShare mpnt (s.prevShare area)
    vma := update s.vma mpnt (s.vma area) }

def openVma (s : AddressSpace) (area : Nat) : AddressSpace :=
  if s.callback area VmOperations.hasOpen then s.record (.openVma area) else s

def countInode (s : AddressSpace) (inode : Nat) : AddressSpace :=
  { s with iCount := update s.iCount inode ((s.iCount inode + 1) % 2 ^ 16) }

def kfree (s : AddressSpace) (area : Nat) : AddressSpace :=
  { s with live := s.live.erase area }

end AddressSpace

def findVmaLoop (s : AddressSpace) (addr : Nat) : (fuel tree result : Nat) → Option Nat
  | 0, _, _ => none
  | fuel + 1, tree, result =>
      if tree = 0 then
        some result
      else if addr < s.vmEnd tree then
        if s.vmStart tree < addr then
          some tree
        else
          findVmaLoop s addr fuel (s.avl.child .left tree) tree
      else
        findVmaLoop s addr fuel (s.avl.child .right tree) result

def findVma (fuel addr : Nat) (s : AddressSpace) : Option Nat :=
  findVmaLoop s addr fuel s.avl.root 0

def removeSharedVmStruct (mpnt : Nat) (s : AddressSpace) : AddressSpace :=
  let inode := (s.vma mpnt).vmInode
  if inode = 0 then
    s
  else if s.nextShare mpnt = mpnt then
    let reported := if s.iMmap inode = mpnt then s else s.record .ringCorrupted
    { reported with iMmap := update s.iMmap inode 0 }
  else
    let s1 := if s.iMmap inode = mpnt then
      { s with iMmap := update s.iMmap inode (s.nextShare mpnt) } else s
    let s2 := { s1 with
      nextShare := update s1.nextShare (s1.prevShare mpnt) (s1.nextShare mpnt) }
    { s2 with prevShare := update s2.prevShare (s2.nextShare mpnt) (s2.prevShare mpnt) }

def insertShare (vma : Nat) (s : AddressSpace) : AddressSpace :=
  let inode := (s.vma vma).vmInode
  if inode = 0 then
    s
  else if s.iMmap inode ≠ 0 then
    let share := s.iMmap inode
    let s1 := { s with nextShare := update s.nextShare vma (s.nextShare share) }
    let s2 := { s1 with prevShare := update s1.prevShare (s1.nextShare vma) vma }
    let s3 := { s2 with nextShare := update s2.nextShare share vma }
    { s3 with prevShare := update s3.prevShare vma share }
  else
    { s with
      prevShare := update s.prevShare vma vma
      nextShare := update s.nextShare vma vma
      iMmap := update s.iMmap inode vma }

def splice (prev vma : Nat) (s : AddressSpace) : AddressSpace :=
  if prev ≠ 0 then s.setNext prev vma else { s with mmap := vma }

def spliced (prev : Nat) (s : AddressSpace) : Nat :=
  if prev ≠ 0 then s.next prev else s.mmap

def linkArea (prev next vma : Nat) (s : AddressSpace) : AddressSpace :=
  let reported := if spliced prev s ≠ next then s.record .treeInconsistent else s
  insertShare vma (splice prev vma reported)

def insertVmStruct (fuel vma : Nat) (s : AddressSpace) : Option AddressSpace :=
  match avlInsertNeighbours fuel s.vmEnd vma s.avl with
  | none => none
  | some ((prev, next), avl) => some (linkArea prev next vma { s with avl := avl })

def mergeable (s : AddressSpace) (prev mpnt : Nat) : Bool :=
  let p := s.vma prev
  let m := s.vma mpnt
  m.vmInode == p.vmInode && m.vmPte == p.vmPte && m.vmOps == p.vmOps && m.vmFlags == p.vmFlags &&
    m.vmStart == p.vmEnd &&
    (!(m.vmInode != 0 || m.vmFlags &&& vmShm != 0) ||
      subWord (addWord p.vmOffset p.vmEnd) p.vmStart == m.vmOffset)

def mergeInto (fuel prev mpnt : Nat) (s : AddressSpace) : Option AddressSpace :=
  (avlRemove fuel s.vmEnd mpnt s.avl).map fun avl =>
    let s1 := { s with avl := avl }
    let s2 := s1.setVma prev { s1.vma prev with vmEnd := s1.vmEnd mpnt }
    let s3 := s2.setNext prev (s2.next mpnt)
    let s4 :=
      if s3.callback mpnt VmOperations.hasClose then
        let m := s3.vma mpnt
        (s3.setVma mpnt { m with
          vmOffset := addWord m.vmOffset (subWord m.vmEnd m.vmStart)
          vmStart := m.vmEnd }).record (.closeVma mpnt)
      else s3
    let s5 := removeSharedVmStruct mpnt s4
    let s6 := if (s5.vma mpnt).vmInode ≠ 0 then s5.countInode (s5.vma mpnt).vmInode else s5
    s6.kfree mpnt

def mergeLoop (avlFuel endAddr : Nat) :
    (fuel prev mpnt : Nat) → AddressSpace → Option AddressSpace
  | 0, _, _, _ => none
  | fuel + 1, prev, mpnt, s =>
      if mpnt ≠ 0 ∧ s.vmStart prev < endAddr then
        let next := s.next mpnt
        if mergeable s prev mpnt then
          match mergeInto avlFuel prev mpnt s with
          | none => none
          | some s => mergeLoop avlFuel endAddr fuel prev next s
        else
          mergeLoop avlFuel endAddr fuel mpnt next s
      else
        some s

def mergeSegments (fuel startAddr endAddr : Nat) (s : AddressSpace) : Option AddressSpace :=
  match findVma fuel startAddr s with
  | none => none
  | some mpnt =>
      if mpnt = 0 then
        some s
      else
        match avlNeighbours fuel s.vmEnd mpnt s.avl with
        | none => none
        | some (prev, next) =>
            if prev = 0 then
              mergeLoop fuel endAddr fuel mpnt next s
            else
              mergeLoop fuel endAddr fuel prev mpnt s

def insertUpper (fuel : Nat) (kmalloc : Finset Nat → Nat) (area last : Nat) (s : AddressSpace) :
    Option (Option AddressSpace) :=
  let mpnt := kmalloc s.live
  if mpnt = 0 then
    some none
  else
    let s1 := s.duplicate mpnt area
    let m := s1.vma mpnt
    let s2 := s1.setVma mpnt { m with
      vmOffset := addWord m.vmOffset (subWord last (s1.vmStart area))
      vmStart := last }
    let s3 := if m.vmInode ≠ 0 then s2.countInode m.vmInode else s2
    (insertVmStruct fuel mpnt (s3.openVma mpnt)).map some

def closeEmptied (area : Nat) (s : AddressSpace) : AddressSpace :=
  if s.callback area VmOperations.hasClose then
    (s.setVma area { s.vma area with vmEnd := s.vmStart area }).record (.closeVma area)
  else s

def insertLower (fuel : Nat) (kmalloc : Finset Nat → Nat) (area addr : Nat) (s : AddressSpace) :
    Option AddressSpace :=
  let mpnt := kmalloc s.live
  if mpnt = 0 then
    some s
  else
    let s1 := s.duplicate mpnt area
    let s2 := s1.setVma mpnt { s1.vma mpnt with vmEnd := addr }
    insertVmStruct fuel mpnt (closeEmptied area (s2.openVma mpnt))

def unmapFixup (fuel : Nat) (kmalloc : Finset Nat → Nat) (area addr len : Nat)
    (s : AddressSpace) : Option AddressSpace :=
  let last := addWord addr len
  let v := s.vma area
  if addr < v.vmStart ∨ addr ≥ v.vmEnd ∨ last ≤ v.vmStart ∨ last > v.vmEnd ∨ last < addr then
    some (s.record (.unmapFixupRange v.vmStart v.vmEnd addr last))
  else if addr = v.vmStart ∧ last = v.vmEnd then
    let s1 := if s.callback area VmOperations.hasClose then s.record (.closeVma area) else s
    some (if v.vmInode ≠ 0 then s1.record (.iput v.vmInode) else s1)
  else if last = v.vmEnd then
    insertLower fuel kmalloc area addr (s.setVma area { v with vmEnd := addr })
  else if addr = v.vmStart then
    insertLower fuel kmalloc area addr (s.setVma area { v with
      vmOffset := addWord v.vmOffset (subWord last v.vmStart)
      vmStart := last })
  else
    match insertUpper fuel kmalloc area last s with
    | none => none
    | some none => some s
    | some (some s) => insertLower fuel kmalloc area addr s

def collectArea (fuel prev mpnt free : Nat) (s : AddressSpace) : Option AddressSpace :=
  let s1 := splice prev (s.next mpnt) s
  let s2 := s1.setNext mpnt free
  (avlRemove fuel s2.vmEnd mpnt s2.avl).map fun avl => { s2 with avl := avl }

def collectLoop (avlFuel prev last : Nat) :
    (fuel mpnt free : Nat) → AddressSpace → Option (Nat × AddressSpace)
  | 0, _, _, _ => none
  | fuel + 1, mpnt, free, s =>
      if mpnt ≠ 0 ∧ s.vmStart mpnt < last then
        match collectArea avlFuel prev mpnt free s with
        | none => none
        | some s => collectLoop avlFuel prev last fuel (spliced prev s) mpnt s
      else
        some (free, s)

def releaseArea (fuel : Nat) (kmalloc : Finset Nat → Nat) (addr last mpnt : Nat)
    (s : AddressSpace) : Option AddressSpace :=
  let s1 := removeSharedVmStruct mpnt s
  let v := s1.vma mpnt
  let st := if addr < v.vmStart then v.vmStart else addr
  let stop := if last > v.vmEnd then v.vmEnd else last
  let s2 := if s1.callback mpnt VmOperations.hasUnmap then
    s1.record (.unmapVma mpnt st (subWord stop st)) else s1
  (unmapFixup fuel kmalloc mpnt st (subWord stop st) s2).map fun s => s.kfree mpnt

def releaseLoop (avlFuel : Nat) (kmalloc : Finset Nat → Nat) (addr last : Nat) :
    (fuel free : Nat) → AddressSpace → Option AddressSpace
  | 0, _, _ => none
  | fuel + 1, free, s =>
      if free = 0 then
        some s
      else
        match releaseArea avlFuel kmalloc addr last free s with
        | none => none
        | some released => releaseLoop avlFuel kmalloc addr last fuel (s.next free) released

def doMunmap (fuel : Nat) (kmalloc : Finset Nat → Nat) (addr len : Nat) (s : AddressSpace) :
    Option (Nat × AddressSpace) :=
  if addr % pageSize ≠ 0 ∨ addr > pageOffset ∨ addWord addr len > pageOffset then
    some (failure einval, s)
  else if pageAlign len = 0 then
    some (0, s)
  else
    match findVma fuel addr s with
    | none => none
    | some mpnt =>
        if mpnt = 0 then
          some (0, s)
        else
          match avlNeighbours fuel s.vmEnd mpnt s.avl with
          | none => none
          | some (prev, _) =>
              let last := addWord addr (pageAlign len)
              match collectLoop fuel prev last fuel mpnt 0 s with
              | none => none
              | some (free, s) =>
                  if free = 0 then
                    some (0, s)
                  else
                    (releaseLoop fuel kmalloc addr last fuel free s).map fun s =>
                      (0, s.record (.unmapPageRange addr (pageAlign len)))

structure File where
  fMode : Nat
  mmap : Option (Nat → AddressSpace → Int × AddressSpace)

inductive MmapOutcome where
  | returned (value : Nat) (s : AddressSpace)
  | nullDereference
  | doesNotReturn

def mmapFlags (file : Option File) (prot flags : Nat) : Nat :=
  let base := (prot &&& (vmRead ||| vmWrite ||| vmExec)) |||
    (flags &&& (vmGrowsdown ||| vmDenywrite ||| vmExecutable))
  match file with
  | none => base ||| (vmMayread ||| vmMaywrite ||| vmMayexec)
  | some file =>
      let readable := if file.fMode &&& fileRead ≠ 0 then
        base ||| (vmMayread ||| vmMaywrite ||| vmMayexec) else base
      let shared := if flags &&& mapShared ≠ 0 then readable ||| (vmShared ||| vmMayshare)
        else readable
      if file.fMode &&& fileWrite ≠ 0 then
        shared &&& (2 ^ 16 - 1 - (vmMaywrite ||| vmShared))
      else shared

inductive MmapKind where
  | proceed
  | refuse (error : Nat)
  | nullDereference
deriving DecidableEq, Repr

def mmapKind (file : Option File) (flags : Nat) : MmapKind :=
  match file with
  | none =>
      if flags &&& mapType = mapShared ∨ flags &&& mapType = mapPrivate then .nullDereference
      else .refuse einval
  | some _ => if flags &&& mapType ≠ mapPrivate then .refuse einval else .proceed

def mmapAt (fuel : Nat) (kmalloc : Finset Nat → Nat) (file : Option File)
    (addr len prot flags off : Nat) (s : AddressSpace) : Option MmapOutcome :=
  let vma := kmalloc s.live
  if vma = 0 then
    some .nullDereference
  else
    let s1 := { s with live := insert vma s.live }.setVma vma
      { s.vma vma with
        vmStart := addr
        vmEnd := addWord addr len
        vmFlags := mmapFlags file prot flags
        vmOffset := off
        vmInode := 0
        vmOps := 0
        vmPte := 0 }
    match doMunmap fuel kmalloc addr len s1 with
    | none => none
    | some (_, s2) =>
        -- Without a file this is `anon_map`, and `zeromap_page_range` always succeeds.
        let (error, s3) : Int × AddressSpace :=
          match file with
          | some { mmap := some mmap, .. } => mmap vma s2
          | _ => (0, s2)
        if error ≠ 0 then
          some (.returned (error % wordSize).toNat (s3.kfree vma))
        else
          match insertVmStruct fuel vma s3 with
          | none => none
          | some s4 =>
              (mergeSegments fuel (s4.vmStart vma) (s4.vmEnd vma) s4).map fun s =>
                .returned addr s

def doMmap (fuel : Nat) (kmalloc : Finset Nat → Nat) (file : Option File)
    (addr len prot flags off : Nat) (s : AddressSpace) : Option MmapOutcome :=
  if len = 0 then
    some (.returned (failure einval) s)
  else if pageAlign len = 0 then
    some (.returned addr s)
  else if addr > pageOffset ∨ pageAlign len > pageOffset ∨
      addWord addr (pageAlign len) > pageOffset then
    some (.returned (failure einval) s)
  else
    match mmapKind file flags with
    | .nullDereference => some .nullDereference
    | .refuse error => some (.returned (failure error) s)
    | .proceed =>
        if flags &&& mapFixed ≠ 0 then
          if addr % pageSize ≠ 0 then
            some (.returned (failure einval) s)
          else if pageAlign len > pageOffset ∨ addWord addr (pageAlign len) > pageOffset then
            some (.returned (failure einval) s)
          else
            match file with
            | some { mmap := none, .. } => some (.returned (failure enodev) s)
            | _ => mmapAt fuel kmalloc file addr (pageAlign len) prot flags off s
        else
          some .doesNotReturn

end PrettyOS.Mm
