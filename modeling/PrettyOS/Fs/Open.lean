import PrettyOS.Fs.Bitmap
import PrettyOS.Fs.Namei

/-!
Contract: the open files of a task, `fs/open.c` and `fs/fcntl.c`.

What `open_namei` does with the inodes and the object of the slab cache are arguments.
-/

namespace PrettyOS.Fs

open Library Function Option
open Lib

def InodeTable.newFile (fuel object : Nat) (igetSuccess readSuccess writeSuccess : Bool)
    (dir : Nat) (basename : List Byte) (mode flags : Nat) (t : InodeTable) :
    Option (Nat × InodeTable) :=
  (t.superBlock (t.inode dir).iDev).bind fun sb =>
    (getImapBit fuel (t.inode dir).iDev sb t.storage).bind fun (inodeNr, s) =>
      let t := { t with storage := s }
      if inodeNr ≤ 0 then some (0, t)
      else
        (t.iget fuel object igetSuccess (t.inode dir).iDev inodeNr).bind fun (inode, t) =>
          if inode = 0 then some (0, t)
          else
            (addEntry fuel sb (t.inode dir) (t.inode inode).iNum basename t.storage).bind
              fun (ret, grown, s) =>
                let t := { t with storage := s, inode := update t.inode dir grown }
                if ret < 0 then some (0, t)
                else
                  let made : MInode := { t.inode inode with
                    iMode := mode % 2 ^ 16, iFlags := flags, iDirty := 1 }
                  let t := { t with inode := update t.inode inode made }
                  (t.writeInode fuel readSuccess writeSuccess dir).map fun (ret, t) =>
                    (if ret < 0 then 0 else inode, t)

def nrOpen : Nat := 0x20

structure FileObject where
  fMode : Nat
  fFlag : Nat
  fCount : Nat
  fPos : Nat
  fInode : Nat

structure OpenFiles where
  inodes : InodeTable
  filp : Int → Nat
  file : Nat → FileObject
  sFiles : Nat → List Nat
  nrFileCount : Nat

abbrev Namei := List Byte → Nat → Nat → InodeTable → Option (Except Int Nat × InodeTable)

namespace OpenFiles

def getEmptyFd (stack : Int) (t : OpenFiles) : Except Int Int :=
  let i : Nat := ((List.range' 1 (nrOpen - 1)).find? fun i : Nat => t.filp i = 0).getD nrOpen
  if i ≤ 0 ∨ nrOpen < i then .error (-1) else .ok (if i < nrOpen then i else stack)

def getEmptyFilp (object : Nat) (t : OpenFiles) : Nat × OpenFiles :=
  (if nrOpen ≤ t.nrFileCount then 0 else object,
    { t with nrFileCount := (t.nrFileCount + 1) % 2 ^ 16 })

def setFilp (fd : Int) (fp : Nat) (t : OpenFiles) : OpenFiles :=
  { t with filp := update t.filp fd fp }

def setCount (fp count : Nat) (t : OpenFiles) : OpenFiles :=
  { t with file := update t.file fp { t.file fp with fCount := count % 2 ^ 16 } }

def install (fd : Int) (fp inode mode flag : Nat) (t : OpenFiles) : Option OpenFiles :=
  let dev := (t.inodes.inode inode).iDev
  (t.inodes.superBlock dev).map fun _ =>
    let opened : FileObject := ⟨mode % 2 ^ 16, flag % 2 ^ 16, 1, 0, inode⟩
    let t := { t with file := update t.file fp opened }
    let t := (t.setCount fp ((t.file fp).fCount + 1)).setFilp fd fp
    { t with sFiles := update t.sFiles dev (listAddHead fp (t.sFiles dev)) }

def openFile (namei : Namei) (stack : Int) (object : Nat) (filename : Option (List Byte))
    (mode flag : Nat) (t : OpenFiles) : Option (Except Int Int × OpenFiles) :=
  match filename with
  | none => some (.error (-1), t)
  | some path =>
      match t.getEmptyFd stack with
      | .error _ => some (.error (-2), t)
      | .ok fd =>
          let (fp, t) := t.getEmptyFilp object
          if fp = 0 then some (.error (-3), t)
          else
            (namei path mode flag t.inodes).bind fun
              | (.error _, inodes) =>
                  some (.error (-4), ({ t with inodes := inodes }.setFilp fd 0).setCount fp 0)
              | (.ok inode, inodes) =>
                  ({ t with inodes := inodes }.install fd fp inode mode flag).map
                    fun t => (.ok fd, t)

def close (fuel : Nat) (readSuccess writeSuccess : Bool) (fd : Int) (t : OpenFiles) :
    Option (Int × OpenFiles) :=
  if fd ≤ 0 ∨ (nrOpen : Int) ≤ fd then some (-1, t)
  else if t.filp fd = 0 then some (-2, t)
  else if (t.file (t.filp fd)).fCount = 0 then none
  else
    let fp := t.filp fd
    (t.inodes.iput fuel readSuccess writeSuccess (t.file fp).fInode).map fun (_, inodes) =>
      let t := { t with inodes := inodes }.setCount fp ((t.file fp).fCount + (2 ^ 16 - 1))
      if (t.file fp).fCount ≠ 0 then (0, t) else (0, t.setFilp fd 0)

def dupfd (oldfd newfd : Nat) (t : OpenFiles) : Int × OpenFiles :=
  if nrOpen ≤ oldfd ∨ t.filp oldfd = 0 then (-1, t)
  else if nrOpen ≤ newfd then (-1, t)
  else
    match (List.range' newfd (nrOpen - newfd)).find? fun fd : Nat => t.filp fd = 0 with
    | none => (-1, t)
    | some fd =>
        let fp := t.filp oldfd
        (fd, (t.setFilp fd fp).setCount fp ((t.file fp).fCount + 1))

def asInt (value : Nat) : Int := if value < 2 ^ 31 then value else value - 2 ^ 32

def sysDup2 (fuel : Nat) (readSuccess writeSuccess : Bool) (oldfd newfd : Nat) (t : OpenFiles) :
    Option (Int × OpenFiles) :=
  (t.close fuel readSuccess writeSuccess (asInt newfd)).map fun (_, t) => t.dupfd oldfd newfd

inductive FcntlCommand where
  | dupfd
  | getfd
  | setfd
  | getfl
  | setfl
  | other
deriving DecidableEq

def sysFcntl (fd : Nat) (command : FcntlCommand) (arg : Nat) (t : OpenFiles) : Int × OpenFiles :=
  if nrOpen ≤ fd ∨ t.filp fd = 0 then (-1, t)
  else
    let fp := t.filp fd
    match command with
    | .dupfd => t.dupfd fd arg
    | .getfd => ((t.file fp).fFlag, t)
    | .setfd => ((t.file fp).fFlag, t)
    | .getfl => ((t.file fp).fFlag, t)
    | .setfl =>
        let flag : Nat := ((t.file fp).fFlag ||| arg) % 2 ^ 16
        (flag, { t with file := update t.file fp { t.file fp with fFlag := flag } })
    | .other => (-1, t)

variable {t after : OpenFiles} {namei : Namei} {fuel fp object inode mode flag : Nat}
  {fd stack ret : Int} {filename : Option (List Byte)} {readSuccess writeSuccess : Bool}
  {result : Except Int Int}

lemma install_spec (ran : t.install fd fp inode mode flag = some after) :
    after.filp = update t.filp fd fp ∧ (after.file fp).fCount = 2 ∧
      (after.file fp).fInode = inode ∧ after.inodes = t.inodes ∧
        after.nrFileCount = t.nrFileCount := by
  obtain ⟨_, -, rfl⟩ := map_eq_some_iff.mp ran
  refine ⟨rfl, ?_, ?_, rfl, rfl⟩
  all_goals simp [setFilp, setCount]

lemma getEmptyFd_ok (stack : Int) (t : OpenFiles) : ∃ fd, t.getEmptyFd stack = .ok fd := by
  unfold getEmptyFd
  cases found : (List.range' 1 (nrOpen - 1)).find? fun i : Nat => t.filp i = 0 with
  | none => exact ⟨_, if_neg (by decide)⟩
  | some i =>
    have lt := List.mem_range'_1.mp (List.mem_of_find?_eq_some found)
    refine ⟨_, if_neg ?_⟩
    dsimp only [getD_some]
    omega

lemma openFile_counts {path : List Byte} (ne0 : object ≠ 0)
    (ran : t.openFile namei stack object (some path) mode flag = some (result, after)) :
    after.nrFileCount = (t.nrFileCount + 1) % 2 ^ 16 ∧
      (result = .error (-3) ↔ nrOpen ≤ t.nrFileCount) := by
  obtain ⟨_, isFd⟩ := getEmptyFd_ok stack t
  unfold openFile at ran
  dsimp only at ran
  rw [isFd] at ran
  by_cases full : nrOpen ≤ t.nrFileCount
  · have refused : (t.getEmptyFilp object).1 = 0 := if_pos full
    simp only [if_pos refused] at ran
    cases ran
    exact ⟨rfl, iff_of_true rfl full⟩
  have taken : (t.getEmptyFilp object).1 = object := if_neg full
  simp only [taken, if_neg ne0] at ran
  obtain ⟨⟨found, _⟩, -, ran⟩ := bind_eq_some_iff.mp ran
  cases found with
  | error code =>
    cases ran
    exact ⟨rfl, iff_of_false (by decide) full⟩
  | ok inode =>
    obtain ⟨_, isOpened, same⟩ := map_eq_some_iff.mp ran
    cases same
    exact ⟨(install_spec isOpened).2.2.2.2, iff_of_false nofun full⟩

lemma close_counts (ran : t.close fuel readSuccess writeSuccess fd = some (ret, after)) :
    after.nrFileCount = t.nrFileCount := by
  unfold close at ran
  split_ifs at ran
  · cases ran
    rfl
  · cases ran
    rfl
  obtain ⟨_, -, same⟩ := map_eq_some_iff.mp ran
  dsimp only at same
  split_ifs at same
  all_goals
    cases same
    rfl

lemma dupfd_counts (oldfd newfd : Nat) (t : OpenFiles) :
    (t.dupfd oldfd newfd).2.nrFileCount = t.nrFileCount := by
  unfold dupfd
  split_ifs
  · rfl
  · rfl
  split
  · rfl
  · rfl

lemma sysFcntl_counts (fd : Nat) (command : FcntlCommand) (arg : Nat) (t : OpenFiles) :
    (t.sysFcntl fd command arg).2.nrFileCount = t.nrFileCount := by
  unfold sysFcntl
  split_ifs
  · rfl
  cases command with
  | dupfd => exact dupfd_counts fd arg t
  | getfd => rfl
  | setfd => rfl
  | getfl => rfl
  | setfl => rfl
  | other => rfl

end OpenFiles

end PrettyOS.Fs
