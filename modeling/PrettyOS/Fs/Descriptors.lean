import PrettyOS.Fs.Open
import PrettyOS.Library.Runs

/-!
Contract: reference counts of file objects and the limit on open files.
-/

namespace PrettyOS.Fs

open Library List Function Option
open Lib

inductive FileCall where
  | openFile (stack : Int) (object : Nat) (filename : Option (List Byte)) (mode flag : Nat)
  | close (readSuccess writeSuccess : Bool) (fd : Int)
  | dup2 (readSuccess writeSuccess : Bool) (oldfd newfd : Nat)
  | fcntl (fd : Nat) (command : OpenFiles.FcntlCommand) (arg : Nat)

def FileCall.run (fuel : Nat) (namei : Namei) (call : FileCall) (t : OpenFiles) :
    Option (Except Int Int × OpenFiles) :=
  match call with
  | .openFile stack object filename mode flag =>
      t.openFile namei stack object filename mode flag
  | .close readSuccess writeSuccess fd =>
      (t.close fuel readSuccess writeSuccess fd).map fun (ret, t) => (.ok ret, t)
  | .dup2 readSuccess writeSuccess oldfd newfd =>
      (t.sysDup2 fuel readSuccess writeSuccess oldfd newfd).map fun (ret, t) => (.ok ret, t)
  | .fcntl fd command arg => some (.ok (t.sysFcntl fd command arg).1, (t.sysFcntl fd command arg).2)

def FileCall.Opens (namei : Namei) (call : FileCall) (t : OpenFiles) : Prop :=
  match call with
  | .openFile _ object filename mode flag =>
      t.nrFileCount < nrOpen ∧ object ≠ 0 ∧ ∃ path, filename = some path ∧
        ∃ inode inodes, namei path mode flag t.inodes = some (.ok inode, inodes)
  | _ => False

namespace OpenFiles

variable {t after : OpenFiles} {namei : Namei} {fuel object mode flag : Nat} {stack fd ret : Int}
  {filename : Option (List Byte)} {readSuccess writeSuccess : Bool} {result : Except Int Int}

def holders (t : OpenFiles) (fp : Nat) : Finset Nat :=
  (Finset.range nrOpen).filter fun fd => t.filp fd = fp

def CountsMatch (t : OpenFiles) : Prop :=
  ∀ fd < nrOpen, t.filp fd ≠ 0 → (t.file (t.filp fd)).fCount = (t.holders (t.filp fd)).card

def Empty (t : OpenFiles) : Prop := ∀ fd < nrOpen, t.filp fd = 0

section

variable (empty : t.Empty)
include empty

lemma Empty.countsMatch : t.CountsMatch := fun fd small inUse => absurd (empty fd small) inUse

lemma Empty.getEmptyFd (stack : Int) : t.getEmptyFd stack = .ok 1 := by
  have first : (range' 1 (nrOpen - 1)).find? (fun i : Nat => t.filp i = 0) = some 1 :=
    find?_cons_of_pos (decide_eq_true (empty 1 (by decide)))
  unfold OpenFiles.getEmptyFd
  rw [first]
  rfl

lemma Empty.close
    (ran : t.close fuel readSuccess writeSuccess fd = some (ret, after)) : after = t := by
  unfold OpenFiles.close at ran
  by_cases out : fd ≤ 0 ∨ (nrOpen : Int) ≤ fd
  · rw [if_pos out] at ran
    cases ran
    rfl
  have unused : t.filp fd = 0 := by
    obtain ⟨index, rfl⟩ := Int.eq_ofNat_of_zero_le (show 0 ≤ fd by omega)
    exact empty index (by omega)
  rw [if_neg out, if_pos unused] at ran
  cases ran
  rfl

lemma Empty.unused (fd : Nat) : nrOpen ≤ fd ∨ t.filp fd = 0 := by
  rcases Nat.lt_or_ge fd nrOpen with small | large
  · exact .inr (empty fd small)
  · exact .inl large

lemma Empty.dupfd (oldfd newfd : Nat) : (t.dupfd oldfd newfd).2 = t := by
  unfold OpenFiles.dupfd
  rw [if_pos (empty.unused oldfd)]

lemma Empty.sysFcntl (fd : Nat) (command : FcntlCommand) (arg : Nat) :
    (t.sysFcntl fd command arg).2 = t := by
  unfold OpenFiles.sysFcntl
  rw [if_pos (empty.unused fd)]

lemma Empty.openFile (refused : ¬FileCall.Opens namei (.openFile stack object filename mode flag) t)
    (ran : t.openFile namei stack object filename mode flag = some (result, after)) :
    after.Empty := by
  unfold OpenFiles.openFile at ran
  cases filename with
  | none =>
    cases ran
    exact empty
  | some path =>
    dsimp only at ran
    rw [empty.getEmptyFd] at ran
    by_cases noFile : (t.getEmptyFilp object).1 = 0
    · simp only [if_pos noFile] at ran
      cases ran
      exact empty
    simp only [if_neg noFile] at ran
    obtain ⟨⟨found, inodes⟩, isFound, ran⟩ := bind_eq_some_iff.mp ran
    cases found with
    | error code =>
      cases ran
      intro fd small
      show update t.filp 1 0 fd = 0
      rcases eq_or_ne (fd : Int) 1 with same | ne
      · rw [same, update_self]
      · rw [update_of_ne ne]
        exact empty fd small
    | ok inode =>
      unfold getEmptyFilp at noFile
      have below : ¬nrOpen ≤ t.nrFileCount := fun full => noFile (if_pos full)
      refine absurd ⟨Nat.lt_of_not_le below, ?_, path, rfl, inode, inodes, isFound⟩ refused
      exact fun isNull => noFile (by dsimp only; rw [if_neg below, isNull])

lemma Empty.opens (opens : FileCall.Opens namei (.openFile stack object filename mode flag) t)
    (ran : t.openFile namei stack object filename mode flag = some (result, after)) :
    after.filp 1 = object ∧ (after.file object).fCount = 2 ∧ after.holders object = {1} := by
  obtain ⟨below, ne0, _, rfl, _, _, isFound⟩ := opens
  unfold OpenFiles.openFile at ran
  have taken : (t.getEmptyFilp object).1 = object := if_neg (Nat.not_le.mpr below)
  dsimp only at ran
  rw [empty.getEmptyFd] at ran
  simp only [taken, if_neg ne0] at ran
  obtain ⟨_, isDone, ran⟩ := bind_eq_some_iff.mp ran
  cases isFound.symm.trans isDone
  obtain ⟨_, isOpened, same⟩ := map_eq_some_iff.mp ran
  cases same
  obtain ⟨filp, count, -⟩ := install_spec isOpened
  refine ⟨by rw [filp, update_self], count, ?_⟩
  ext fd
  unfold holders
  rw [Finset.mem_filter, Finset.mem_range, Finset.mem_singleton, filp]
  constructor
  · intro ⟨small, names⟩
    by_contra ne
    rw [update_of_ne (by exact_mod_cast ne)] at names
    exact ne0 (names.symm.trans (empty fd small))
  · rintro rfl
    exact ⟨by decide, update_self _ _ _⟩

end

def Empties (call : FileCall) (t after : OpenFiles) : Prop :=
  match call with
  | .close _ _ fd => 0 < fd → fd < (nrOpen : Int) → t.filp fd ≠ 0 → after.filp fd = 0
  | _ => True

lemma Empty.run {call : FileCall} (empty : t.Empty) (refused : ¬call.Opens namei t)
    (ran : call.run fuel namei t = some (result, after)) : after.Empty := by
  cases call with
  | openFile stack object filename mode flag => exact empty.openFile refused ran
  | close readSuccess writeSuccess fd =>
    obtain ⟨⟨ret, closed⟩, isClosed, same⟩ := map_eq_some_iff.mp ran
    cases same
    exact (empty.close isClosed).symm ▸ empty
  | dup2 readSuccess writeSuccess oldfd newfd =>
    obtain ⟨_, isDone, same⟩ := map_eq_some_iff.mp ran
    cases same
    obtain ⟨⟨ret, closed⟩, isClosed, rfl⟩ := map_eq_some_iff.mp isDone
    cases empty.close isClosed
    exact (empty.dupfd oldfd newfd).symm ▸ empty
  | fcntl fd command arg =>
    cases ran
    exact (empty.sysFcntl fd command arg).symm ▸ empty

lemma Empty.countsMatch_iff {call : FileCall} (empty : t.Empty)
    (ran : call.run fuel namei t = some (result, after)) :
    after.CountsMatch ∧ Empties call t after ↔ ¬call.Opens namei t := by
  constructor
  · intro matched opens
    have counts := matched.1
    cases call with
    | openFile stack object filename mode flag =>
      obtain ⟨named, count, single⟩ := empty.opens opens ran
      have same := counts 1 (by decide) (named.trans_ne opens.2.1)
      rw [show after.filp (1 : Nat) = object from named, count, single] at same
      exact absurd same (by decide)
    | close readSuccess writeSuccess fd => exact opens
    | dup2 readSuccess writeSuccess oldfd newfd => exact opens
    | fcntl fd command arg => exact opens
  · intro refused
    refine ⟨(empty.run refused ran).countsMatch, ?_⟩
    cases call with
    | close readSuccess writeSuccess fd =>
      intro pos small inUse
      obtain ⟨index, rfl⟩ := Int.eq_ofNat_of_zero_le pos.le
      exact absurd (empty index (by omega)) inUse
    | openFile stack object filename mode flag => trivial
    | dup2 readSuccess writeSuccess oldfd newfd => trivial
    | fcntl fd command arg => trivial

end OpenFiles

/-- In a run from an empty table the counts are the numbers of descriptors after every call,
and every `close` of a descriptor in use empties it, exactly when no `open` of the run goes
through. -/
theorem counts_match_iff {fuel : Nat} {namei : Namei} {calls : List FileCall}
    {t last : OpenFiles} {results : List (Except Int Int)} (empty : t.Empty)
    (returned : runSteps (FileCall.run fuel namei) calls t = some (results, last)) :
    AfterEach (FileCall.run fuel namei)
        (fun call t _ after => after.CountsMatch ∧ OpenFiles.Empties call t after) calls t ↔
      AtEach (FileCall.run fuel namei) (fun call t => ¬call.Opens namei t) calls t :=
  afterEach_iff_atEach (fun empty isStep => empty.countsMatch_iff isStep)
    (fun empty isStep refused => empty.run refused isStep) empty returned

def rootFiles : OpenFiles where
  inodes :=
    { storage := Storage.blank
      superBlock := fun dev => if dev = rootDev then some formattedSuperBlock else none
      sInodes := fun _ => []
      inode := fun _ => { clearedInode with iDev := rootDev, iCount := 1, iNum := 1 }
      rootInode := 1
      nrInodesCount := 1 }
  filp := fun _ => 0
  file := fun _ => ⟨0, 0, 0, 0, 0⟩
  sFiles := fun _ => []
  nrFileCount := 0

def rootNamei : Namei := fun _ _ _ inodes => some (.ok inodes.rootInode, inodes)

def openRoot (object : Nat) : FileCall := .openFile 0 object (some [0x2f]) 0 0

/-- An `open` without a path is refused and keeps the counts. -/
theorem counts_match_nullPath :
    rootFiles.Empty ∧ runSteps (FileCall.run 8 rootNamei) [.openFile 0 7 none 0 0] rootFiles =
        some ([.error (-1)], rootFiles) ∧
      AfterEach (FileCall.run 8 rootNamei)
        (fun call t _ after => after.CountsMatch ∧ OpenFiles.Empties call t after)
          [.openFile 0 7 none 0 0] rootFiles := by
  refine ⟨fun _ _ => rfl, rfl,
    (counts_match_iff (fun _ _ => rfl) rfl).mpr ⟨?_, fun _ _ _ => trivial⟩⟩
  rintro ⟨-, -, _, isPath, -⟩
  cases isPath

lemma isSome_openRoot : ((openRoot 7).run 8 rootNamei rootFiles).isSome = true := by
  decide

def openedOnce : OpenFiles := (((openRoot 7).run 8 rootNamei rootFiles).get isSome_openRoot).2

/-- `/` is opened and closed: one descriptor counts two references, and the `close` leaves it
in use. -/
theorem count_off_openClose :
    (∃ result, (openRoot 7).run 8 rootNamei rootFiles = some (result, openedOnce)) ∧
      openedOnce.filp 1 = 7 ∧ (openedOnce.file 7).fCount = 2 ∧ openedOnce.holders 7 = {1} ∧
        (openedOnce.close 8 true true 1).map (fun done => done.2.filp 1) = some 7 := by
  refine ⟨⟨_, (some_get isSome_openRoot).symm⟩, ?_, ?_, ?_, ?_⟩
  all_goals decide

def FileCall.isOpen : FileCall → Bool
  | .openFile _ _ _ _ _ => true
  | _ => false

def FileCall.Served : FileCall → Prop
  | .openFile _ object filename _ _ => object ≠ 0 ∧ filename ≠ none
  | _ => True

lemma FileCall.run_counts {fuel : Nat} {namei : Namei} {call : FileCall} {t after : OpenFiles}
    {result : Except Int Int} (served : call.Served)
    (ran : call.run fuel namei t = some (result, after)) :
    if call.isOpen then after.nrFileCount = (t.nrFileCount + 1) % 2 ^ 16 ∧
        (result = .error (-3) ↔ nrOpen ≤ t.nrFileCount)
      else after.nrFileCount = t.nrFileCount ∧ result ≠ .error (-3) := by
  cases call with
  | openFile stack object filename mode flag =>
    obtain ⟨_, rfl⟩ := ne_none_iff_exists'.mp served.2
    exact OpenFiles.openFile_counts served.1 ran
  | close readSuccess writeSuccess fd =>
    obtain ⟨⟨ret, closed⟩, isClosed, same⟩ := map_eq_some_iff.mp ran
    cases same
    exact ⟨OpenFiles.close_counts isClosed, nofun⟩
  | dup2 readSuccess writeSuccess oldfd newfd =>
    obtain ⟨_, isDone, same⟩ := map_eq_some_iff.mp ran
    cases same
    obtain ⟨⟨ret, closed⟩, isClosed, rfl⟩ := map_eq_some_iff.mp isDone
    exact ⟨(OpenFiles.dupfd_counts oldfd newfd closed).trans (OpenFiles.close_counts isClosed),
      nofun⟩
  | fcntl fd command arg =>
    cases ran
    exact ⟨OpenFiles.sysFcntl_counts fd command arg t, nofun⟩

/-- A run has no `open` that is refused because of the number of files exactly when the
`open`s of the run fit, together with all `open`s before it, under the limit: nothing is given
back by a `close`. -/
theorem no_open_refused_iff {fuel : Nat} {namei : Namei} {calls : List FileCall}
    {t last : OpenFiles} {results : List (Except Int Int)} (served : ∀ call ∈ calls, call.Served)
    (returned : runSteps (FileCall.run fuel namei) calls t = some (results, last)) :
    .error (-3) ∉ results ↔
      calls.countP FileCall.isOpen = 0 ∨ t.nrFileCount + calls.countP FileCall.isOpen ≤ nrOpen := by
  induction calls generalizing t results with
  | nil =>
    cases returned
    exact iff_of_true not_mem_nil (.inl rfl)
  | cons call rest ih =>
    obtain ⟨_, _, _, isStep, isRest, rfl⟩ := runSteps_cons returned
    rw [forall_mem_cons] at served
    have later := ih served.2 isRest
    have now := FileCall.run_counts served.1 isStep
    rw [mem_cons, not_or, later, countP_cons]
    cases isOpen : call.isOpen with
    | true =>
      rw [if_pos isOpen] at now
      rw [if_pos rfl, eq_comm, now.2, now.1]
      -- below the limit the counter does not wrap
      unfold nrOpen
      omega
    | false =>
      rw [if_neg (by rw [isOpen]; decide)] at now
      rw [if_neg (by decide), Nat.add_zero, now.1]
      exact and_iff_right fun same => now.2 same.symm

def openAndClose (rounds : Nat) : List FileCall :=
  (List.range rounds).flatMap fun round =>
    [openRoot (round + 1), .close true true 1, .close true true 1]

def OpenFiles.inUse (t : OpenFiles) : Nat :=
  ((Finset.range nrOpen).filter fun fd : Nat => t.filp fd ≠ 0).card

lemma isSome_openAndClose_two :
    (runSteps (FileCall.run 8 rootNamei) (openAndClose 2) rootFiles).isSome = true := by
  decide

/-- Two rounds from the start are not refused. -/
theorem no_open_refused_two :
    (∀ call ∈ openAndClose 2, call.Served) ∧
      .error (-3) ∉ ((runSteps (FileCall.run 8 rootNamei) (openAndClose 2) rootFiles).get
        isSome_openAndClose_two).1 := by
  have served : ∀ call ∈ openAndClose 2, call.Served := by
    simp [openAndClose, openRoot, FileCall.Served, range_succ]
  exact ⟨served, (no_open_refused_iff served (some_get isSome_openAndClose_two).symm).mpr
    (.inr (by decide))⟩

/-- The thirty-third `open` is refused with `-3`, although never more than one descriptor was
in use. -/
theorem open_refused_rounds :
    (∃ done, runSteps (FileCall.run 8 rootNamei) (openAndClose 33) rootFiles = some done ∧
        .error (-3) ∈ done.1) ∧
      ∀ calls ∈ Finset.range 100, ∃ done,
        runSteps (FileCall.run 8 rootNamei) ((openAndClose 33).take calls) rootFiles = some done ∧
          done.2.inUse ≤ 1 := by
  have refused : (runSteps (FileCall.run 8 rootNamei) (openAndClose 33) rootFiles).any
      (fun done => done.1.any fun result => result matches .error (-3)) = true := by
    set_option maxRecDepth 4000 in decide
  have few : passes (FileCall.run 8 rootNamei) (fun t => t.inUse ≤ 1) (openAndClose 33)
      rootFiles = true := by
    decide
  constructor
  · obtain ⟨done, isDone, found⟩ := (any_eq_true _ _).mp refused
    obtain ⟨result, member, isError⟩ := any_eq_true.mp found
    refine ⟨done, isDone, ?_⟩
    split at isError
    · exact member
    · cases isError
  · intro calls _
    obtain ⟨done, isDone, inUse⟩ := runSteps_take_of_passes few calls
    exact ⟨done, isDone, of_decide_eq_true inUse⟩

namespace OpenFiles

def freeFds (t : OpenFiles) : Set Int := {fd | 1 ≤ fd ∧ fd < nrOpen ∧ t.filp fd = 0}

def returnValue : Except Int Int → Int
  | .error code => code
  | .ok fd => fd

def OpensLowest (object : Nat) (t : OpenFiles) (result : Except Int Int) (after : OpenFiles) :
    Prop :=
  (∀ fd, IsLeast t.freeFds fd → returnValue result = fd ∧ after.filp = update t.filp fd object) ∧
    (t.freeFds = ∅ → returnValue result < 0 ∧ after.filp = t.filp)

variable {t : OpenFiles} {stack : Int}

lemma getEmptyFd_cases (stack : Int) (t : OpenFiles) :
    (∃ fd, IsLeast t.freeFds fd ∧ t.getEmptyFd stack = .ok fd) ∨
      t.freeFds = ∅ ∧ t.getEmptyFd stack = .ok stack := by
  unfold getEmptyFd
  cases found : (range' 1 (nrOpen - 1)).find? fun i : Nat => t.filp i = 0 with
  | none =>
    refine .inr ⟨Set.eq_empty_iff_forall_notMem.mpr ?_, rfl⟩
    rintro fd ⟨pos, below, free⟩
    lift fd to Nat using by omega
    have used := find?_eq_none.mp found fd (mem_range'_1.mpr ?_)
    · simp [free] at used
    · unfold nrOpen at below ⊢
      omega
  | some i =>
    obtain ⟨free, lt, old⟩ := find?_range'_eq_some.mp found
    rw [mem_range'_1] at lt
    unfold nrOpen at lt
    refine .inl ⟨i, ⟨⟨by omega, by unfold nrOpen; omega, of_decide_eq_true free⟩, ?_⟩, ?_⟩
    · rintro fd ⟨pos, -, isFree⟩
      lift fd to Nat using by omega
      by_contra less
      have used := old fd (by omega) (by omega)
      simp [isFree] at used
    · unfold nrOpen
      dsimp only [getD_some]
      rw [if_neg (by omega), if_pos (by omega)]

lemma openFile_resolved {namei : Namei} {object mode flag inode : Nat} {path : List Byte}
    {inodes : InodeTable} {sb : SuperBlock} {fd : Int} (taken : t.getEmptyFd stack = .ok fd)
    (ne0 : object ≠ 0) (available : t.nrFileCount < nrOpen)
    (resolved : namei path mode flag t.inodes = some (.ok inode, inodes))
    (mnt : inodes.superBlock (inodes.inode inode).iDev = some sb) :
    ∃ after, t.openFile namei stack object (some path) mode flag = some (.ok fd, after) ∧
      after.filp = update t.filp fd object := by
  have got : (t.getEmptyFilp object).1 = object := if_neg (not_le.mpr available)
  simp only [openFile, taken, got, if_neg ne0]
  rw [show namei path mode flag (t.getEmptyFilp object).2.inodes = _ from resolved]
  simp only [bind_some, install, mnt, map_some]
  exact ⟨_, rfl, rfl⟩

theorem open_lowest_iff {namei : Namei} {object mode flag inode : Nat} {path : List Byte}
    {inodes : InodeTable} {sb : SuperBlock} (notNull : object ≠ 0)
    (available : t.nrFileCount < nrOpen)
    (resolved : namei path mode flag t.inodes = some (.ok inode, inodes))
    (mounted : inodes.superBlock (inodes.inode inode).iDev = some sb) :
    ∃ result after, t.openFile namei stack object (some path) mode flag = some (result, after) ∧
      (t.OpensLowest object result after ↔
        t.freeFds.Nonempty ∨ stack < 0 ∧ t.filp stack = object) := by
  rcases getEmptyFd_cases stack t with ⟨fd, least, taken⟩ | ⟨full, taken⟩
  · obtain ⟨after, returned, isSlot⟩ := openFile_resolved taken notNull available resolved mounted
    refine ⟨_, after, returned, iff_of_true ⟨?_, ?_⟩ (.inl ⟨fd, least.1⟩)⟩
    · intro other isLeast
      rw [isLeast.unique least]
      exact ⟨rfl, isSlot⟩
    · intro full
      exact absurd least.1 (full ▸ Set.notMem_empty fd)
  · obtain ⟨after, returned, isSlot⟩ := openFile_resolved taken notNull available resolved mounted
    refine ⟨_, after, returned, ?_⟩
    unfold OpensLowest
    rw [isSlot, update_eq_self_iff, eq_comm (a := object)]
    simp [full, IsLeast, returnValue]

def fullTable : OpenFiles := { rootFiles with filp := fun fd => if 0 ≤ fd ∧ fd < 32 then 9 else 0 }

def usedTable : OpenFiles :=
  { rootFiles with filp := fun fd => if fd = 3 ∨ 5 < fd then 0 else 9 }

/-- With the descriptors 1, 2, 4 and 5 in use. -/
theorem open_lowest_root :
    ∃ result after, usedTable.openFile rootNamei 40 7 (some [0x2f]) 0 0 = some (result, after) ∧
      usedTable.OpensLowest 7 result after := by
  have opened : ∃ result after, usedTable.openFile rootNamei 40 7 (some [0x2f]) 0 0 = _ ∧ _ :=
    open_lowest_iff (by decide) (by decide) rfl rfl
  obtain ⟨result, after, returned, lowest⟩ := opened
  exact ⟨result, after, returned, lowest.mpr (.inl ⟨3, by decide, by decide, rfl⟩)⟩

theorem open_writes_behind_table :
    fullTable.freeFds = ∅ ∧
      ∃ after, fullTable.openFile rootNamei 40 7 (some [0x2f]) 0 0 = some (.ok 40, after) ∧
        after.filp 40 = 7 ∧ ¬fullTable.OpensLowest 7 (.ok 40) after := by
  have full : fullTable.freeFds = ∅ := by
    refine Set.eq_empty_iff_forall_notMem.mpr ?_
    rintro fd ⟨_, below, free⟩
    have inTable : fullTable.filp fd = 9 := if_pos ⟨by omega, below⟩
    rw [inTable] at free
    cases free
  exact ⟨full, _, rfl, rfl, fun opens => absurd (opens.2 full).1 (by decide)⟩

def IsOpen (fd : Nat) (t : OpenFiles) : Prop := fd < nrOpen ∧ t.filp fd ≠ 0

def FullFrom (newfd : Nat) (t : OpenFiles) : Prop :=
  ∀ fd : Nat, newfd ≤ fd → fd < nrOpen → t.filp fd ≠ 0

def LastClose (fd : Nat) (t : OpenFiles) : Prop :=
  0 < fd ∧ (t.file (t.filp fd)).fCount % 2 ^ 16 = 1

def Aliases (oldfd newfd : Nat) (t : OpenFiles) (ret : Int) (after : OpenFiles) : Prop :=
  (0 ≤ ret → ret = newfd ∧ after.filp = update t.filp newfd (t.filp oldfd)) ∧
    (ret < 0 → after.filp = t.filp) ∧
    (oldfd = newfd → t.IsOpen oldfd → ret = oldfd ∧ after.filp = t.filp)

def Aliasable (oldfd newfd : Nat) (t : OpenFiles) : Prop :=
  ¬ t.IsOpen newfd ∨ oldfd ≠ newfd ∧ (t.LastClose newfd ∧ t.IsOpen oldfd ∨
      ¬ t.LastClose newfd ∧ (¬ t.IsOpen oldfd ∨ t.FullFrom newfd))

variable {t u after : OpenFiles} {fuel oldfd newfd : Nat} {ret : Int}
  {readSuccess writeSuccess : Bool}

lemma filp_close (small : newfd < 2 ^ 32)
    (ran : t.close fuel readSuccess writeSuccess (asInt newfd) = some (ret, u)) :
    t.IsOpen newfd ∧ t.LastClose newfd ∧ u.filp = update t.filp newfd 0 ∨
      ¬ (t.IsOpen newfd ∧ t.LastClose newfd) ∧ u.filp = t.filp := by
  have isLimit : nrOpen = 32 := rfl
  unfold close at ran
  by_cases inTable : 0 < newfd ∧ newfd < nrOpen
  · have isFd : asInt newfd = newfd := if_pos (by omega)
    rw [isFd, if_neg (by omega)] at ran
    by_cases free : t.filp newfd = 0
    · rw [if_pos free] at ran
      cases ran
      exact .inr ⟨fun both => both.1.2 free, rfl⟩
    rw [if_neg free] at ran
    by_cases unused : (t.file (t.filp newfd)).fCount = 0
    · rw [if_pos unused] at ran
      cases ran
    rw [if_neg unused] at ran
    obtain ⟨_, -, same⟩ := map_eq_some_iff.mp ran
    dsimp only at same
    split_ifs at same with more
    · cases same
      simp only [setCount, update_self] at more
      refine .inr ⟨fun both => more ?_, rfl⟩
      have last := both.2.2
      omega
    · cases same
      simp only [setCount, update_self] at more
      exact .inl ⟨⟨inTable.2, free⟩, ⟨inTable.1, by omega⟩, rfl⟩
  · have refused : asInt newfd ≤ 0 ∨ (nrOpen : Int) ≤ asInt newfd := by
      unfold asInt
      split_ifs
      all_goals omega
    rw [if_pos refused] at ran
    cases ran
    exact .inr ⟨fun both => inTable ⟨both.2.1, both.1.1⟩, rfl⟩

lemma dupfd_cases (oldfd newfd : Nat) (t : OpenFiles) :
    (¬ t.IsOpen oldfd ∨ t.FullFrom newfd) ∧ t.dupfd oldfd newfd = (-1, t) ∨
      t.IsOpen oldfd ∧ ∃ fd : Nat, newfd ≤ fd ∧ fd < nrOpen ∧ t.filp fd = 0 ∧
        (t.filp newfd = 0 → fd = newfd) ∧ (t.dupfd oldfd newfd).1 = fd ∧
        (t.dupfd oldfd newfd).2.filp = update t.filp fd (t.filp oldfd) := by
  unfold dupfd
  by_cases bad : nrOpen ≤ oldfd ∨ t.filp oldfd = 0
  · refine .inl ⟨.inl fun isOpen => ?_, if_pos bad⟩
    exact bad.elim (Nat.not_le_of_lt isOpen.1) isOpen.2
  rw [if_neg bad]
  by_cases high : nrOpen ≤ newfd
  · exact .inl ⟨.inr fun fd _ _ => by omega, if_pos high⟩
  rw [if_neg high]
  cases found : (range' newfd (nrOpen - newfd)).find? fun fd : Nat => t.filp fd = 0 with
  | none =>
    refine .inl ⟨.inr fun fd low below free => ?_, rfl⟩
    have used := find?_eq_none.mp found fd (mem_range'_1.mpr (by omega))
    simp [free] at used
  | some fd =>
    obtain ⟨free, lt, old⟩ := find?_range'_eq_some.mp found
    rw [mem_range'_1] at lt
    rw [not_or] at bad
    refine .inr ⟨⟨Nat.lt_of_not_le bad.1, bad.2⟩, fd, lt.1, by omega, of_decide_eq_true free,
      fun isFree => ?_, rfl, rfl⟩
    by_contra apart
    have used := old newfd (Nat.le_refl _) (by omega)
    simp [isFree] at used

lemma aliases_of_emptied (isOpen : t.IsOpen newfd) (last : t.LastClose newfd)
    (emptied : u.filp = update t.filp newfd 0) (isDup : u.dupfd oldfd newfd = (ret, after)) :
    t.Aliases oldfd newfd ret after ↔ t.Aliasable oldfd newfd := by
  have free : u.filp newfd = 0 := by rw [emptied, update_self]
  rcases dupfd_cases oldfd newfd u with
    ⟨fails, isFail⟩ | ⟨openOld, fd, -, -, -, atNew, isRet, isFilp⟩
  · cases isDup.symm.trans isFail
    refine iff_of_false (fun aliases => ?_) ?_
    · have changed := congrFun (aliases.2.1 (by decide)) newfd
      exact isOpen.2 (changed.symm.trans free)
    rintro (closed | ⟨apart, ⟨-, inTable, used⟩ | ⟨more, -⟩⟩)
    · exact closed isOpen
    · rcases fails with notOpen | full
      · refine notOpen ⟨inTable, ?_⟩
        rwa [emptied, update_of_ne (by omega)]
      · exact full newfd (Nat.le_refl _) isOpen.1 free
    · exact more last
  rw [isDup] at isRet isFilp
  have apart : oldfd ≠ newfd := by
    rintro rfl
    exact openOld.2 free
  rw [atNew free, emptied, update_idem, update_of_ne (by omega)] at isFilp
  have isNew : ret = newfd := isRet.trans (by rw [atNew free])
  have openFirst : t.IsOpen oldfd := by
    have used := openOld.2
    rw [emptied, update_of_ne (by omega)] at used
    exact ⟨openOld.1, used⟩
  refine iff_of_true ⟨fun _ => ⟨isNew, isFilp⟩, fun neg => by omega, fun same => ?_⟩
    (.inr ⟨apart, .inl ⟨last, openFirst⟩⟩)
  exact absurd same apart

lemma aliases_of_kept (kept : ¬ (t.IsOpen newfd ∧ t.LastClose newfd)) (unchanged : u.filp = t.filp)
    (isDup : u.dupfd oldfd newfd = (ret, after)) :
    t.Aliases oldfd newfd ret after ↔ t.Aliasable oldfd newfd := by
  rcases dupfd_cases oldfd newfd u with
    ⟨fails, isFail⟩ | ⟨openOld, fd, low, below, isFree, atNew, isRet, isFilp⟩
  · cases isDup.symm.trans isFail
    unfold IsOpen FullFrom at fails
    rw [unchanged] at fails
    constructor
    · rintro ⟨-, -, again⟩
      by_cases isOpen : t.IsOpen newfd
      · refine .inr ⟨fun same => ?_, .inr ⟨fun last => kept ⟨isOpen, last⟩, fails⟩⟩
        have isSame := (again same (same ▸ isOpen)).1
        omega
      · exact .inl isOpen
    · intro aliasable
      refine ⟨fun pos => absurd pos (by decide), fun _ => unchanged, ?_⟩
      rintro rfl isOpen
      rcases aliasable with closed | ⟨apart, -⟩
      · exact absurd isOpen closed
      · exact absurd rfl apart
  rw [isDup] at isRet isFilp
  rw [IsOpen, unchanged] at openOld
  rw [unchanged] at isFilp isFree atNew
  have isRet : ret = fd := isRet
  by_cases free : t.filp newfd = 0
  · obtain rfl := atNew free
    refine iff_of_true ⟨fun _ => ⟨isRet, isFilp⟩, fun neg => by omega, ?_⟩
      (.inl fun isOpen => isOpen.2 free)
    rintro rfl isOpen
    exact absurd free isOpen.2
  refine iff_of_false (fun aliases => ?_) ?_
  · have isNew := (aliases.1 (by omega)).1
    obtain rfl : fd = newfd := by omega
    exact free isFree
  rintro (closed | ⟨-, ⟨last, -⟩ | ⟨-, notOpen | full⟩⟩)
  · exact closed ⟨by omega, free⟩
  · exact kept ⟨⟨by omega, free⟩, last⟩
  · exact notOpen openOld
  · exact full fd low below isFree

/-- `dup2` aliases exactly the descriptor asked for iff that one is not in use, or it is another
one that either is closed for the last time, with `oldfd` open, or stays open and the call
fails. -/
theorem dup2_aliases_iff (fuel oldfd newfd : Nat) (readSuccess writeSuccess : Bool)
    (t after : OpenFiles) (ret : Int) (small : newfd < 2 ^ 32)
    (returned : t.sysDup2 fuel readSuccess writeSuccess oldfd newfd = some (ret, after)) :
    t.Aliases oldfd newfd ret after ↔ t.Aliasable oldfd newfd := by
  obtain ⟨⟨_, u⟩, isClosed, isDup⟩ := map_eq_some_iff.mp returned
  rcases filp_close small isClosed with ⟨isOpen, last, emptied⟩ | ⟨kept, unchanged⟩
  · exact aliases_of_emptied isOpen last emptied isDup
  · exact aliases_of_kept kept unchanged isDup

theorem dup2_aliases_free :
    ∃ ret after, openedOnce.sysDup2 8 true true 1 5 = some (ret, after) ∧
      (openedOnce.Aliases 1 5 ret after ↔ openedOnce.Aliasable 1 5) :=
  ⟨_, _, rfl, dup2_aliases_iff 8 1 5 true true openedOnce _ _ (by decide) rfl⟩

/-- The file just opened counts two references, so that `dup2(1, 1)` does not close it and finds
another descriptor. -/
theorem dup2_same_returns_other :
    openedOnce.filp 1 = 7 ∧
      (openedOnce.sysDup2 8 true true 1 1).map (fun done => (done.1, done.2.filp 2)) =
        some (2, 7) := by
  decide

end OpenFiles

end PrettyOS.Fs
