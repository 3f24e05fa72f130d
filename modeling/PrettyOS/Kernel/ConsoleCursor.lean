import PrettyOS.Kernel.Console
import PrettyOS.Library.Runs

/-!
Contract: where the cursors of the consoles can get to.

A console has 5461 characters, of which 68 lines of 80 are in use; its window shows 25 of them.
-/

namespace PrettyOS.Kernel

open Library Function Option

variable {con : Console} {s after : Screen} {nr other : Fin nrConsoles} {fuel : Nat}

def Console.Owns (con : Console) (address : Nat) : Prop :=
  vMemBase + 2 * con.originalAddr ≤ address ∧
    address < vMemBase + 2 * (con.originalAddr + con.vMemLimit)

def Console.Inside (con : Console) : Prop :=
  con.originalAddr ≤ con.cursor ∧ con.cursor < con.originalAddr + con.vMemLimit

structure Console.Laid (nr : Fin nrConsoles) (con : Console) : Prop where
  original : con.originalAddr = nr * 5461
  limit : con.vMemLimit = 5440
  lines : ∃ k ≤ 43, con.currentStartAddr = con.originalAddr + 80 * k

def InOwnMemory (s : Screen) : Prop := ∀ nr, (s.console nr).Laid nr ∧ (s.console nr).Inside

lemma Console.Laid.original_le (laid : con.Laid nr) : con.originalAddr ≤ 10922 := by
  have bound : nr.val < 3 := nr.isLt
  rw [laid.original]
  omega

@[simp]
lemma console_setConsole : (s.setConsole nr con).console nr = con := update_self _ _ _

lemma console_setConsole_of_ne (apart : other ≠ nr) :
    (s.setConsole nr con).console other = s.console other :=
  update_of_ne apart _ _

lemma word_eq {n : Nat} (small : n < 2 ^ 32) : word n = n := Nat.mod_eq_of_lt small

lemma wordSub_eq {a b : Nat} (le : b ≤ a) (small : a < 2 ^ 32) : wordSub a b = a - b := by
  unfold wordSub
  omega

section

variable (laid : con.Laid nr)
include laid

lemma Console.Laid.start_le : con.currentStartAddr ≤ con.originalAddr + 3440 := by
  obtain ⟨k, _, _⟩ := laid.lines
  omega

lemma Console.Laid.word_end :
    word (con.currentStartAddr + screenSize) = con.currentStartAddr + 2000 := by
  have bound := laid.original_le
  have start := laid.start_le
  exact word_eq (show con.currentStartAddr + 2000 < 2 ^ 32 by omega)

lemma Console.Laid.word_limit :
    word (con.originalAddr + con.vMemLimit) = con.originalAddr + 5440 := by
  have bound := laid.original_le
  rw [laid.limit]
  exact word_eq (by omega)

lemma Console.Laid.above_iff :
    con.Above ↔ con.currentStartAddr + 2000 < con.originalAddr + 5440 := by
  rw [Console.Above, laid.word_end, laid.word_limit]

lemma Console.Laid.scrollLine (above : con.Above) :
    con.scrollLine.Laid nr ∧
      con.scrollLine.currentStartAddr = con.currentStartAddr + 80 := by
  obtain ⟨k, _, isStart⟩ := laid.lines
  have bound := laid.original_le
  rw [laid.above_iff] at above
  have moved : con.scrollLine.currentStartAddr = con.currentStartAddr + 80 := by
    show (con.currentStartAddr + 80) % 2 ^ 32 = _
    omega
  refine ⟨⟨laid.original, laid.limit, k + 1, by omega, ?_⟩, moved⟩
  rw [moved, isStart]
  show con.originalAddr + 80 * k + 80 = con.originalAddr + 80 * (k + 1)
  omega

lemma Console.Laid.rewind : con.rewind.Laid nr := ⟨laid.original, laid.limit, 0, by omega, rfl⟩

lemma Console.Laid.scrollUp : con.scrollUp.Laid nr := by
  obtain ⟨k, _, _⟩ := laid.lines
  have bound := laid.original_le
  unfold Console.scrollUp
  split_ifs with below
  · refine ⟨laid.original, laid.limit, k - 1, by omega, ?_⟩
    show (con.currentStartAddr + (2 ^ 32 - 80)) % 2 ^ 32 = con.originalAddr + 80 * (k - 1)
    omega
  · exact laid

lemma Console.Laid.withCursor (cursor : Nat) : Console.Laid nr { con with cursor := cursor } :=
  ⟨laid.original, laid.limit, laid.lines⟩

end

lemma cursor_scrollDown :
    ((scrollScreen nr scrollScreenDown s).console nr).cursor = (s.console nr).cursor := by
  unfold scrollScreen
  rw [if_neg (by decide), if_pos rfl]
  split_ifs
  · rw [console_setConsole]
    rfl
  · rw [console_setConsole]
    rfl

lemma console_scrollScreen_of_ne (apart : other ≠ nr) (dir : Int) :
    (scrollScreen nr dir s).console other = s.console other := by
  unfold scrollScreen
  split_ifs
  · exact console_setConsole_of_ne apart
  · exact console_setConsole_of_ne apart
  · exact console_setConsole_of_ne apart
  · rfl

section

variable (laid : (s.console nr).Laid nr)
include laid

lemma laid_scrollScreen (dir : Int) : ((scrollScreen nr dir s).console nr).Laid nr := by
  unfold scrollScreen
  split_ifs with up down above
  · rw [console_setConsole]
    exact laid.scrollUp
  · rw [console_setConsole]
    exact (laid.scrollLine above).1
  · rw [console_setConsole]
    exact laid.rewind
  · exact laid

lemma mem_scrollScreen {addr : Nat} (dir : Int)
    (out : ¬ (s.console nr).Owns addr) : (scrollScreen nr dir s).mem addr = s.mem addr := by
  unfold scrollScreen
  split_ifs
  · rfl
  · rfl
  · have bound := laid.original_le
    have isBase : word (2 * (s.console nr).originalAddr) = 2 * (s.console nr).originalAddr := by
      unfold word
      omega
    show (if _ then _ else _) = _
    rw [isBase, if_neg]
    intro inside
    exact out ⟨inside.1, by omega⟩
  · rfl

lemma scrollToCursor_returns
    (inside : (s.console nr).cursor < (s.console nr).originalAddr + (s.console nr).vMemLimit)
    (near : (s.console nr).cursor < (s.console nr).currentStartAddr + 2000 + 80 * fuel) :
    ∃ after, scrollToCursor nr (fuel + 1) s = some after ∧ (after.console nr).Laid nr ∧
      (after.console nr).cursor = (s.console nr).cursor ∧
      (after.console nr).originalAddr = (s.console nr).originalAddr ∧
      after.mem = s.mem ∧ ∀ other, other ≠ nr → after.console other = s.console other := by
  induction fuel generalizing s with
  | zero =>
    refine ⟨s, ?_, laid, rfl, rfl, rfl, fun _ _ => rfl⟩
    rw [scrollToCursor, laid.word_end, if_neg (by omega)]
  | succ fuel ih =>
    rw [scrollToCursor, laid.word_end]
    by_cases beyond : (s.console nr).currentStartAddr + 2000 ≤ (s.console nr).cursor
    · -- the cursor is above the end, so the window is, and moves down a line
      have above : (s.console nr).Above := by
        rw [laid.above_iff]
        have below := inside
        rw [laid.limit] at below
        omega
      obtain ⟨laidNow, moved⟩ := laid.scrollLine above
      have isScroll : scrollScreen nr scrollScreenDown s =
          s.setConsole nr (s.console nr).scrollLine := by
        rw [scrollScreen, if_neg (by decide), if_pos rfl, if_pos above]
      have nearer : (s.console nr).cursor <
          (s.console nr).scrollLine.currentStartAddr + 2000 + 80 * fuel := by
        rw [moved]
        omega
      have again := @ih (s.setConsole nr (s.console nr).scrollLine)
      rw [console_setConsole] at again
      rw [if_pos beyond, isScroll]
      obtain ⟨after, isLoop, laidAfter, eqCursor, sameOriginal, eqMem, others⟩ :=
        again laidNow inside nearer
      refine ⟨after, isLoop, laidAfter, eqCursor, sameOriginal, eqMem, ?_⟩
      intro other apart
      exact (others other apart).trans (console_setConsole_of_ne apart)
    · rw [if_neg beyond]
      exact ⟨s, rfl, laid, rfl, rfl, rfl, fun _ _ => rfl⟩

lemma scrollToCursor_loops (beyond : (s.console nr).originalAddr + 5440 ≤ (s.console nr).cursor) :
    scrollToCursor nr fuel s = none := by
  induction fuel generalizing s with
  | zero => rfl
  | succ fuel ih =>
    have start := laid.start_le
    rw [scrollToCursor, laid.word_end, if_pos (by omega)]
    have laidNow := laid_scrollScreen laid scrollScreenDown
    apply ih laidNow
    rw [cursor_scrollDown, laidNow.original, ← laid.original]
    exact beyond

end

lemma mem_storeChar {addr cursor : Nat} {ch : BitVec 8} {mem : Nat → BitVec 8}
    (laid : con.Laid nr) (inside : con.originalAddr ≤ cursor ∧ cursor < con.originalAddr + 5440)
    (out : ¬ con.Owns addr) : storeChar (vMemBase + 2 * cursor) ch mem addr = mem addr := by
  have bound := laid.original_le
  have isNext : word (vMemBase + 2 * cursor + 1) = vMemBase + 2 * cursor + 1 :=
    word_eq (show 0xB8000 + 2 * cursor + 1 < 2 ^ 32 by omega)
  unfold Console.Owns at out
  rw [laid.limit] at out
  rw [storeChar, isNext, update_of_ne (by omega), update_of_ne (by omega)]

structure Switched (nr : Fin nrConsoles) (ch : BitVec 8) (s after : Screen) : Prop where
  laid : (after.console nr).Laid nr
  others : ∀ other, other ≠ nr → after.console other = s.console other
  memory : ∀ address, ¬ (s.console nr).Owns address → after.mem address = s.mem address
  tab : ch = 0x09 → (after.console nr).cursor = (s.console nr).cursor + 8
  inside : ch ≠ 0x09 → (after.console nr).Inside

lemma switched_setCursor {ch : BitVec 8} {cursor : Nat} {number : Int} {mem : Nat → BitVec 8}
    (laid : (s.console nr).Laid nr)
    (memory : ∀ addr, ¬ (s.console nr).Owns addr → mem addr = s.mem addr)
    (tab : ch = 0x09 → cursor = (s.console nr).cursor + 8)
    (inside : ch ≠ 0x09 → (s.console nr).originalAddr ≤ cursor ∧
      cursor < (s.console nr).originalAddr + 5440) :
    Switched nr ch s { s.setCursor nr cursor with mem := mem, outCharNumber := number } := by
  have isConsole : (s.setCursor nr cursor).console nr = { s.console nr with cursor := cursor } :=
    console_setConsole
  refine ⟨?_, fun other apart => console_setConsole_of_ne apart, memory, ?_, ?_⟩
  · show ((s.setCursor nr cursor).console nr).Laid nr
    rw [isConsole]
    exact laid.withCursor cursor
  · intro isTab
    show ((s.setCursor nr cursor).console nr).cursor = _
    rw [isConsole]
    exact tab isTab
  · intro noTab
    show ((s.setCursor nr cursor).console nr).Inside
    rw [isConsole, Console.Inside, laid.limit]
    exact inside noTab

lemma switched_refl {ch : BitVec 8} (laid : (s.console nr).Laid nr)
    (inside : (s.console nr).Inside) (noTab : ch ≠ 0x09) : Switched nr ch s s :=
  ⟨laid, fun _ _ => rfl, fun _ _ => rfl, fun isTab => absurd isTab noTab, fun _ => inside⟩

lemma switched_scroll {ch : BitVec 8} (laid : (s.console nr).Laid nr) (noTab : ch ≠ 0x09) :
    Switched nr ch s
      { (scrollScreen nr scrollScreenDown s).setCursor nr (s.console nr).originalAddr with
        outCharNumber := 0 } := by
  have laidNow := laid_scrollScreen laid scrollScreenDown
  have sameOriginal := laidNow.original.trans laid.original.symm
  have moved := @switched_setCursor (scrollScreen nr scrollScreenDown s) nr ch
    (s.console nr).originalAddr 0 (scrollScreen nr scrollScreenDown s).mem laidNow
    (fun _ _ => rfl) (fun isTab => absurd isTab noTab) (fun _ => by
      rw [sameOriginal]
      omega)
  refine ⟨moved.laid, ?_, ?_, fun isTab => absurd isTab noTab, moved.inside⟩
  · intro other apart
    exact (moved.others other apart).trans (console_scrollScreen_of_ne apart scrollScreenDown)
  · intro addr out
    exact mem_scrollScreen laid scrollScreenDown out

lemma outCharSwitch_switched (ch : BitVec 8) (laid : (s.console nr).Laid nr)
    (inside : (s.console nr).Inside) : Switched nr ch s (outCharSwitch nr ch s) := by
  have bound := laid.original_le
  have isInside : (s.console nr).originalAddr ≤ (s.console nr).cursor ∧
      (s.console nr).cursor < (s.console nr).originalAddr + 5440 := by
    have both := inside
    rwa [Console.Inside, laid.limit] at both
  have isAddress : word (vMemBase + (s.console nr).cursor * 2) =
      vMemBase + 2 * (s.console nr).cursor := by
    rw [Nat.mul_comm (s.console nr).cursor 2]
    exact word_eq (show 0xB8000 + 2 * (s.console nr).cursor < 2 ^ 32 by omega)
  unfold outCharSwitch
  dsimp only
  rw [laid.word_limit, isAddress]
  by_cases isLine : ch = 0x0A
  · have noTab : ch ≠ 0x09 := by
      rw [isLine]
      decide
    rw [if_pos isLine]
    split_ifs with room
    · apply switched_setCursor laid (fun _ _ => rfl) (fun isTab => absurd isTab noTab)
      intro _
      have below : _ < _ - 80 := room.trans_eq (wordSub_eq (show 80 ≤ _ by omega) (by omega))
      rw [wordSub_eq isInside.1 (by omega), show screenWidth = 80 from rfl, word_eq (by omega)]
      omega
    · exact switched_scroll laid noTab
  rw [if_neg isLine]
  by_cases isBack : ch = 0x08
  · have noTab : ch ≠ 0x09 := by
      rw [isBack]
      decide
    rw [if_pos isBack]
    split_ifs with room
    · have isCell : wordSub (vMemBase + 2 * (s.console nr).cursor) 2 =
          vMemBase + 2 * ((s.console nr).cursor - 1) := by
        unfold wordSub vMemBase
        omega
      rw [isCell, wordSub_eq (by omega) (by omega)]
      apply switched_setCursor laid _ (fun isTab => absurd isTab noTab) (fun _ => by omega)
      exact fun addr out => mem_storeChar laid (by omega) out
    · exact switched_refl laid inside noTab
  rw [if_neg isBack]
  by_cases isTab : ch = 0x09
  · rw [if_pos isTab, word_eq (by omega)]
    exact switched_setCursor laid (fun _ _ => rfl) (fun _ => rfl) (fun noTab => absurd isTab noTab)
  rw [if_neg isTab]
  split_ifs with room
  · have below := room.trans_eq (wordSub_eq (by omega) (by omega))
    rw [word_eq (by omega)]
    apply switched_setCursor laid _ (fun isTab' => absurd isTab' isTab) (fun _ => by omega)
    exact fun addr out => mem_storeChar laid isInside out
  · exact switched_refl laid inside isTab

def Confined (call : ScreenCall) (s : Screen) (_ : Unit) (after : Screen) : Prop :=
  (∀ nr, (after.console nr).Inside) ∧
    ∀ address, ¬ (s.console call.nr).Owns address → after.mem address = s.mem address

def KeepsCursor : ScreenCall → Screen → Prop
  | .outChar nr ch, s => ch = 0x09 →
      (s.console nr).cursor + 8 < (s.console nr).originalAddr + (s.console nr).vMemLimit
  | .scrollScreen nr direction, s => direction = scrollScreenUp →
      (s.console nr).originalAddr < (s.console nr).currentStartAddr →
      (s.console nr).originalAddr + screenWidth ≤ (s.console nr).cursor

lemma outChar_tab_loops (laid : (s.console nr).Laid nr) (inside : (s.console nr).Inside)
    (crosses : (s.console nr).originalAddr + (s.console nr).vMemLimit ≤ (s.console nr).cursor + 8) :
    outChar fuel nr 0x09 s = none := by
  have switched := outCharSwitch_switched 0x09 laid inside
  apply scrollToCursor_loops switched.laid
  rw [switched.tab rfl, switched.laid.original, ← laid.original, ← laid.limit]
  exact crosses

lemma outChar_returns {ch : BitVec 8} (enough : 44 ≤ fuel) (good : InOwnMemory s)
    (keeps : KeepsCursor (.outChar nr ch) s) :
    ∃ after, outChar fuel nr ch s = some after ∧ InOwnMemory after ∧
      ∀ addr, ¬ (s.console nr).Owns addr → after.mem addr = s.mem addr := by
  obtain ⟨laid, inside⟩ := good nr
  have switched := outCharSwitch_switched ch laid inside
  have sameOriginal := switched.laid.original.trans laid.original.symm
  have insideNow : ((outCharSwitch nr ch s).console nr).Inside := by
    by_cases isTab : ch = 0x09
    · have below := keeps isTab
      rw [laid.limit] at below
      rw [Console.Inside, switched.tab isTab, sameOriginal, switched.laid.limit]
      exact ⟨Nat.le_trans inside.1 (Nat.le_add_right _ _), below⟩
    · exact switched.inside isTab
  obtain ⟨rounds, rfl⟩ : ∃ rounds, fuel = rounds + 1 := ⟨fuel - 1, by omega⟩
  have near : ((outCharSwitch nr ch s).console nr).cursor <
      ((outCharSwitch nr ch s).console nr).currentStartAddr + 2000 + 80 * rounds := by
    have below := insideNow.2
    obtain ⟨k, -, _⟩ := switched.laid.lines
    rw [switched.laid.limit] at below
    omega
  obtain ⟨after, ran, laidAfter, eqCursor, orig, eqMem, others⟩ :=
    scrollToCursor_returns switched.laid insideNow.2 near
  refine ⟨after, ran, ?_, ?_⟩
  · intro other
    by_cases apart : other = nr
    · subst apart
      refine ⟨laidAfter, ?_⟩
      rw [Console.Inside, eqCursor, orig, laidAfter.limit, ← switched.laid.limit]
      exact insideNow
    · rw [others other apart, switched.others other apart]
      exact good other
  · intro addr out
    rw [eqMem]
    exact switched.memory addr out

lemma scrollScreen_keeps {dir : Int} (good : InOwnMemory s)
    (keeps : KeepsCursor (.scrollScreen nr dir) s) : InOwnMemory (scrollScreen nr dir s) := by
  intro other
  by_cases apart : other = nr
  · subst apart
    obtain ⟨laid, inside⟩ := good other
    refine ⟨laid_scrollScreen laid dir, ?_⟩
    by_cases up : dir = scrollScreenUp
    · rw [scrollScreen, if_pos up, console_setConsole, Console.scrollUp]
      split_ifs with below
      · have behind : (s.console other).originalAddr + 80 ≤ (s.console other).cursor :=
          keeps up below
        have bound := laid.original_le
        have under := inside.2
        rw [laid.limit] at under
        have isBefore : wordSub (s.console other).cursor screenWidth = _ - 80 :=
          wordSub_eq (show 80 ≤ _ by omega) (by omega)
        rw [Console.Inside, laid.limit, isBefore]
        dsimp only
        omega
      · exact inside
    · unfold scrollScreen
      rw [if_neg up]
      split_ifs
      · rw [console_setConsole]
        exact inside
      · rw [console_setConsole]
        exact inside
      · exact inside
  · rw [console_scrollScreen_of_ne apart]
    exact good other

lemma confined_iff_keepsCursor {call : ScreenCall} (enough : 44 ≤ fuel) (good : InOwnMemory s) :
    (∃ res after, screenStep fuel call s = some (res, after) ∧
      Confined call s res after) ↔ KeepsCursor call s := by
  constructor
  · rintro ⟨res, after, ran, confined⟩
    cases call with
    | outChar nr ch =>
      intro isTab
      obtain ⟨_, isDone, -⟩ := map_eq_some_iff.mp ran
      obtain ⟨laid, inside⟩ := good nr
      by_contra crosses
      rw [isTab, outChar_tab_loops laid inside (Nat.le_of_not_lt crosses)] at isDone
      cases isDone
    | scrollScreen nr dir =>
      intro up below
      cases ran
      obtain ⟨laid, inside⟩ := good nr
      have insideNow := confined.1 nr
      rw [scrollScreen, if_pos up, console_setConsole, Console.scrollUp, if_pos below,
        Console.Inside, laid.limit] at insideNow
      have bound := laid.original_le
      have under := inside.2
      rw [laid.limit] at under
      have lower : (s.console nr).originalAddr ≤
          ((s.console nr).cursor + (2 ^ 32 - 80)) % 2 ^ 32 := insideNow.1
      have upper : ((s.console nr).cursor + (2 ^ 32 - 80)) % 2 ^ 32 <
          (s.console nr).originalAddr + 5440 := insideNow.2
      show (s.console nr).originalAddr + 80 ≤ (s.console nr).cursor
      omega
  · intro keeps
    cases call with
    | outChar nr ch =>
      obtain ⟨after, ran, goodAfter, memory⟩ := outChar_returns enough good keeps
      refine ⟨(), after, ?_, fun other => (goodAfter other).2, memory⟩
      rw [screenStep, ran]
      rfl
    | scrollScreen nr dir =>
      refine ⟨(), _, rfl, fun other => (scrollScreen_keeps good keeps other).2, ?_⟩
      exact fun addr out => mem_scrollScreen (good nr).1 dir out

lemma inOwnMemory_step {call : ScreenCall} {res : Unit} (enough : 44 ≤ fuel)
    (good : InOwnMemory s) (ran : screenStep fuel call s = some (res, after))
    (keeps : KeepsCursor call s) : InOwnMemory after := by
  cases call with
  | outChar nr ch =>
    obtain ⟨_, isDone, goodAfter, -⟩ := outChar_returns enough good keeps
    rw [screenStep, isDone] at ran
    cases ran
    exact goodAfter
  | scrollScreen nr dir =>
    cases ran
    exact scrollScreen_keeps good keeps

lemma laid_iterate (laid : (s.console nr).Laid nr) (n : Nat) :
    (((scrollScreen nr scrollScreenDown)^[n] s).console nr).Laid nr := by
  induction n with
  | zero => exact laid
  | succ n ih =>
    rw [iterate_succ_apply']
    exact laid_scrollScreen ih scrollScreenDown

lemma console_iterate_of_ne (apart : other ≠ nr) (n : Nat) :
    ((scrollScreen nr scrollScreenDown)^[n] s).console other = s.console other := by
  induction n with
  | zero => rfl
  | succ n ih =>
    rw [iterate_succ_apply', console_scrollScreen_of_ne apart]
    exact ih

lemma initScreen_of_ne (apart : other ≠ nr) :
    (initScreen nr s).console other = s.console other := by
  unfold initScreen
  dsimp only
  split_ifs
  · exact (console_setConsole_of_ne apart).trans ((console_iterate_of_ne apart _).trans
      ((console_setConsole_of_ne apart).trans (console_setConsole_of_ne apart)))
  · exact console_setConsole_of_ne apart

lemma freshConsole_laid (nr : Fin nrConsoles) :
    (freshConsole nr).Laid nr ∧ (freshConsole nr).Inside := by
  have isSize : conVMemSize = 5461 := by decide
  have isLimit : (freshConsole nr).vMemLimit = 5440 := by
    show conVMemSize / screenWidth * screenWidth = 5440
    decide
  refine ⟨⟨congrArg (nr.val * ·) isSize, isLimit, 0, by omega, (Nat.add_zero _).symm⟩,
    Nat.le_refl _, ?_⟩
  rw [isLimit]
  exact Nat.lt_add_of_pos_right (by decide)

lemma setCursor_laid (first : nr.val = 0) (laid : (s.console nr).Laid nr) :
    ((s.setCursor nr screenSize).console nr).Laid nr ∧
      ((s.setCursor nr screenSize).console nr).Inside := by
  rw [Screen.setCursor, console_setConsole]
  refine ⟨laid.withCursor screenSize, ?_⟩
  rw [Console.Inside]
  dsimp only
  rw [laid.limit, laid.original, first]
  decide

lemma initScreen_laid (nr : Fin nrConsoles) (s : Screen) :
    ((initScreen nr s).console nr).Laid nr ∧ ((initScreen nr s).console nr).Inside := by
  by_cases first : nr.val = 0
  · have shown : (((s.setConsole nr (freshConsole nr)).setCursor nr screenSize).console nr).Laid
        nr := by
      rw [Screen.setCursor, console_setConsole, console_setConsole]
      exact (freshConsole_laid nr).1.withCursor screenSize
    rw [initScreen, if_pos first]
    exact setCursor_laid first (laid_iterate shown screenHigh)
  · rw [initScreen, if_neg first, console_setConsole]
    exact freshConsole_laid nr

lemma console_initScreens (nr : Fin nrConsoles) (s : Screen) :
    ∃ before, (initScreens s).console nr = (initScreen nr before).console nr := by
  unfold initScreens
  by_cases isLast : nr = 2
  · exact ⟨_, by rw [isLast]⟩
  rw [initScreen_of_ne isLast]
  by_cases isMiddle : nr = 1
  · exact ⟨_, by rw [isMiddle]⟩
  have first : nr = 0 := by
    revert nr
    decide
  exact ⟨s, by rw [initScreen_of_ne isMiddle, first]⟩

lemma initScreens_inOwnMemory (s : Screen) : InOwnMemory (initScreens s) := by
  intro nr
  obtain ⟨before, same⟩ := console_initScreens nr s
  rw [same]
  exact initScreen_laid nr before

/-- From the consoles `init_screen` lays out, every call of a sequence returns with all cursors
inside the memories of their consoles, writing nothing but the memory of its own console, exactly
when every tab finds eight more characters in the memory and every window that scrolls up finds
the cursor behind the first line. -/
theorem cursors_confined_iff (fuel : Nat) (memory : Screen) (calls : List ScreenCall)
    (enough : 44 ≤ fuel) :
    ReturnsEach (screenStep fuel) Confined calls (initScreens memory) ↔
      AtEach (screenStep fuel) KeepsCursor calls (initScreens memory) :=
  returnsEach_iff_atEach (fun good => confined_iff_keepsCursor enough good)
    (fun good returned keeps => inOwnMemory_step enough good returned keeps)
    (initScreens_inOwnMemory memory)

def darkScreen : Screen where
  mem := fun _ => 0
  console := fun _ => ⟨0, 0, 0, 0, 0⟩
  outCharNumber := 0

theorem cursors_confined_iff_darkScreen :
    ReturnsEach (screenStep 44) Confined [.outChar 1 0x41, .scrollScreen 1 (-1), .outChar 1 0x09]
        (initScreens darkScreen) ↔
      AtEach (screenStep 44) KeepsCursor [.outChar 1 0x41, .scrollScreen 1 (-1), .outChar 1 0x09]
        (initScreens darkScreen) :=
  cursors_confined_iff 44 darkScreen _ (by decide)

/-- Scrolling the second console down and up again takes its cursor into the memory of the first
one, where the next character is written. -/
theorem not_confined_down_up :
    ¬ ReturnsEach (screenStep 44) Confined [.scrollScreen 1 (-1), .scrollScreen 1 1]
        (initScreens darkScreen) ∧
      (runSteps (screenStep 44) [.scrollScreen 1 (-1), .scrollScreen 1 1, .outChar 1 0x41]
        (initScreens darkScreen)).map (fun done => ((done.2.console 1).originalAddr,
          (done.2.console 1).cursor, done.2.mem (vMemBase + 2 * 5381))) =
        some (5461, 5382, 0x41) := by
  refine ⟨?_, by set_option maxRecDepth 8000 in decide⟩
  rintro ⟨_, _, isDown, -, _, _, isUp, confined, -⟩
  obtain ⟨-, rfl⟩ := Prod.mk.inj (some.inj isDown)
  obtain ⟨-, rfl⟩ := Prod.mk.inj (some.inj isUp)
  exact absurd (confined.1 1).1 (by set_option maxRecDepth 8000 in decide)

def Console.Windowed (con : Console) : Prop :=
  con.originalAddr ≤ con.currentStartAddr ∧ con.currentEndAddr = con.currentStartAddr + screenSize ∧
    con.currentEndAddr ≤ con.originalAddr + con.vMemLimit

def scrollStep (call : Fin nrConsoles × Int) (s : Screen) : Option (Unit × Screen) :=
  some ((), scrollScreen call.1 call.2 s)

def FindsLine (call : Fin nrConsoles × Int) (s : Screen) : Prop :=
  call.2 = scrollScreenDown → (s.console call.1).Above

structure Console.Framed (nr : Fin nrConsoles) (con : Console) : Prop extends con.Laid nr where
  window : con.currentEndAddr = con.currentStartAddr + 2000

def Framed (s : Screen) : Prop := ∀ nr, (s.console nr).Framed nr

section

variable (framed : con.Framed nr)
include framed

lemma Console.Framed.windowed : con.Windowed := by
  obtain ⟨k, _, isStart⟩ := framed.lines
  rw [Console.Windowed, framed.window, framed.limit, isStart]
  exact ⟨Nat.le_add_right _ _, rfl, by omega⟩

lemma Console.Framed.withCursor (cursor : Nat) : Console.Framed nr { con with cursor := cursor } :=
  ⟨framed.toLaid.withCursor cursor, framed.window⟩

lemma Console.Framed.scrollUp : con.scrollUp.Framed nr := by
  refine ⟨framed.toLaid.scrollUp, ?_⟩
  have bound := framed.original_le
  have start := framed.start_le
  have window := framed.window
  unfold Console.scrollUp
  split_ifs with below
  · obtain ⟨k, _, _⟩ := framed.lines
    have isStart : (con.currentStartAddr + (2 ^ 32 - 80)) % 2 ^ 32 =
        con.currentStartAddr - 80 := by omega
    show (con.currentEndAddr + (2 ^ 32 - 80)) % 2 ^ 32 =
      (con.currentStartAddr + (2 ^ 32 - 80)) % 2 ^ 32 + 2000
    rw [isStart]
    omega
  · exact window

lemma Console.Framed.scrollLine (above : con.Above) : con.scrollLine.Framed nr := by
  obtain ⟨laid, moved⟩ := framed.toLaid.scrollLine above
  refine ⟨laid, ?_⟩
  obtain ⟨k, _, _⟩ := framed.lines
  have bound := framed.original_le
  have isEnd : word (con.currentEndAddr + screenWidth) = con.currentStartAddr + 2080 := by
    rw [framed.window]
    exact word_eq (show con.currentStartAddr + 2000 + 80 < 2 ^ 32 by omega)
  rw [framed.above_iff] at above
  rw [moved, Console.scrollLine, isEnd, framed.word_limit, if_neg (by omega)]

lemma Console.Framed.rewind_not_windowed (last : ¬ con.Above) : ¬ con.rewind.Windowed := by
  rintro ⟨-, isEnd, -⟩
  have bound := framed.original_le
  have start := framed.start_le
  have window := framed.window
  rw [framed.above_iff] at last
  have wrapped : (con.currentEndAddr + (con.originalAddr + 2000)) % 2 ^ 32 =
      con.originalAddr + 2000 := isEnd
  omega

end

lemma framed_scrollScreen {call : Fin nrConsoles × Int} (framed : Framed s)
    (finds : FindsLine call s) : Framed (scrollScreen call.1 call.2 s) := by
  intro nr
  by_cases apart : nr = call.1
  · subst apart
    unfold scrollScreen
    split_ifs with up down above
    · rw [console_setConsole]
      exact (framed _).scrollUp
    · rw [console_setConsole]
      exact (framed _).scrollLine above
    · exact absurd (finds down) above
    · exact framed _
  · rw [console_scrollScreen_of_ne apart]
    exact framed nr

lemma framed_scrollStep {call : Fin nrConsoles × Int} {res : Unit} (framed : Framed s)
    (ran : scrollStep call s = some (res, after)) (finds : FindsLine call s) : Framed after := by
  cases ran
  exact framed_scrollScreen framed finds

lemma windowed_scrollScreen_iff {call : Fin nrConsoles × Int} (framed : Framed s) :
    (∃ res after, scrollStep call s = some (res, after) ∧
      ∀ nr, (after.console nr).Windowed) ↔ FindsLine call s := by
  constructor
  · rintro ⟨res, after, ran, windowed⟩ down
    cases ran
    by_contra last
    have rewound := windowed call.1
    rw [down, scrollScreen, if_neg (by decide), if_pos rfl, if_neg last,
      console_setConsole] at rewound
    exact (framed _).rewind_not_windowed last rewound
  · intro finds
    exact ⟨(), _, rfl, fun nr => (framed_scrollScreen framed finds nr).windowed⟩

lemma framed_iterate (framed : (s.console nr).Framed nr)
    (isTop : (s.console nr).currentStartAddr = (s.console nr).originalAddr) {n : Nat}
    (few : n ≤ 43) :
    (((scrollScreen nr scrollScreenDown)^[n] s).console nr).Framed nr ∧
      (((scrollScreen nr scrollScreenDown)^[n] s).console nr).currentStartAddr =
        nr * 5461 + 80 * n := by
  induction n with
  | zero => exact ⟨framed, (isTop.trans framed.original).trans (Nat.add_zero _).symm⟩
  | succ n ih =>
    obtain ⟨now, isStart⟩ := ih (by omega)
    have above : (((scrollScreen nr scrollScreenDown)^[n] s).console nr).Above := by
      rw [now.above_iff, isStart, now.original]
      omega
    rw [iterate_succ_apply', scrollScreen, if_neg (by decide), if_pos rfl, if_pos above,
      console_setConsole]
    refine ⟨now.scrollLine above, ?_⟩
    rw [(now.toLaid.scrollLine above).2, isStart]
    omega

lemma initScreens_framed (s : Screen) : Framed (initScreens s) := by
  intro nr
  have fresh : (freshConsole nr).Framed nr := ⟨(freshConsole_laid nr).1, rfl⟩
  obtain ⟨before, same⟩ := console_initScreens nr s
  rw [same]
  by_cases first : nr.val = 0
  · have isShown : ((before.setConsole nr (freshConsole nr)).setCursor nr screenSize).console nr =
        { freshConsole nr with cursor := screenSize } := by
      rw [Screen.setCursor, console_setConsole, console_setConsole]
    have scrolled := framed_iterate (isShown ▸ fresh.withCursor screenSize)
      (congrArg (fun con => con.currentStartAddr) isShown |>.trans
        (congrArg Console.originalAddr isShown).symm) (show screenHigh ≤ 43 by decide)
    rw [initScreen, if_pos first, Screen.setCursor, console_setConsole]
    exact scrolled.1.withCursor screenSize
  · rw [initScreen, if_neg first, console_setConsole]
    exact fresh

/-- The windows are well formed when the consoles are laid out, and after every call of a sequence
of `scroll_screen` exactly when every scroll down finds a line below the window. -/
theorem windows_formed_iff (memory : Screen) (calls : List (Fin nrConsoles × Int)) :
    (∀ nr, ((initScreens memory).console nr).Windowed) ∧
      (ReturnsEach scrollStep (fun _ _ _ after => ∀ nr, (after.console nr).Windowed) calls
          (initScreens memory) ↔
        AtEach scrollStep FindsLine calls (initScreens memory)) := by
  have framed := initScreens_framed memory
  refine ⟨fun nr => (framed nr).windowed, ?_⟩
  exact returnsEach_iff_atEach (fun framed => windowed_scrollScreen_iff framed)
    (fun framed ran finds => framed_scrollStep framed ran finds) framed

/-- The first console, scrolled down to its last line and once more. -/
theorem not_windowed_behind_last_line :
    (runSteps scrollStep (List.replicate 19 (0, scrollScreenDown)) (initScreens darkScreen)).map
        (fun done => ((done.2.console 0).currentStartAddr, (done.2.console 0).currentEndAddr,
          (done.2.console 0).originalAddr + (done.2.console 0).vMemLimit)) =
      some (0, 7440, 5440) := by
  set_option maxRecDepth 20000 in decide

def AllLaid (s : Screen) : Prop := ∀ nr, (s.console nr).Laid nr ∧ (s.console nr).cursor < 2 ^ 32

def StaysInMemory (nr : Fin nrConsoles) (ch : BitVec 8) (s : Screen) : Prop :=
  let cursor := (s.console nr).cursor
  let limit := (s.console nr).originalAddr + (s.console nr).vMemLimit
  if ch = 0x0A then True
  else if ch = 0x08 then cursor < limit ∨ cursor = limit ∧ 0 < s.outCharNumber
  else if ch = 0x09 then word (cursor + 8) < limit
  else cursor < limit

lemma cursor_setCursor (cursor : Nat) : ((s.setCursor nr cursor).console nr).cursor = cursor := by
  rw [Screen.setCursor, console_setConsole]

lemma word_lt (n : Nat) : word n < 2 ^ 32 := Nat.mod_lt _ (by decide)

lemma wordSub_lt (a b : Nat) : wordSub a b < 2 ^ 32 := Nat.mod_lt _ (by decide)

section

variable (laid : AllLaid s)
include laid

lemma allLaid_setCursor {cursor : Nat} (fits : cursor < 2 ^ 32) :
    AllLaid (s.setCursor nr cursor) := by
  intro other
  by_cases apart : other = nr
  · subst apart
    rw [Screen.setCursor, console_setConsole]
    exact ⟨(laid other).1.withCursor cursor, fits⟩
  · rw [Screen.setCursor, console_setConsole_of_ne apart]
    exact laid other

lemma allLaid_scrollScreen (dir : Int) : AllLaid (scrollScreen nr dir s) := by
  intro other
  by_cases apart : other = nr
  · subst apart
    refine ⟨laid_scrollScreen (laid other).1 dir, ?_⟩
    unfold scrollScreen
    split_ifs
    · rw [console_setConsole, Console.scrollUp]
      split_ifs
      · exact wordSub_lt _ _
      · exact (laid other).2
    · rw [console_setConsole]
      exact (laid other).2
    · rw [console_setConsole]
      exact (laid other).2
    · exact (laid other).2
  · rw [console_scrollScreen_of_ne apart]
    exact laid other

lemma allLaid_outCharSwitch (nr : Fin nrConsoles) (ch : BitVec 8) :
    AllLaid (outCharSwitch nr ch s) := by
  have bound := (laid nr).1.original_le
  unfold outCharSwitch
  dsimp only
  split_ifs
  · exact allLaid_setCursor laid (word_lt _)
  · exact allLaid_setCursor (allLaid_scrollScreen laid scrollScreenDown) (by omega)
  · exact allLaid_setCursor laid (wordSub_lt _ _)
  · exact laid
  · exact allLaid_setCursor laid (word_lt _)
  · exact allLaid_setCursor laid (word_lt _)
  · exact laid

lemma allLaid_scrollToCursor (ran : scrollToCursor nr fuel s = some after) : AllLaid after := by
  induction fuel generalizing s with
  | zero => cases ran
  | succ fuel ih =>
    rw [scrollToCursor] at ran
    split_ifs at ran
    · exact ih (allLaid_scrollScreen laid scrollScreenDown) ran
    · cases ran
      exact laid

lemma allLaid_run {calls : List ScreenCall} {results : List Unit}
    (ran : runSteps (screenStep fuel) calls s = some (results, after)) : AllLaid after := by
  induction calls generalizing s results with
  | nil =>
    cases ran
    exact laid
  | cons call rest ih =>
    obtain ⟨_, t, _, isStep, isRest, -⟩ := runSteps_cons ran
    refine ih ?_ isRest
    cases call with
    | outChar nr ch =>
      obtain ⟨_, isDone, same⟩ := map_eq_some_iff.mp isStep
      cases same
      exact allLaid_scrollToCursor (allLaid_outCharSwitch laid nr ch) isDone
    | scrollScreen nr dir =>
      cases isStep
      exact allLaid_scrollScreen laid dir

end

lemma newline_lt {cursor orig : Nat} (bound : orig ≤ 10922) (below : cursor < orig + 5360) :
    word (orig + 80 * (wordSub cursor orig / 80 + 1)) < orig + 5440 := by
  unfold word wordSub
  -- a cursor below the memory counts its line modulo the word, and the sum wraps back
  by_cases inside : orig ≤ cursor
  · have isDistance : (cursor + (2 ^ 32 - orig)) % 2 ^ 32 = cursor - orig := by omega
    rw [isDistance]
    omega
  have isDistance : (cursor + (2 ^ 32 - orig)) % 2 ^ 32 = cursor + (2 ^ 32 - orig) := by
    omega
  rw [isDistance]
  omega

lemma cursor_outCharSwitch_lt_iff {ch : BitVec 8} (laid : AllLaid s) :
    ((outCharSwitch nr ch s).console nr).cursor < (s.console nr).originalAddr + 5440 ↔
      StaysInMemory nr ch s := by
  obtain ⟨laid, fits⟩ := laid nr
  have bound := laid.original_le
  have isLine : wordSub ((s.console nr).originalAddr + 5440) screenWidth =
      (s.console nr).originalAddr + 5360 :=
    wordSub_eq (show 80 ≤ _ by omega) (by omega)
  have isLast : wordSub ((s.console nr).originalAddr + 5440) 1 =
      (s.console nr).originalAddr + 5439 :=
    wordSub_eq (by omega) (by omega)
  unfold outCharSwitch StaysInMemory
  dsimp only
  rw [laid.word_limit, laid.limit, isLine, isLast]
  split_ifs with _ room _ room _ room
  · refine iff_of_true ?_ trivial
    show ((s.setCursor nr _).console nr).cursor < _
    rw [cursor_setCursor]
    exact newline_lt bound room
  · refine iff_of_true ?_ trivial
    show (((scrollScreen nr scrollScreenDown s).setCursor nr _).console nr).cursor < _
    rw [cursor_setCursor]
    omega
  · show ((s.setCursor nr _).console nr).cursor < _ ↔ _
    rw [cursor_setCursor, wordSub]
    omega
  · omega
  · show ((s.setCursor nr _).console nr).cursor < _ ↔ _
    rw [cursor_setCursor]
  · show ((s.setCursor nr _).console nr).cursor < _ ↔ _
    rw [cursor_setCursor, word_eq (by omega)]
    omega
  · exact Iff.rfl

lemma outChar_stays {ch : BitVec 8} (laid : AllLaid s) (stays : StaysInMemory nr ch s) :
    ∃ after, outChar ((s.console nr).vMemLimit / screenWidth + 2) nr ch s = some after := by
  have below := (cursor_outCharSwitch_lt_iff laid).mpr stays
  have laidNow := (allLaid_outCharSwitch laid nr ch nr).1
  obtain ⟨k, -, isStart⟩ := laidNow.lines
  have sameOriginal := laidNow.original.trans (laid nr).1.original.symm
  obtain ⟨after, ran, -⟩ := @scrollToCursor_returns (outCharSwitch nr ch s) nr 69 laidNow
    (by rwa [laidNow.limit, sameOriginal]) (by omega)
  rw [(laid nr).1.limit]
  exact ⟨after, ran⟩

lemma outChar_leaves {ch : BitVec 8} (laid : AllLaid s) (leaves : ¬ StaysInMemory nr ch s) :
    outChar fuel nr ch s = none := by
  have laidNow := (allLaid_outCharSwitch laid nr ch nr).1
  apply scrollToCursor_loops laidNow
  rw [laidNow.original, ← (laid nr).1.original]
  exact Nat.le_of_not_lt (mt (cursor_outCharSwitch_lt_iff laid).mp leaves)

lemma allLaid_initScreens (memory : Screen) : AllLaid (initScreens memory) := by
  intro nr
  obtain ⟨laid, inside⟩ := initScreens_inOwnMemory memory nr
  have bound := laid.original_le
  have below := inside.2
  rw [laid.limit] at below
  exact ⟨laid, by omega⟩

/-- After every sequence of calls that returned, `out_char` returns within the rounds of
`v_mem_limit / SCREEN_WIDTH + 1` scrolls exactly when the cursor it leaves is below the end of the
memory of its console, and otherwise it never returns. -/
theorem outChar_terminates_iff (fuel : Nat) (memory s : Screen) (calls : List ScreenCall)
    (results : List Unit) (nr : Fin nrConsoles) (ch : BitVec 8)
    (ran : runSteps (screenStep fuel) calls (initScreens memory) = some (results, s)) :
    ((∃ after, outChar ((s.console nr).vMemLimit / screenWidth + 2) nr ch s = some after) ↔
        StaysInMemory nr ch s) ∧
      (¬ StaysInMemory nr ch s → ∀ rounds, outChar rounds nr ch s = none) := by
  have laid : AllLaid s := allLaid_run (allLaid_initScreens memory) ran
  refine ⟨⟨?_, outChar_stays laid⟩, fun leaves _ => outChar_leaves laid leaves⟩
  rintro ⟨after, returned⟩
  by_contra leaves
  rw [outChar_leaves laid leaves] at returned
  cases returned

/-- After a character on the second console and two scrolls. -/
theorem outChar_terminates_iff_threeCalls :
    ∃ results s, runSteps (screenStep 2) [.outChar 1 0x41, .scrollScreen 1 1, .scrollScreen 1 (-1)]
        (initScreens darkScreen) = some (results, s) ∧
      ((∃ after, outChar ((s.console 1).vMemLimit / screenWidth + 2) 1 0x41 s = some after) ↔
        StaysInMemory 1 0x41 s) ∧
      (¬ StaysInMemory 1 0x41 s → ∀ rounds, outChar rounds 1 0x41 s = none) := by
  obtain ⟨⟨results, s⟩, ran⟩ : ∃ done, runSteps (screenStep 2)
      [.outChar 1 0x41, .scrollScreen 1 1, .scrollScreen 1 (-1)] (initScreens darkScreen) =
        some done := by
    set_option maxRecDepth 20000 in exact ⟨_, rfl⟩
  exact ⟨results, s, ran, outChar_terminates_iff 2 darkScreen s _ results 1 0x41 ran⟩

def scrolledOut (nr : Fin nrConsoles) : List ScreenCall :=
  List.replicate 25 (.scrollScreen nr 1) ++ [.scrollScreen nr (-1), .scrollScreen nr 1]

/-- The first console, scrolled up to its first line, down and up again: its cursor is below 0. -/
theorem outChar_loops_scrolledOut :
    ∃ results s, runSteps (screenStep 1) (scrolledOut 0) (initScreens darkScreen) =
      some (results, s) ∧ (s.console 0).cursor = 2 ^ 32 - 80 ∧
      ∀ rounds, outChar rounds 0 0x41 s = none := by
  obtain ⟨⟨results, s⟩, ran⟩ : ∃ done,
      runSteps (screenStep 1) (scrolledOut 0) (initScreens darkScreen) = some done := ⟨_, rfl⟩
  have isCursor : (runSteps (screenStep 1) (scrolledOut 0) (initScreens darkScreen)).map
      (fun done => (done.2.console 0).cursor) = some (2 ^ 32 - 80) := by
    set_option maxRecDepth 20000 in decide
  rw [ran] at isCursor
  have isLast : (s.console 0).cursor = 2 ^ 32 - 80 := some.inj isCursor
  have laid := allLaid_run (allLaid_initScreens darkScreen) ran
  refine ⟨results, s, ran, isLast, fun rounds => outChar_leaves laid ?_⟩
  intro stays
  have bound := (laid 0).1.original_le
  have below : (s.console 0).cursor < (s.console 0).originalAddr + (s.console 0).vMemLimit := stays
  rw [isLast, (laid 0).1.limit] at below
  omega

end PrettyOS.Kernel
