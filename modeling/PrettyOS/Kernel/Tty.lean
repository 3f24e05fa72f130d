import PrettyOS.Kernel.Console
import PrettyOS.Kernel.Keyboard

/-!
Contract: the terminals of `kernel/tty.c` between the keyboard and the consoles.

The terminals have the numbers of their consoles. `none` is a call that does not return: a wait
for a byte that nothing delivers, or the loop of `out_char`.
-/

namespace PrettyOS.Kernel

open Library Function

def ttyInBytes : Nat := 256

structure Terminals where
  inBuf : Fin nrConsoles → RingBuffer (BitVec 32)
  keyboard : Keyboard
  screen : Screen
  nrCurrentConsole : Int

def putKey (nr : Fin nrConsoles) (key : BitVec 32) (s : Terminals) : Terminals :=
  { s with inBuf := update s.inBuf nr ((s.inBuf nr).put ttyInBytes key) }

def charOf (key : BitVec 32) : BitVec 8 := key.setWidth 8

def ttyDoWrite (fuel : Nat) (nr : Fin nrConsoles) (s : Terminals) :
    Option (List (BitVec 8) × Terminals) :=
  if (s.inBuf nr).count ≠ 0 then
    let taken := (s.inBuf nr).take ttyInBytes
    (outChar fuel nr (charOf taken.1) s.screen).map fun screen =>
      ([charOf taken.1], { s with inBuf := update s.inBuf nr taken.2, screen := screen })
  else some ([], s)

def selectConsole (nrConsole : Int) (s : Terminals) : Terminals :=
  if nrConsole < 0 ∨ (nrConsoles : Int) ≤ nrConsole then s
  else { s with nrCurrentConsole := nrConsole }

def inProcess (nr : Fin nrConsoles) (key : Nat) (s : Terminals) : Terminals :=
  if key &&& Key.flagExt = 0 then putKey nr (BitVec.ofNat 32 key) s
  else
    let rawCode := key &&& Key.maskRaw
    let shift := key &&& Key.flagShiftL ≠ 0 ∨ key &&& Key.flagShiftR ≠ 0
    let alt := key &&& Key.flagAltL ≠ 0 ∨ key &&& Key.flagAltR ≠ 0
    if rawCode = Key.enter then putKey nr 0x0A s
    else if rawCode = Key.backspace then putKey nr 0x08 s
    else if rawCode = Key.tab then putKey nr 0x09 s
    else if rawCode = Key.up then
      if shift then { s with screen := scrollScreen nr scrollScreenUp s.screen } else s
    else if rawCode = Key.down then
      if shift then { s with screen := scrollScreen nr scrollScreenDown s.screen } else s
    else if Key.f 1 ≤ rawCode ∧ rawCode ≤ Key.f 12 then
      if alt then selectConsole ((rawCode : Int) - Key.f 1) s else s
    else s

def ttyDoRead (uninitialised : Bool) (nr : Fin nrConsoles) (s : Terminals) : Option Terminals :=
  if (nr.val : Int) = s.nrCurrentConsole then
    (keyboardRead uninitialised s.keyboard).map fun done =>
      let read := { s with keyboard := done.2 }
      match done.1 with
      | some key => inProcess nr key read
      | none => read
  else some s

def initTty (s : Terminals) : Terminals :=
  { s with
    keyboard := initKeyboard s.keyboard
    inBuf := fun nr => { s.inBuf nr with count := 0, head := 0, tail := 0 }
    screen := initScreens s.screen }

def kbStep : QueueOp (BitVec 8) → Keyboard → Option (List (BitVec 8) × Keyboard)
  | .put scanCode, k => some ([], keyboardHandler scanCode k)
  | .take, k => (getByteFromKbBuf k).map fun got => ([got.1], got.2)

def ttyStep (fuel : Nat) (nr : Fin nrConsoles) :
    QueueOp (BitVec 32) → Terminals → Option (List (BitVec 8) × Terminals)
  | .put key, s => some ([], putKey nr key s)
  | .take, s => ttyDoWrite fuel nr s

lemma kbStep_queue : QueueStep kbStep Keyboard.kbIn kbInBytes id where
  put := by
    intro item s res t ran
    cases ran
    exact ⟨rfl, rfl⟩
  takeSome := by
    intro s res t notEmpty ran
    rw [kbStep, getByteFromKbBuf, if_pos notEmpty] at ran
    cases ran
    exact ⟨rfl, rfl⟩
  takeNone := by
    intro s res t empty ran
    rw [kbStep, getByteFromKbBuf, if_neg (by omega)] at ran
    cases ran

lemma ttyStep_queue (fuel : Nat) (nr : Fin nrConsoles) :
    QueueStep (ttyStep fuel nr) (fun s => s.inBuf nr) ttyInBytes charOf where
  put := by
    intro item s res t ran
    cases ran
    exact ⟨rfl, update_self _ _ _⟩
  takeSome := by
    intro s res t notEmpty ran
    rw [ttyStep, ttyDoWrite, if_pos notEmpty.ne'] at ran
    obtain ⟨_, -, same⟩ := Option.map_eq_some_iff.mp ran
    cases same
    exact ⟨rfl, update_self _ _ _⟩
  takeNone := by
    intro s res t empty ran
    rw [ttyStep, ttyDoWrite, if_neg (not_not_intro empty)] at ran
    cases ran
    exact ⟨rfl, rfl⟩

lemma initTty_empty (s : Terminals) (nr : Fin nrConsoles) :
    ((initTty s).inBuf nr).Holds ttyInBytes [] :=
  RingBuffer.holds_nil (by decide : 0 < ttyInBytes) rfl rfl rfl

/-- The input queues are lossless. Whatever order the interrupt and `get_byte_from_kb_buf` come
in, if that is called only on a buffer with a byte in it every call returns, the bytes taken are
the first of those accepted, and the buffer holds the others. The same is true of the keys that
`put_key` and `tty_do_write` put and take on a terminal, in every order in which `out_char`
returns. -/
theorem input_queues_fifo :
    (∀ (k : Keyboard) (ops : List (QueueOp (BitVec 8))), TakesStored kbInBytes ops 0 →
      ∃ results last left, runSteps kbStep ops (initKeyboard k) = some (results, last) ∧
        last.kbIn.Holds kbInBytes left ∧
        accepted kbInBytes ops 0 = results.flatten ++ left) ∧
    (∀ (fuel : Nat) (nr : Fin nrConsoles) (s last : Terminals) (ops : List (QueueOp (BitVec 32)))
      (results : List (List (BitVec 8))),
      runSteps (ttyStep fuel nr) ops (initTty s) = some (results, last) →
      ∃ taken left, results.flatten = taken.map charOf ∧ (last.inBuf nr).Holds ttyInBytes left ∧
        accepted ttyInBytes ops 0 = taken ++ left) := by
  constructor
  · intro k ops found
    obtain ⟨results, last, returned⟩ := runSteps_of_takesStored kbStep_queue
      (fun item s => ⟨_, rfl⟩)
      (fun s notEmpty => ⟨_, by rw [kbStep, getByteFromKbBuf, if_pos notEmpty]; rfl⟩)
      (initKeyboard_empty k) found
    obtain ⟨taken, left, isTaken, holds, split⟩ := kbStep_queue.fifo (initKeyboard_empty k) returned
    rw [List.map_id] at isTaken
    exact ⟨results, last, left, returned, holds, isTaken ▸ split⟩
  · intro fuel nr s last ops results returned
    exact (ttyStep_queue fuel nr).fifo (initTty_empty s nr) returned

def offTerminals : Terminals where
  inBuf := fun _ => ⟨fun _ => 0, 0, 0, 0⟩
  keyboard := ⟨⟨fun _ => 0, 0, 0, 0⟩, false, false, false, false, false, false, false, false, false,
    false, 0⟩
  screen := ⟨fun _ => 0, fun _ => ⟨0, 0, 0, 0, 0⟩, 0⟩
  nrCurrentConsole := 0

theorem input_queues_fifo_offTerminals :
    (∃ results last left, runSteps kbStep [.put 0x1E, .put 0x9E, .take, .put 0x30, .take, .take]
        (initKeyboard offTerminals.keyboard) = some (results, last) ∧
      last.kbIn.Holds kbInBytes left ∧
      accepted kbInBytes [.put 0x1E, .put 0x9E, .take, .put 0x30, .take, .take] 0 =
        results.flatten ++ left) ∧
    ∃ results last taken left,
      runSteps (ttyStep 44 1) [.put 0x261, .take, .take, .put 0x62] (initTty offTerminals) =
        some (results, last) ∧
      results.flatten = taken.map charOf ∧ (last.inBuf 1).Holds ttyInBytes left ∧
      accepted ttyInBytes [.put 0x261, .take, .take, .put 0x62] 0 = taken ++ left := by
  refine ⟨input_queues_fifo.1 _ _ (by simp [TakesStored, kbInBytes]), ?_⟩
  have returns : (runSteps (ttyStep 44 1) [.put 0x261, .take, .take, .put 0x62]
      (initTty offTerminals)).isSome = true := by decide
  obtain ⟨⟨results, last⟩, returned⟩ := Option.isSome_iff_exists.mp returns
  exact ⟨results, last, (input_queues_fifo.2 44 1 offTerminals last _ results returned).imp
    fun taken others => others.imp fun left facts => ⟨returned, facts⟩⟩

end PrettyOS.Kernel
