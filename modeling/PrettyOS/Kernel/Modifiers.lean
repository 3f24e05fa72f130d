import PrettyOS.Kernel.Keyboard

/-!
Contract: what `keyboard_read` makes of the modifier keys.

No byte read as a `char` equals `0xE0`, so `keyboard_read` takes the first byte of a right key
for the release of a key that does not exist, and the second one for the left key.
-/

namespace PrettyOS.Kernel

open Library List

inductive ModifierKey where
  | shiftL
  | shiftR
  | ctrlL
  | ctrlR
  | altL
  | altR
deriving DecidableEq, Repr

structure KeyEvent where
  key : ModifierKey
  make : Bool
deriving DecidableEq, Repr

def ModifierKey.code : ModifierKey → BitVec 8
  | .shiftL => 0x2A
  | .shiftR => 0x36
  | .ctrlL | .ctrlR => 0x1D
  | .altL | .altR => 0x38

def ModifierKey.behindE0 : ModifierKey → Bool
  | .ctrlR | .altR => true
  | _ => false

def KeyEvent.bytes (event : KeyEvent) : List (BitVec 8) :=
  (if event.key.behindE0 then [0xE0] else []) ++
    [if event.make then event.key.code else event.key.code ||| 0x80]

structure Modifiers where
  shiftL : Bool
  shiftR : Bool
  ctrlL : Bool
  ctrlR : Bool
  altL : Bool
  altR : Bool
deriving DecidableEq, Repr

def Keyboard.modifiers (k : Keyboard) : Modifiers where
  shiftL := k.shiftL
  shiftR := k.shiftR
  ctrlL := k.ctrlL
  ctrlR := k.ctrlR
  altL := k.altL
  altR := k.altR

def Modifiers.none : Modifiers := ⟨false, false, false, false, false, false⟩

def modifierBytes : List (BitVec 8) := [0xE0, 0x2A, 0xAA, 0x36, 0xB6, 0x1D, 0x9D, 0x38, 0xB8]

def heard (scanCode : BitVec 8) (m : Modifiers) : Modifiers :=
  let make := !scanCode.msb
  if scanCode.toNat % 0x80 = 0x2A then { m with shiftL := make }
  else if scanCode.toNat % 0x80 = 0x36 then { m with shiftR := make }
  else if scanCode.toNat % 0x80 = 0x1D then { m with ctrlL := make }
  else if scanCode.toNat % 0x80 = 0x38 then { m with altL := make }
  else m

variable {k : Keyboard} {scanCode : BitVec 8} {m : Modifiers} {event : KeyEvent}
  {events : List KeyEvent}

lemma keyIn_columnFor {keyrow : Nat × Nat × Nat} (same : keyrow.2.1 = keyrow.1)
    (plain : k.codeWithE0 = false) : keyIn keyrow (columnFor keyrow k) = keyrow.1 := by
  unfold columnFor
  dsimp only
  rw [plain, if_neg Bool.false_ne_true, apply_ite (keyIn keyrow)]
  exact ite_eq_right_iff.mpr fun _ => same

lemma decode_modifiers (mem : scanCode ∈ modifierBytes) (plain : k.codeWithE0 = false) :
    (decode scanCode k).2.2.modifiers = heard scanCode k.modifiers := by
  have isKey : keyIn (keymap.getD (scanCode.toNat % 0x80) (0, 0, 0))
      (columnFor (keymap.getD (scanCode.toNat % 0x80) (0, 0, 0)) k) =
      (keymap.getD (scanCode.toNat % 0x80) (0, 0, 0)).1 := by
    apply keyIn_columnFor _ plain
    simp only [modifierBytes, mem_cons, not_mem_nil, or_false] at mem
    rcases mem with rfl | rfl | rfl | rfl | rfl | rfl | rfl | rfl | rfl <;> rfl
  rw [decode]
  dsimp only
  rw [isKey]
  simp only [modifierBytes, mem_cons, not_mem_nil, or_false] at mem
  rcases mem with rfl | rfl | rfl | rfl | rfl | rfl | rfl | rfl | rfl <;> rfl

lemma toInt_ne_of_le (scanCode : BitVec 8) {code : Int} (large : 0x80 ≤ code) :
    scanCode.toInt ≠ code := by
  have bound := scanCode.toInt_lt
  omega

lemma fetch_eq (uninitialised : Bool) (notEmpty : 0 < k.kbIn.count) :
    fetch uninitialised k = some (⟨(k.kbIn.take kbInBytes).1, 0, uninitialised⟩,
        { k with codeWithE0 := false, kbIn := (k.kbIn.take kbInBytes).2 }) := by
  rw [fetch, getByteFromKbBuf, if_pos notEmpty]
  dsimp only [Option.bind_some]
  rw [if_neg (toInt_ne_of_le _ (by decide)), if_neg (toInt_ne_of_le _ (by decide))]

lemma kbIn_track (key : Nat) (make : Bool) (k : Keyboard) : (track key make k).kbIn = k.kbIn := by
  simp only [track, apply_ite Keyboard.kbIn, ite_self]

lemma keyboardRead_cons {rest : List (BitVec 8)} (uninitialised : Bool)
    (holds : k.kbIn.Holds kbInBytes (scanCode :: rest)) (mem : scanCode ∈ modifierBytes) :
    ∃ key after, keyboardRead uninitialised k = some (key, after) ∧
      after.kbIn.Holds kbInBytes rest ∧ after.modifiers = heard scanCode k.modifiers := by
  have notEmpty := holds.count_pos_iff.mpr (cons_ne_nil _ _)
  obtain ⟨first, holdsRest⟩ := holds.take
  have isPlain : (0 : Nat) ≠ Key.pausebreak ∧ (0 : Nat) ≠ Key.printscreen := by decide
  rw [keyboardRead, if_pos notEmpty, fetch_eq uninitialised notEmpty, first, Option.map_some]
  refine ⟨_, _, rfl, ?_, ?_⟩
  · rw [if_pos isPlain]
    show RingBuffer.Holds kbInBytes (track _ _ _).kbIn rest
    rw [kbIn_track]
    exact holdsRest
  · rw [if_pos isPlain]
    exact decode_modifiers mem rfl

lemma keyboardRead_nil (uninitialised : Bool) (holds : k.kbIn.Holds kbInBytes []) :
    keyboardRead uninitialised k = some (none, k) := by
  rw [keyboardRead, if_neg]
  simp [holds.count_pos_iff]

def keyboardStep (uninitialised : Bool) :
    QueueOp (BitVec 8) → Keyboard → Option (Option Nat × Keyboard)
  | .put scanCode, k => some (none, keyboardHandler scanCode k)
  | .take, k => keyboardRead uninitialised k

lemma runKeyboard {ops : List (QueueOp (BitVec 8))} {stored : List (BitVec 8)}
    (uninitialised : Bool) (holds : k.kbIn.Holds kbInBytes stored)
    (known : ∀ scanCode ∈ stored ++ accepted kbInBytes ops stored.length,
      scanCode ∈ modifierBytes) :
    ∃ results last taken left, runSteps (keyboardStep uninitialised) ops k = some (results, last) ∧
      last.kbIn.Holds kbInBytes left ∧
      stored ++ accepted kbInBytes ops stored.length = taken ++ left ∧
      last.modifiers = taken.foldl (fun m scanCode => heard scanCode m) k.modifiers := by
  induction ops generalizing k stored with
  | nil => exact ⟨[], k, [], stored, rfl, holds, append_nil stored, rfl⟩
  | cons op rest ih =>
    cases op with
    | put scanCode =>
      rw [accepted] at known ⊢
      by_cases room : stored.length < kbInBytes
      · rw [if_pos room] at known ⊢
        have holdsNow : (keyboardHandler scanCode k).kbIn.Holds kbInBytes
            (stored ++ [scanCode]) := holds.put room
        have isLength : (stored ++ [scanCode]).length = stored.length + 1 := length_append
        rw [append_cons, ← isLength] at known ⊢
        obtain ⟨results, last, taken, left, isRest, others⟩ := ih holdsNow known
        exact ⟨_, last, taken, left, runSteps_extend rfl isRest, others⟩
      · rw [if_neg room] at known ⊢
        have same : (keyboardHandler scanCode k).kbIn = k.kbIn := holds.put_full room
        obtain ⟨results, last, taken, left, isRest, others⟩ := ih (same ▸ holds) known
        exact ⟨_, last, taken, left, runSteps_extend rfl isRest, others⟩
    | take =>
      cases stored with
      | nil =>
        obtain ⟨results, last, taken, left, isRest, others⟩ := ih holds known
        exact ⟨_, last, taken, left,
          runSteps_extend (keyboardRead_nil uninitialised holds) isRest, others⟩
      | cons scanCode stored =>
        rw [cons_append, forall_mem_cons] at known
        obtain ⟨_, _, isRead, holdsAfter, isHeard⟩ := keyboardRead_cons uninitialised holds known.1
        obtain ⟨results, last, taken, left, isRest, holdsLeft, split, isFold⟩ :=
          ih holdsAfter known.2
        refine ⟨_, last, scanCode :: taken, left, runSteps_extend isRead isRest, holdsLeft, ?_, ?_⟩
        · rw [cons_append, cons_append, accepted, ← split, length_cons, Nat.add_sub_cancel]
        · rw [isFold, isHeard, foldl_cons]

def KeyEvent.seen (event : KeyEvent) (m : Modifiers) : Modifiers :=
  match event.key with
  | .shiftL => { m with shiftL := event.make }
  | .shiftR => { m with shiftR := event.make }
  | .ctrlL | .ctrlR => { m with ctrlL := event.make }
  | .altL | .altR => { m with altL := event.make }

lemma bytes_known (event : KeyEvent) : ∀ scanCode ∈ event.bytes, scanCode ∈ modifierBytes := by
  obtain ⟨key, make⟩ := event
  rw [← all_iff_forall_prop]
  cases key <;> cases make <;> rfl

lemma foldl_bytes (event : KeyEvent) (m : Modifiers) :
    event.bytes.foldl (fun m scanCode => heard scanCode m) m = event.seen m := by
  obtain ⟨key, make⟩ := event
  cases key <;> cases make <;> rfl

lemma foldl_flatMap_bytes (events : List KeyEvent) (m : Modifiers) :
    (events.flatMap KeyEvent.bytes).foldl (fun m scanCode => heard scanCode m) m =
      events.foldl (fun m event => event.seen m) m := by
  induction events generalizing m with
  | nil => rfl
  | cons event rest ih =>
    rw [flatMap_cons, foldl_append, foldl_bytes, ih]
    rfl

def lastMake (keys : ModifierKey → Bool) (events : List KeyEvent) : Bool :=
  ((events.filter fun event => keys event.key).getLast?).any KeyEvent.make

lemma lastMake_append (keys : ModifierKey → Bool) (events : List KeyEvent) (event : KeyEvent) :
    lastMake keys (events ++ [event]) =
      if keys event.key then event.make else lastMake keys events := by
  unfold lastMake
  rw [filter_append, filter_singleton]
  by_cases isKey : keys event.key = true
  · rw [isKey, cond_true, getLast?_concat]
    rfl
  rw [Bool.not_eq_true] at isKey
  rw [isKey, cond_false, append_nil]
  rfl

lemma foldl_seen (events : List KeyEvent) :
    events.foldl (fun m event => event.seen m) Modifiers.none =
      { shiftL := lastMake (· = .shiftL) events
        shiftR := lastMake (· = .shiftR) events
        ctrlL := lastMake (fun key => key = .ctrlL || key = .ctrlR) events
        ctrlR := false
        altL := lastMake (fun key => key = .altL || key = .altR) events
        altR := false } := by
  induction events using List.reverseRecOn with
  | nil => rfl
  | append_singleton events event ih =>
    rw [foldl_append, foldl_cons, foldl_nil, ih]
    simp only [lastMake_append]
    obtain ⟨key, _⟩ := event
    cases key <;> rfl

def Tracks (m : Modifiers) (events : List KeyEvent) : Prop :=
  m.shiftL = lastMake (· = .shiftL) events ∧ m.shiftR = lastMake (· = .shiftR) events ∧
    m.ctrlL = lastMake (· = .ctrlL) events ∧ m.ctrlR = lastMake (· = .ctrlR) events ∧
    m.altL = lastMake (· = .altL) events ∧ m.altR = lastMake (· = .altR) events

def RightKeysSilent (events : List KeyEvent) : Prop :=
  lastMake (· = .ctrlR) events = false ∧ lastMake (· = .altR) events = false ∧
    lastMake (fun key => key = .ctrlL || key = .ctrlR) events = lastMake (· = .ctrlL) events ∧
    lastMake (fun key => key = .altL || key = .altR) events = lastMake (· = .altL) events

/-- In every interleaving of the interrupt with `keyboard_read`, from a keyboard with an empty
buffer and no modifier down: when the codes of the events, and nothing else, have been accepted
and read, the flags track the keys exactly if the right Ctrl and Alt keys made no difference. -/
theorem modifiers_tracked_iff (uninitialised : Bool) (k : Keyboard)
    (ops : List (QueueOp (BitVec 8))) (events : List KeyEvent)
    (empty : k.kbIn.Holds kbInBytes []) (isUp : k.modifiers = Modifiers.none)
    (isCodes : accepted kbInBytes ops 0 = events.flatMap KeyEvent.bytes) :
    ∃ results last, runSteps (keyboardStep uninitialised) ops k = some (results, last) ∧
      (last.kbIn.count = 0 → (Tracks last.modifiers events ↔ RightKeysSilent events)) := by
  have known : ∀ scanCode ∈ [] ++ accepted kbInBytes ops 0, scanCode ∈ modifierBytes := by
    rw [nil_append, isCodes]
    intro scanCode member
    obtain ⟨event, -, inBytes⟩ := mem_flatMap.mp member
    exact bytes_known event scanCode inBytes
  obtain ⟨results, last, _, left, returned, holds, split, isFold⟩ :=
    runKeyboard uninitialised empty known
  refine ⟨results, last, returned, fun allRead => ?_⟩
  have noneLeft : left = [] := by
    rw [holds.count_eq] at allRead
    exact length_eq_zero_iff.mp (Int.natCast_eq_zero.mp allRead)
  rw [nil_append, length_nil, isCodes, noneLeft, append_nil] at split
  rw [isFold, isUp, ← split, foldl_flatMap_bytes, foldl_seen]
  unfold Tracks RightKeysSilent
  dsimp only
  constructor
  · rintro ⟨-, -, ctrlL, ctrlR, altL, altR⟩
    exact ⟨ctrlR.symm, altR.symm, ctrlL, altL⟩
  · rintro ⟨ctrlR, altR, ctrlL, altL⟩
    exact ⟨rfl, rfl, ctrlL, ctrlR.symm, altL, altR.symm⟩

def quietKeyboard : Keyboard :=
  initKeyboard
    ⟨⟨fun _ => 0, 0, 0, 0⟩, false, false, false, false, false, false, false, false, false, false, 0⟩

theorem modifiers_tracked_iff_quietKeyboard :
    ∃ results last,
      runSteps (keyboardStep false) [.put 0x1D, .put 0x2A, .take, .put 0x9D, .take, .take]
        quietKeyboard = some (results, last) ∧
      (last.kbIn.count = 0 →
        (Tracks last.modifiers [⟨.ctrlL, true⟩, ⟨.shiftL, true⟩, ⟨.ctrlL, false⟩] ↔
          RightKeysSilent [⟨.ctrlL, true⟩, ⟨.shiftL, true⟩, ⟨.ctrlL, false⟩])) :=
  modifiers_tracked_iff false quietKeyboard _ _ (initKeyboard_empty _) rfl rfl

/-- The right Ctrl key goes down: its own flag stays clear, and that of the left one is set. -/
theorem not_tracked_ctrlR :
    accepted kbInBytes [.put 0xE0, .put 0x1D, .take, .take] 0 =
        [⟨.ctrlR, true⟩].flatMap KeyEvent.bytes ∧
      (runSteps (keyboardStep false) [.put 0xE0, .put 0x1D, .take, .take] quietKeyboard).map
        (fun done => (done.2.kbIn.count, done.2.modifiers)) =
        some (0, ⟨false, false, true, false, false, false⟩) ∧
      ¬ Tracks ⟨false, false, true, false, false, false⟩ [⟨.ctrlR, true⟩] := by
  refine ⟨rfl, rfl, ?_⟩
  rintro ⟨-, -, -, isSet, -⟩
  exact absurd isSet (by decide)

end PrettyOS.Kernel
