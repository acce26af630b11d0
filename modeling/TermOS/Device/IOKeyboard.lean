import TermOS.Lib.RingBuffer
import TermOS.Lib.Run
import TermOS.OS.Processor

/-!
# The keyboard

Model of `kernel/src/IO/IOKeyboard.c`. The interrupt handler puts characters into a
ring buffer and any number of tasks take them out. A task inside its critical
section has interrupts disabled, and the machine has one processor, so that nothing
else runs until it unlocks; between critical sections tasks and interrupts come in
any order.

## Main Definitions

* `interruptsHandler` - one interrupt
* `KeyboardSystem.step` - one interrupt, or one statement of a task
* `typed` - the characters that a sequence of scancodes stands for
-/

namespace TermOS.Device

open TermOS.Lib TermOS.OS

/-! ## Section 1: The maps -/

/-- `sIOKeyboardMap` -/
def sIOKeyboardMap : List UInt8 :=
  (['\x00', '\x1b', '1', '2', '3', '4', '5', '6', '7', '8', '9', '0', '-', '=', '\x08', '\t'] ++
    ['q', 'w', 'e', 'r', 't', 'y', 'u', 'i', 'o', 'p', '[', ']', '\n'] ++
    -- Control
    ['\x00', 'a', 's', 'd', 'f', 'g', 'h', 'j', 'k', 'l', ';', '\x27', '\x60'] ++
    -- Left shift
    ['\x00', '\x5c', 'z', 'x', 'c', 'v', 'b', 'n', 'm', ',', '.', '/'] ++
    -- Right shift, `*`, Alt, the space bar and Caps lock
    ['\x00', '*', '\x00', ' ', '\x00'] ++
    -- F1 to F10, Num lock, Scroll lock, Home, Up and Page up
    List.replicate 15 '\x00' ++ ['-', '\x00', '\x00', '\x00', '+'] ++
    -- End and all that follow
    List.replicate 49 '\x00').map Char.toUInt8

/-- `sIOKeyboardMapShifted` -/
def sIOKeyboardMapShifted : List UInt8 :=
  (['\x00', '\x1b', '!', '@', '#', '$', '%', '^', '&', '*', '(', ')', '_', '+', '\x08', '\t'] ++
    ['Q', 'W', 'E', 'R', 'T', 'Y', 'U', 'I', 'O', 'P', '\x7b', '\x7d', '\n'] ++
    -- Control
    ['\x00', 'A', 'S', 'D', 'F', 'G', 'H', 'J', 'K', 'L', ':', '\x22', '~'] ++
    -- Left shift
    ['\x00', '|', 'Z', 'X', 'C', 'V', 'B', 'N', 'M', '<', '>', '?'] ++
    -- Right shift, `*`, Alt, the space bar and Caps lock
    ['\x00', '*', '\x00', ' ', '\x00'] ++
    -- F1 to F10, Num lock, Scroll lock, Home, Up and Page up
    List.replicate 15 '\x00' ++ ['-', '\x00', '\x00', '\x00', '+'] ++
    -- End and all that follow
    List.replicate 49 '\x00').map Char.toUInt8

/-- `keyMap[scancode]` for the map that is in force. -/
def keyMap (isShiftPressed : Bool) (scancode : UInt8) : UInt8 :=
  (if isShiftPressed then sIOKeyboardMapShifted else sIOKeyboardMap).getD scancode.toNat 0

/-- Both maps have an entry for each make code. -/
theorem keyMap_length : sIOKeyboardMap.length = 128 ∧ sIOKeyboardMapShifted.length = 128 :=
  ⟨rfl, rfl⟩

/-- The shift key has no character. -/
theorem keyMap_shift (isShiftPressed : Bool) : keyMap isShiftPressed 0x2A = 0 := by
  cases isShiftPressed <;> decide

/-! ## Section 2: Interrupts -/

/-- `IOKeyboardController`, without the lock, and `sIOKeyboardIsShiftPressed`. -/
structure IOKeyboardController where
  buffer : RingBuffer UInt8 kIOKeyboardBufferSize
  isShiftPressed : Bool

/-- `gIOKeyboardController` and `sIOKeyboardIsShiftPressed` after boot. -/
def IOKeyboardController.zero : IOKeyboardController where
  buffer := ⟨fun _ => 0, 0, 0, by decide, by decide⟩
  isShiftPressed := false

/-- `IOKeyboardInterruptsHandler`, when the port has `scancode`. -/
def IOKeyboardController.interruptsHandler (k : IOKeyboardController) (scancode : UInt8) :
    IOKeyboardController :=
  let nextHead := RingBuffer.advance kIOKeyboardBufferSize k.buffer.head
  if scancode < 0x80 then
    let ascii := keyMap k.isShiftPressed scancode
    if ascii ≠ 0 ∧ nextHead ≠ k.buffer.tail then { k with buffer := k.buffer.put ascii }
    -- left shift goes down
    else if scancode = 0x2A then { k with isShiftPressed := true }
    else k
  else if scancode = 0xAA then { k with isShiftPressed := false }
  else k

/-! ## Section 3: Tasks -/

/-- Where a task is in `IOKeyboardGetCharacter`. -/
inductive GetCharacterPoint
  /-- Before `OSSpinlockLockIRQ` -/
  | outside
  /-- Before the test `head != tail` -/
  | locked
  /-- Before `tail` is moved; `ascii` has been read. -/
  | read (ascii : UInt8)
  /-- Before `OSSpinlockUnlockIRQ` and `return ascii` -/
  | moved (ascii : UInt8)
  /-- Before `OSSpinlockUnlockIRQ`, `sti` and `OSSchedulerYield` -/
  | foundEmpty
  /-- The call has returned. -/
  | returned (ascii : UInt8)
  deriving DecidableEq

/-- Between `OSSpinlockLockIRQ` and `OSSpinlockUnlockIRQ`. -/
def GetCharacterPoint.inside : GetCharacterPoint → Bool
  | .outside | .returned _ => false
  | .locked | .read _ | .moved _ | .foundEmpty => true

/-- A scancode, and how many characters were buffered when it came. -/
structure Arrival where
  scancode : UInt8
  buffered : Nat

/-- The keyboard and the tasks that use it. The last two fields record what has
happened; the code does not see them. -/
structure KeyboardSystem where
  controller : IOKeyboardController
  /-- The task between `OSSpinlockLockIRQ` and `OSSpinlockUnlockIRQ`. -/
  holder : Option Nat
  point : Nat → GetCharacterPoint
  arrivals : List Arrival
  /-- What the calls have taken out of the buffer, in order. -/
  delivered : List UInt8

/-- Either the keyboard interrupts, or a task executes its next statement. -/
inductive KeyboardEvent
  | interrupt (scancode : UInt8)
  | run (task : Nat)

namespace KeyboardSystem

/-- The keyboard after boot, with the tasks before their first calls. -/
def boot : KeyboardSystem where
  controller := .zero
  holder := none
  point := fun _ => .outside
  arrivals := []
  delivered := []

variable (s : KeyboardSystem)

/-- A task goes on to another statement. -/
def goto (task : Nat) (point : GetCharacterPoint) : KeyboardSystem :=
  { s with point := Function.update s.point task point }

/-- Interrupts are enabled, and other tasks run, unless a task is in its critical section. -/
def Possible : KeyboardEvent → Prop
  | .interrupt _ => s.holder = none
  | .run task => s.holder = none ∨ s.holder = some task

/-- The next statement of a task. -/
def runTask (task : Nat) : KeyboardSystem :=
  match s.point task with
  | .outside => { s.goto task .locked with holder := some task }
  | .locked =>
    if s.controller.buffer.head ≠ s.controller.buffer.tail then
      s.goto task (.read (s.controller.buffer.cells s.controller.buffer.tail))
    else s.goto task .foundEmpty
  | .read ascii =>
    { s.goto task (.moved ascii) with
      controller := { s.controller with buffer := s.controller.buffer.drop }
      delivered := s.delivered ++ [ascii] }
  | .moved ascii => { s.goto task (.returned ascii) with holder := none }
  | .foundEmpty => { s.goto task .outside with holder := none }
  | .returned _ => s.goto task .outside

def step : KeyboardEvent → KeyboardSystem
  | .interrupt scancode =>
    { s with
      controller := s.controller.interruptsHandler scancode
      arrivals := s.arrivals ++ [⟨scancode, s.controller.buffer.count⟩] }
  | .run task => s.runTask task

/-- The characters that are buffered, in order. -/
def buffered : List UInt8 := s.controller.buffer.contents

end KeyboardSystem

/-! ## Section 4: What was typed -/

/-- The last shift code was the one of the key going down. -/
def shiftHeld (codes : List UInt8) : Bool :=
  (codes.filter fun code => code = 0x2A || code = 0xAA).getLast? = some 0x2A

/-- The character of a scancode that came after `codes`: of a make code with an
entry in the map in force, while there was room. -/
def Arrival.character (codes : List UInt8) (arrival : Arrival) : Option UInt8 :=
  if arrival.scancode < 0x80 ∧ keyMap (shiftHeld codes) arrival.scancode ≠ 0 ∧ arrival.buffered < 255 then
    some (keyMap (shiftHeld codes) arrival.scancode)
  else none

/-- The characters of scancodes that came after `codes`. -/
def typed (codes : List UInt8) : List Arrival → List UInt8
  | [] => []
  | arrival :: arrivals =>
    (arrival.character codes).toList ++ typed (codes ++ [arrival.scancode]) arrivals

theorem typed_concat (codes : List UInt8) (arrivals : List Arrival) (arrival : Arrival) :
    typed codes (arrivals ++ [arrival]) =
      typed codes arrivals ++ (arrival.character (codes ++ arrivals.map Arrival.scancode)).toList := by
  induction arrivals generalizing codes with
  | nil => simp [typed]
  | cons first arrivals ih =>
    rw [List.cons_append, typed, ih, typed, List.map_cons, List.append_assoc, List.append_assoc,
      List.singleton_append]

theorem shiftHeld_concat (codes : List UInt8) (code : UInt8) :
    shiftHeld (codes ++ [code]) =
      if code = 0x2A then true else if code = 0xAA then false else shiftHeld codes := by
  unfold shiftHeld
  rw [List.filter_append]
  split
  · next h => simp [h]
  split
  · next h => simp [h]
  · next h₁ h₂ => simp [h₁, h₂]

/-! ## Section 5: The buffer is a lossless queue -/

namespace KeyboardSystem

variable {s : KeyboardSystem}

/-- What holds between two events. -/
structure Lossless (s : KeyboardSystem) : Prop where
  shift_eq : s.controller.isShiftPressed = shiftHeld (s.arrivals.map Arrival.scancode)
  queue_eq : s.delivered ++ s.buffered = typed [] s.arrivals
  inside_holds : ∀ task, (s.point task).inside = true → s.holder = some task
  /-- The character that a task has read is still the first one. -/
  read_first : ∀ task ascii, s.point task = .read ascii →
    s.controller.buffer.head ≠ s.controller.buffer.tail ∧
      s.controller.buffer.cells s.controller.buffer.tail = ascii

theorem lossless_boot : boot.Lossless where
  shift_eq := rfl
  queue_eq := rfl
  inside_holds := fun _ h => by cases h
  read_first := fun _ _ h => by cases h

/-- While a task may run, no other one is in its critical section. -/
theorem Lossless.outside_of_ne (h : s.Lossless) {task other : Nat}
    (hturn : s.holder = none ∨ s.holder = some task) (hne : other ≠ task) :
    (s.point other).inside = false := by
  by_contra hinside
  have hholder := h.inside_holds other (Bool.eq_true_of_not_eq_false hinside)
  rcases hturn with hnone | hsome
  · rw [hnone] at hholder
    cases hholder
  · rw [hsome] at hholder
    exact hne (Option.some.inj hholder).symm

/-- A task's statement keeps `inside_holds` when it is right about the task itself. -/
theorem Lossless.inside_update (h : s.Lossless) {task : Nat}
    (hturn : s.holder = none ∨ s.holder = some task) {point : GetCharacterPoint}
    {holder : Option Nat} (hinside : point.inside = true → holder = some task) (other : Nat) :
    (Function.update s.point task point other).inside = true → holder = some other := by
  by_cases hsame : other = task
  · rw [hsame, Function.update_self]
    exact hinside
  · rw [Function.update_of_ne hsame, h.outside_of_ne hturn hsame]
    exact fun hfalse => by cases hfalse

/-- A task's statement that reads nothing keeps `read_first`, whatever it does to the buffer. -/
theorem Lossless.read_update (h : s.Lossless) {task : Nat}
    (hturn : s.holder = none ∨ s.holder = some task) {point : GetCharacterPoint}
    (hpoint : ∀ ascii, point ≠ .read ascii) {P : UInt8 → Prop} (other : Nat) (ascii : UInt8) :
    Function.update s.point task point other = .read ascii → P ascii := by
  by_cases hsame : other = task
  · rw [hsame, Function.update_self]
    exact fun heq => absurd heq (hpoint ascii)
  · rw [Function.update_of_ne hsame]
    intro heq
    have hinside := h.outside_of_ne hturn hsame
    rw [heq] at hinside
    cases hinside

/-- The full test of the code leaves one cell unused. -/
theorem nextHead_eq_tail_iff (k : IOKeyboardController) :
    RingBuffer.advance kIOKeyboardBufferSize k.buffer.head = k.buffer.tail ↔ ¬ k.buffer.count < 255 := by
  have hcount := k.buffer.count_lt
  rw [RingBuffer.full_iff]
  unfold kIOKeyboardBufferSize at hcount ⊢
  omega

theorem interruptsHandler_contents (k : IOKeyboardController) (scancode : UInt8) {codes : List UInt8}
    (hshift : k.isShiftPressed = shiftHeld codes) :
    (k.interruptsHandler scancode).buffer.contents =
      k.buffer.contents ++ (Arrival.character codes ⟨scancode, k.buffer.count⟩).toList := by
  have hfull := nextHead_eq_tail_iff k
  unfold IOKeyboardController.interruptsHandler Arrival.character
  rw [hshift]
  by_cases hmake : scancode < 0x80
  · by_cases hput : keyMap (shiftHeld codes) scancode ≠ 0 ∧
        RingBuffer.advance kIOKeyboardBufferSize k.buffer.head ≠ k.buffer.tail
    · have hroom : k.buffer.count < 255 := by
        by_contra hno
        exact hput.2 (hfull.mpr hno)
      simp only [hmake, hput, hroom, if_true, and_self, Option.toList_some, ne_eq, not_false_eq_true]
      exact RingBuffer.contents_put hput.2 _
    · have hnone : ¬ (scancode < 0x80 ∧ keyMap (shiftHeld codes) scancode ≠ 0 ∧
          k.buffer.count < 255) := by
        rintro ⟨-, hentry, hroom⟩
        exact hput ⟨hentry, fun heq => hfull.mp heq hroom⟩
      rw [if_pos hmake, if_neg hput, if_neg hnone, Option.toList_none, List.append_nil]
      split <;> rfl
  · have hnone : ¬ (scancode < 0x80 ∧ keyMap (shiftHeld codes) scancode ≠ 0 ∧
        k.buffer.count < 255) := fun h => hmake h.1
    rw [if_neg hmake, if_neg hnone, Option.toList_none, List.append_nil]
    split <;> rfl

/-- The shift state follows the shift codes, whether or not there is room. -/
theorem interruptsHandler_isShiftPressed (k : IOKeyboardController) (scancode : UInt8)
    {codes : List UInt8} (hshift : k.isShiftPressed = shiftHeld codes) :
    (k.interruptsHandler scancode).isShiftPressed = shiftHeld (codes ++ [scancode]) := by
  unfold IOKeyboardController.interruptsHandler
  rw [shiftHeld_concat, ← hshift]
  by_cases hpress : scancode = 0x2A
  · -- the shift key itself has no character, so that its code is not taken for one
    rw [hpress, keyMap_shift]
    simp
  by_cases hrelease : scancode = 0xAA
  · rw [hrelease]
    simp
  simp only [hpress, hrelease, if_false]
  split
  · split <;> rfl
  · rfl

/-- An interrupt appends what its scancode stands for, and remembers the shift key
also when the buffer is full. -/
theorem Lossless.interrupt (h : s.Lossless) (scancode : UInt8) (hfree : s.holder = none) :
    (s.step (.interrupt scancode)).Lossless where
  shift_eq := by
    show (s.controller.interruptsHandler scancode).isShiftPressed = _
    rw [interruptsHandler_isShiftPressed _ _ h.shift_eq]
    simp only [step, List.map_append, List.map_cons, List.map_nil]
  queue_eq := by
    show s.delivered ++ (s.controller.interruptsHandler scancode).buffer.contents = _
    rw [interruptsHandler_contents _ _ h.shift_eq, ← List.append_assoc]
    show s.delivered ++ s.buffered ++ _ = typed [] (s.arrivals ++ [_])
    rw [h.queue_eq, typed_concat, List.nil_append]
  inside_holds := h.inside_holds
  read_first := by
    intro task ascii hpoint
    replace hpoint : s.point task = .read ascii := hpoint
    -- no task is between its read and its move
    have hholder := h.inside_holds task (by rw [hpoint]; rfl)
    rw [hfree] at hholder
    cases hholder

/-- A statement that leaves the buffer alone, and reads no character. -/
theorem Lossless.goto (h : s.Lossless) {task : Nat} {point : GetCharacterPoint} {holder : Option Nat}
    (hturn : s.holder = none ∨ s.holder = some task) (hpoint : ∀ ascii, point ≠ .read ascii)
    (hinside : point.inside = true → holder = some task) :
    { s.goto task point with holder := holder }.Lossless where
  shift_eq := h.shift_eq
  queue_eq := h.queue_eq
  inside_holds := h.inside_update hturn hinside
  read_first := h.read_update hturn hpoint

/-- One statement of a task; only moving `tail` changes what is buffered. -/
theorem Lossless.runTask (h : s.Lossless) (task : Nat)
    (hturn : s.holder = none ∨ s.holder = some task) : (s.runTask task).Lossless := by
  have hholder := h.inside_holds task
  unfold KeyboardSystem.runTask
  cases hpoint : s.point task with
  | outside => exact h.goto hturn (fun _ => by simp) (fun _ => rfl)
  | locked =>
    -- the test of the code decides between reading and waiting
    rw [hpoint] at hholder
    dsimp only
    split
    · next hsome =>
      refine ⟨h.shift_eq, h.queue_eq, h.inside_update hturn fun _ => hholder rfl, ?_⟩
      intro other ascii hread
      by_cases hsame : other = task
      · rw [hsame] at hread
        have hascii := (Function.update_self ..).symm.trans hread
        exact ⟨hsome, GetCharacterPoint.read.inj hascii⟩
      · exact h.read_first other ascii ((Function.update_of_ne hsame _ _).symm.trans hread)
    · exact h.goto hturn (fun _ => by simp) (fun _ => hholder rfl)
  | read ascii =>
    rw [hpoint] at hholder
    obtain ⟨hsome, hascii⟩ := h.read_first task ascii hpoint
    refine ⟨h.shift_eq, ?_, h.inside_update hturn fun _ => hholder rfl,
      -- what leaves the buffer is delivered
      h.read_update hturn (fun _ => by simp)⟩
    have hqueue := h.queue_eq
    unfold buffered at hqueue ⊢
    rw [RingBuffer.contents_drop hsome, hascii] at hqueue
    show (s.delivered ++ [ascii]) ++ s.controller.buffer.drop.contents = typed [] s.arrivals
    rw [← hqueue, List.append_assoc, List.singleton_append]
  | moved ascii => exact h.goto hturn (fun _ => by simp) (fun hfalse => by cases hfalse)
  | foundEmpty => exact h.goto hturn (fun _ => by simp) (fun hfalse => by cases hfalse)
  | returned ascii => exact h.goto hturn (fun _ => by simp) (fun hfalse => by cases hfalse)

/-- In every run, what was delivered and what is still buffered is what was typed
while there was room. -/
theorem keyboard_fifo {events : List KeyboardEvent} {s : KeyboardSystem}
    (h : Run Possible step boot events s) : s.delivered ++ s.buffered = typed [] s.arrivals := by
  have hlossless : s.Lossless := by
    apply h.invariant _ lossless_boot
    intro s event h hpossible
    cases event with
    | interrupt scancode => exact h.interrupt scancode hpossible
    | run task => exact h.runTask task hpossible
  exact hlossless.queue_eq

/-- The shift key and `a` are pressed, and task 0 reads a character. -/
def oneKeyEvents : List KeyboardEvent :=
  [.interrupt 0x2A, .run 0, .run 0, .run 0, .interrupt 0x1E, .run 0, .run 0, .run 0, .run 0]

theorem keyboard_fifo_oneKey : (oneKeyEvents.foldl step boot).point 0 = .returned 65 ∧
    (oneKeyEvents.foldl step boot).delivered ++ (oneKeyEvents.foldl step boot).buffered =
      typed [] (oneKeyEvents.foldl step boot).arrivals := by
  have hlocked : ∀ {s : KeyboardSystem}, s.holder = some 0 → s.Possible (.run 0) := Or.inr
  have hrun : Run Possible step boot oneKeyEvents (oneKeyEvents.foldl step boot) := by
    refine .cons rfl (.cons (Or.inl rfl) (.cons (hlocked rfl) (.cons (hlocked rfl) (.cons rfl
      (.cons (Or.inl rfl) (.cons (hlocked rfl) (.cons (hlocked rfl) (.cons (hlocked rfl) ?_))))))))
    exact .nil _
  exact ⟨rfl, keyboard_fifo hrun⟩

end KeyboardSystem

end TermOS.Device
