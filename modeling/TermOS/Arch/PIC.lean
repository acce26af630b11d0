import TermOS.Arch.DescriptorTables
import TermOS.Lib.Run

/-!
# The interrupt controllers

Model of `kernel/src/arch/x86_64/PIC.c`, of `IOTimerInitialize` in `kernel/src/IO/IOTimer.c` and of
the end of `irq_handler_c` in `kernel/src/arch/x86_64/interrupts.c`: what the port writes make of the
two 8259 controllers and of the timer's channel, and which lines reach the processor from then on.

## Main Definitions

* `Ports.write`, `Ports.interrupt` - the devices
* `halLegacyInterruptControllerRemap`, `ioTimerInitialize`, `irqHandlerEnd` - the code
-/

namespace TermOS.Arch

open TermOS.Lib

/-! ## Section 1: The devices -/

/-- Which initialisation word a controller waits for. -/
inductive Awaited
  | nothing
  | icw2
  | icw3
  | icw4
  deriving DecidableEq

/-- An 8259 controller. -/
structure Controller where
  awaited : Awaited
  /-- There is no other controller, so that there is no `icw3`. -/
  single : Bool
  needsICW4 : Bool
  offset : UInt8
  mask : UInt8
  /-- The lines whose interrupts have not been ended. -/
  inService : UInt8
  deriving DecidableEq

namespace Controller

variable (c : Controller)

/-- Bit 4 starts the initialisation. Of the other commands there is the end of an interrupt, which
is that of the first line in service. -/
def writeCommand (value : UInt8) : Controller :=
  if value &&& 0x10 ≠ 0 then
    { c with
      awaited := .icw2
      single := decide (value &&& 0x02 ≠ 0)
      needsICW4 := decide (value &&& 0x01 ≠ 0)
      mask := 0 }
  else if value &&& 0xF8 = 0x20 then { c with inService := c.inService &&& (c.inService - 1) }
  else c

/-- What follows the word that was awaited. -/
def afterICW3 : Awaited := if c.needsICW4 then .icw4 else .nothing

/-- The mask, or the word that is awaited. The wiring in ICW3 and the mode in ICW4 are not kept: the
model is that of a slave on line 2 in 8086 mode, which is what `PIC.c` writes. -/
def writeData (value : UInt8) : Controller :=
  match c.awaited with
  | .nothing => { c with mask := value }
  | .icw2 =>
    { c with
      offset := value &&& 0xF8
      awaited := if c.single then c.afterICW3 else .icw3 }
  | .icw3 => { c with awaited := c.afterICW3 }
  | .icw4 => { c with awaited := .nothing }

/-- A line is passed on unless it is masked, or one of at least its priority is in service. -/
def Passes (line : Nat) : Prop :=
  c.awaited = .nothing ∧ c.mask.toNat.testBit line = false ∧ c.inService.toNat % 2 ^ (line + 1) = 0

instance (line : Nat) : Decidable (c.Passes line) := inferInstanceAs (Decidable (_ ∧ _))

def serve (line : Nat) : Controller :=
  { c with inService := c.inService ||| (1 <<< UInt8.ofNat line) }

end Controller

/-- Channel 0 of the timer: what it counts from, and the low byte while the high one is awaited. -/
structure TimerChannel where
  reload : Nat
  low : Option UInt8
  deriving DecidableEq

structure Ports where
  master : Controller
  slave : Controller
  channel : TimerChannel
  deriving DecidableEq

def kIOMasterCommand : UInt16 := 0x20
def kIOMasterData : UInt16 := 0x21
def kIOSlaveCommand : UInt16 := 0xA0
def kIOSlaveData : UInt16 := 0xA1
def kIOTimerPitBaseClock : UInt32 := 1193180
def kIOTimerPitCommand : UInt16 := 0x43
def kIOTimerPitData : UInt16 := 0x40

namespace Ports

variable (p : Ports)

/-- `IOPortWrite8`; the write that only waits goes to none of these. -/
def write (port : UInt16) (value : UInt8) : Ports :=
  if port = kIOMasterCommand then { p with master := p.master.writeCommand value }
  else if port = kIOMasterData then { p with master := p.master.writeData value }
  else if port = kIOSlaveCommand then { p with slave := p.slave.writeCommand value }
  else if port = kIOSlaveData then { p with slave := p.slave.writeData value }
  else if port = kIOTimerPitCommand then
    -- channel 0, low byte and then high byte
    if value &&& 0xF0 = 0x30 then { p with channel := { p.channel with low := none } } else p
  else if port = kIOTimerPitData then
    match p.channel.low with
    | none => { p with channel := { p.channel with low := some value } }
    | some low => { p with channel := ⟨low.toNat + 256 * value.toNat, none⟩ }
  else p

/-- A line is raised while the processor takes interrupts: the vector that it sees, and the
controllers that wait for the end of the interrupt. The second controller is on line 2. -/
def interrupt (line : Nat) : Option (UInt8 × Ports) :=
  if line < 8 then
    if p.master.Passes line then
      some (p.master.offset + UInt8.ofNat line, { p with master := p.master.serve line })
    else none
  else if p.slave.Passes (line - 8) ∧ p.master.Passes 2 then
    some (p.slave.offset + UInt8.ofNat (line - 8),
      { p with master := p.master.serve 2, slave := p.slave.serve (line - 8) })
  else none

/-! ## Section 2: The code -/

/-- `HALLegacyInterruptControllerRemap` -/
def halLegacyInterruptControllerRemap : UInt16 × Ports :=
  let currentMaster := p.master.mask
  let currentSlave := p.slave.mask
  let p := (p.write kIOMasterCommand 0x11).write kIOSlaveCommand 0x11
  let p := (p.write kIOMasterData 0x20).write kIOSlaveData 0x28
  let p := (p.write kIOMasterData 0x04).write kIOSlaveData 0x02
  let p := (p.write kIOMasterData 0x01).write kIOSlaveData 0x01
  let p := (p.write kIOMasterData 0xFD).write kIOSlaveData 0xFF
  ((currentMaster.toUInt16 <<< 8) ||| currentSlave.toUInt16, p)

/-- The port accesses of `IOTimerInitialize`. -/
def writeDivisor (divisor : UInt32) : Ports :=
  let p := p.write kIOTimerPitCommand 0x36
  let p := p.write kIOTimerPitData (divisor &&& 0xFF).toUInt8
  let p := p.write kIOTimerPitData ((divisor >>> 8) &&& 0xFF).toUInt8
  p.write kIOMasterData (p.master.mask &&& ~~~1)

/-- `IOTimerInitialize`; a division by zero is an exception. -/
def ioTimerInitialize (frequency : UInt32) : Option Ports :=
  if frequency = 0 then none else some (p.writeDivisor (kIOTimerPitBaseClock / frequency))

/-- What `irq_handler_c` does before it returns. -/
def irqHandlerEnd : Ports := p.write kIOMasterCommand 0x20

/-- What happens once the kernel runs. -/
inductive Event
  /-- A line is raised while interrupts are on; its handler runs with interrupts off. -/
  | line (line : Nat)
  /-- `int $32`, which goes to the same handler as the timer. -/
  | int32
  deriving DecidableEq

def step : Event → Ports
  | .line line =>
    match p.interrupt line with
    | some (_, p) => p.irqHandlerEnd
    | none => p
  | .int32 => p.irqHandlerEnd

/-- The devices at the end of `kmain`. -/
def started (frequency : UInt32) : Option Ports :=
  p.halLegacyInterruptControllerRemap.2.ioTimerInitialize frequency

end Ports

/-! ## Section 3: What the code makes of the devices -/

namespace Ports

variable {p : Ports} {frequency : UInt32}

/-- The first controller: the timer and the keyboard have vectors 32 and 33, the other lines are
masked, and nothing is in service. -/
def programmedMaster : Controller := ⟨.nothing, false, true, 0x20, 0xFC, 0⟩

/-- The second controller, all of whose lines are masked. -/
def programmedSlave : Controller := ⟨.nothing, false, true, 0x28, 0xFF, 0⟩

structure Programmed (p : Ports) : Prop where
  master : p.master = programmedMaster
  slave : p.slave = programmedSlave

theorem remap_master (p : Ports) : p.halLegacyInterruptControllerRemap.2.master =
    ⟨.nothing, false, true, 0x20, 0xFD, p.master.inService⟩ := rfl

theorem remap_slave (p : Ports) : p.halLegacyInterruptControllerRemap.2.slave =
    ⟨.nothing, false, true, 0x28, 0xFF, p.slave.inService⟩ := rfl

/-- The timer's line is unmasked last. -/
theorem writeDivisor_master (p : Ports) (divisor : UInt32) :
    (p.writeDivisor divisor).master = p.master.writeData (p.master.mask &&& ~~~1) := rfl

theorem writeDivisor_slave (p : Ports) (divisor : UInt32) : (p.writeDivisor divisor).slave = p.slave :=
  rfl

/-- The channel counts from the divisor, in its 16 bits. -/
theorem writeDivisor_reload (p : Ports) (divisor : UInt32) :
    (p.writeDivisor divisor).channel.reload = divisor.toNat % 2 ^ 16 := by
  have hlow : (divisor &&& 0xFF).toUInt8.toNat = divisor.toNat % 2 ^ 8 := by
    rw [UInt32.toNat_toUInt8, UInt32.toNat_and]
    exact congrArg (· % 2 ^ 8) (Nat.and_two_pow_sub_one_eq_mod _ 8) |>.trans (Nat.mod_mod _ _)
  have hhigh : (divisor >>> 8 &&& 0xFF).toUInt8.toNat = divisor.toNat / 2 ^ 8 % 2 ^ 8 := by
    rw [UInt32.toNat_toUInt8, UInt32.toNat_and, UInt32.toNat_shiftRight, Nat.shiftRight_eq_div_pow]
    exact congrArg (· % 2 ^ 8) (Nat.and_two_pow_sub_one_eq_mod _ 8) |>.trans (Nat.mod_mod _ _)
  show (divisor &&& 0xFF).toUInt8.toNat + 256 * (divisor >>> 8 &&& 0xFF).toUInt8.toNat = _
  rw [hlow, hhigh]
  omega

theorem started_eq_some {p₁ : Ports} (h : p.started frequency = some p₁) :
    p₁ = p.halLegacyInterruptControllerRemap.2.writeDivisor (kIOTimerPitBaseClock / frequency) := by
  unfold started ioTimerInitialize at h
  split at h
  · cases h
  · exact (Option.some.inj h).symm

theorem programmed_started {p₁ : Ports} (h : p.started frequency = some p₁)
    (hmaster : p.master.inService = 0) (hslave : p.slave.inService = 0) : p₁.Programmed := by
  obtain rfl := started_eq_some h
  constructor
  · rw [writeDivisor_master, remap_master, hmaster]
    rfl
  · rw [writeDivisor_slave, remap_slave, hslave]
    rfl

theorem reload_started {p₁ : Ports} (h : p.started frequency = some p₁) :
    p₁.channel.reload = 1193180 / frequency.toNat % 2 ^ 16 := by
  obtain rfl := started_eq_some h
  rw [writeDivisor_reload]
  rfl

theorem programmedMaster_passes : ∀ line < 8, programmedMaster.Passes line ↔ line < 2 := by decide

theorem programmedSlave_masked : ∀ line < 8, ¬ programmedSlave.Passes line := by decide

/-- The end of an interrupt takes back what its beginning has set. -/
theorem programmedMaster_served :
    ∀ line < 2, (programmedMaster.serve line).writeCommand 0x20 = programmedMaster := by decide

theorem programmedMaster_ended : programmedMaster.writeCommand 0x20 = programmedMaster := by decide

/-- Which lines come through. -/
theorem Programmed.interrupt (h : p.Programmed) {line : Nat} (hline : line < 16) :
    p.interrupt line = if line < 2 then
      some (0x20 + UInt8.ofNat line, { p with master := programmedMaster.serve line }) else none := by
  rw [Ports.interrupt, h.master, h.slave]
  by_cases hfirst : line < 8
  · rw [if_pos hfirst]
    by_cases hpasses : line < 2
    · rw [if_pos hpasses, if_pos ((programmedMaster_passes line hfirst).mpr hpasses)]
      rfl
    · rw [if_neg hpasses, if_neg (mt (programmedMaster_passes line hfirst).mp hpasses)]
  · -- the second controller passes nothing on
    rw [if_neg hfirst, if_neg (show ¬ line < 2 by omega),
      if_neg fun hpasses => programmedSlave_masked (line - 8) (by omega) hpasses.1]

/-- A handler that has come to its end has left the controllers as they were. -/
theorem Programmed.step (h : p.Programmed) {e : Event} (hline : ∀ line, e = .line line → line < 16) :
    (p.step e).Programmed := by
  cases e with
  | int32 =>
    refine ⟨?_, h.slave⟩
    show p.master.writeCommand 0x20 = programmedMaster
    rw [h.master, programmedMaster_ended]
  | line line =>
    by_cases hpasses : line < 2
    · simp only [Ports.step, h.interrupt (hline line rfl), if_pos hpasses]
      exact ⟨programmedMaster_served line hpasses, h.slave⟩
    · simp only [Ports.step, h.interrupt (hline line rfl), if_neg hpasses]
      exact h

end Ports

/-- The stub of a line. -/
def TableImage.lineStub (image : TableImage) (line : Nat) : Option UInt64 :=
  if line = 0 then some image.irq0 else if line = 1 then some image.irq1 else none

/-- From the end of the boot on, whatever lines are raised and in whatever order, the timer's and the
keyboard's line are never blocked and enter the kernel at their own stubs, and no other line gets to the
processor. The timer counts from what the base clock divided by the frequency is in 16 bits. -/
theorem lines_reach_stubs (image : TableImage) (m : Memory) (rsp0 : UInt64)
    (hloaded : image.Loaded m rsp0) (p₀ : Ports) (hmaster : p₀.master.inService = 0)
    (hslave : p₀.slave.inService = 0) (frequency : UInt32) {p₁ : Ports}
    (hstarted : p₀.started frequency = some p₁) {events : List Ports.Event} {p : Ports}
    (hruns : Run (fun _ e => ∀ line, e = .line line → line < 16) Ports.step p₁ events p) :
    (∀ line ring rsp, line < 16 →
      ((p.interrupt line).bind fun taken =>
        deliver m image.registers .hardware taken.1.toNat ring rsp) =
        (image.lineStub line).map fun stub =>
          { rip := stub.toNat
            cs := 0x08
            ring := 0
            rsp := (if 0 < ring then rsp0.toNat else rsp) / 16 * 16
            masked := true }) ∧
    p₁.channel.reload = 1193180 / frequency.toNat % 2 ^ 16 := by
  have hprogrammed : p.Programmed :=
    hruns.invariant (fun s e h hok => h.step hok) (Ports.programmed_started hstarted hmaster hslave)
  refine ⟨fun line ring rsp hline => ?_, Ports.reload_started hstarted⟩
  rw [hprogrammed.interrupt hline]
  by_cases hpasses : line < 2
  · have hvector : (0x20 + UInt8.ofNat line).toNat = 32 + line := by
      obtain rfl | rfl : line = 0 ∨ line = 1 := by omega
      · rfl
      · rfl
    have hdeliver := hloaded.deliver .hardware (show 32 + line < 256 by omega) ring rsp
    rw [if_pos hpasses, Option.bind_some, hvector, hdeliver]
    obtain rfl | rfl : line = 0 ∨ line = 1 := by omega
    · rfl
    · rfl
  · rw [if_neg hpasses, Option.bind_none, TableImage.lineStub, if_neg (show ¬ line = 0 by omega),
      if_neg (show ¬ line = 1 by omega), Option.map_none]

/-- The controllers as a firmware may leave them. -/
def firmwarePorts : Ports where
  master := ⟨.nothing, false, true, 0x68, 0xB8, 0⟩
  slave := ⟨.nothing, false, true, 0x70, 0xBD, 0⟩
  channel := ⟨0, none⟩

/-- The keyboard interrupts a program, after a tick and a line that nobody has asked for. -/
theorem lines_reach_stubs_keyboard : ∃ p₁ p, firmwarePorts.started 1000 = some p₁ ∧
    Run (fun _ e => ∀ line, e = .line line → line < 16) Ports.step p₁ [.line 0, .line 7, .int32] p ∧
    ((p.interrupt 1).bind fun taken =>
      deliver smallTablesMemory smallTables.registers .hardware taken.1.toNat 3 0x7000) =
        some ⟨0xFFFFFFFF80100210, 0x08, 0, 0x9000, true⟩ := by
  obtain ⟨p₁, hstarted⟩ : ∃ p₁, firmwarePorts.started 1000 = some p₁ := ⟨_, rfl⟩
  have hruns : Run (fun _ e => ∀ line, e = .line line → line < 16) Ports.step p₁
      [.line 0, .line 7, .int32] _ :=
    .cons (by simp) (.cons (by simp) (.cons (by simp) (.nil _)))
  have hlines := lines_reach_stubs smallTables smallTablesMemory 0x9000 loaded_smallTables firmwarePorts
    rfl rfl 1000 hstarted hruns
  exact ⟨p₁, _, hstarted, hruns, (hlines.1 1 3 0x7000 (by decide)).trans (by decide)⟩

end TermOS.Arch
