import TermOS.Arch.DescriptorTables
import TermOS.Lib.Run
import TermOS.OS.Scheduler

/-!
# Segment selectors

The selectors that the code loads: those of `gdt_flush`, of the frames that `OSSchedulerSpawn`
builds, of the gates, and of `IA32_STAR` as `OSServicesInitialize` in
`kernel/src/arch/x86_64/syscall.c` sets it. In whatever order tasks are started, interrupted, resumed
and served, the processor finds a segment of the right kind and ring behind each of them.

## Main Definitions

* `SegmentState.step` - what an event does to CS and SS; `none` is a fault
-/

namespace TermOS.OS

open TermOS.Lib TermOS.Arch

/-! ## Section 1: The selectors -/

/-- `IA32_STAR` -/
def star : UInt64 := ((0x13 : UInt64) <<< 48) ||| ((0x08 : UInt64) <<< 32)

/-- CS and SS after `syscall`. -/
def syscallSelectors : Nat × Nat :=
  let selector := (star >>> 32).toUInt16 &&& 0xFFFC
  (selector.toNat, (selector + 8).toNat)

/-- CS and SS after a 64-bit `sysret`. -/
def sysretSelectors : Nat × Nat :=
  let selector := (star >>> 48).toUInt16
  (((selector + 16) ||| 3).toNat, ((selector + 8) ||| 3).toNat)

/-- CS and SS in the frame that a task starts with. -/
def spawnSelectors (entry targetStackPointer : Nat) (isUser : Bool) : Nat × Nat :=
  let frame := spawnFrame entry targetStackPointer isUser
  (frame.getD 3 0, frame.getD 0 0)

/-- The processor, as far as CS and SS go, and what lies saved on kernel stacks. -/
structure SegmentState where
  cs : Nat
  ss : Nat
  saved : List (Nat × Nat)

inductive SegmentEvent
  | spawn (entry targetStackPointer : Nat) (isUser : Bool)
  | interrupt (cause : Cause) (vector rsp : Nat)
  /-- A frame is taken back, which may be another task's. -/
  | iretq (frame : Nat)
  | syscall
  | sysret

namespace SegmentState

variable (s : SegmentState)

/-- After `gdt_flush`. -/
def boot : SegmentState := ⟨0x08, 0x10, []⟩

/-- The current privilege level. -/
def ring : Nat := s.cs % 4

end SegmentState

/-! ## Section 2: The processor -/

/-- `iretq` may load these: 64-bit code of the ring that is gone back to, and a stack of the same ring,
or none in ring 0. -/
def CanReturn (m : Memory) (gdtr : TableRegister) (ring cs ss : Nat) : Prop :=
  ring ≤ cs % 4 ∧ ss % 4 = cs % 4 ∧
    (∃ code ∈ fetchSegment m gdtr cs, code.IsCode ∧ ¬ code.Conforming ∧ code.dpl = cs % 4) ∧
    (ss / 4 = 0 ∧ cs % 4 ≠ 3 ∨
      ∃ data ∈ fetchSegment m gdtr ss, data.IsWritable ∧ data.dpl = cs % 4)

instance (m : Memory) (gdtr : TableRegister) (ring cs ss : Nat) :
    Decidable (CanReturn m gdtr ring cs ss) := inferInstanceAs (Decidable (_ ∧ _))

/-- The next state; `none` is a fault. -/
def SegmentState.step (m : Memory) (p : TableRegisters) (s : SegmentState) :
    SegmentEvent → Option SegmentState
  | .spawn entry targetStackPointer isUser =>
    some { s with saved := spawnSelectors entry targetStackPointer isUser :: s.saved }
  | .interrupt cause vector rsp =>
    (deliver m p cause vector s.ring rsp).map fun e =>
      -- a change to an inner ring loads the null selector
      { cs := e.cs
        ss := if e.ring < s.ring then e.ring else s.ss
        saved := (s.cs, s.ss) :: s.saved }
  | .iretq frame =>
    s.saved[frame]?.bind fun (cs, ss) =>
      if CanReturn m p.gdtr s.ring cs ss then some ⟨cs, ss, s.saved.eraseIdx frame⟩ else none
  | .syscall => some { s with cs := syscallSelectors.1, ss := syscallSelectors.2 }
  | .sysret => some { s with cs := sysretSelectors.1, ss := sysretSelectors.2 }

/-- Who does what: the kernel starts tasks and returns, programs ask for services, and `int` with a
vector of the table is the kernel's. A program's `int` is a general protection fault. -/
def SegmentState.Possible (s : SegmentState) : SegmentEvent → Prop
  | .spawn _ _ _ => s.ring = 0
  | .interrupt .hardware vector _ => vector < 34
  | .interrupt .instruction vector _ => s.ring = 0 ∧ vector < 34
  | .iretq frame => s.ring = 0 ∧ frame < s.saved.length
  | .syscall => s.ring = 3
  | .sysret => s.ring = 0

/-- Something possible happens. -/
def SegmentState.Next (m : Memory) (p : TableRegisters) (s : SegmentState) (e : SegmentEvent)
    (s' : SegmentState) : Prop := s.Possible e ∧ s.step m p e = some s'

theorem SegmentState.step_iretq {m : Memory} {p : TableRegisters} {s : SegmentState} {frame cs ss : Nat}
    (hframe : s.saved[frame]? = some (cs, ss)) (hreturn : CanReturn m p.gdtr s.ring cs ss) :
    s.step m p (.iretq frame) = some ⟨cs, ss, s.saved.eraseIdx frame⟩ := by
  rw [step, hframe, Option.bind_some]
  exact if_pos hreturn

/-! ## Section 3: The invariant -/

/-- The selectors that ever are in CS and SS: the kernel's with and without a stack segment, and a
program's. -/
def KernelOrUser (selectors : Nat × Nat) : Prop :=
  selectors = (0x08, 0x10) ∨ selectors = (0x08, 0) ∨ selectors = (0x23, 0x1B)

theorem spawnSelectors_eq (entry targetStackPointer : Nat) (isUser : Bool) :
    spawnSelectors entry targetStackPointer isUser = if isUser then (0x23, 0x1B) else (0x08, 0x10) := by
  cases isUser <;> rfl

theorem syscallSelectors_eq : syscallSelectors = (0x08, 0x10) := by decide

theorem sysretSelectors_eq : sysretSelectors = (0x23, 0x1B) := by decide

/-- CS, SS and all that is saved are of this kind. -/
structure SegmentState.Sound (s : SegmentState) : Prop where
  current : KernelOrUser (s.cs, s.ss)
  saved : ∀ selectors ∈ s.saved, KernelOrUser selectors

section Segments

variable {image : TableImage} {m : Memory} {rsp0 : UInt64} {s s' : SegmentState}

theorem KernelOrUser.ring {cs ss : Nat} (h : KernelOrUser (cs, ss)) : cs % 4 = 0 ∨ cs % 4 = 3 := by
  rcases h with heq | heq | heq <;> obtain ⟨rfl, rfl⟩ := Prod.mk.inj heq <;> simp

/-- What runs is 64-bit code of its ring. -/
theorem KernelOrUser.code {cs ss : Nat} (h : KernelOrUser (cs, ss)) (hloaded : image.Loaded m rsp0) :
    ∃ code ∈ fetchSegment m image.gdtr cs, code.IsCode ∧ ¬ code.Conforming ∧
      code.dpl = cs % 4 := by
  rcases h with heq | heq | heq <;> obtain ⟨rfl, rfl⟩ := Prod.mk.inj heq
  · exact ⟨_, hloaded.kernelCode, by decide, by decide, rfl⟩
  · exact ⟨_, hloaded.kernelCode, by decide, by decide, rfl⟩
  · exact ⟨_, hloaded.userCode, by decide, by decide, rfl⟩

/-- Its stack segment is one of the same ring, or none in the kernel. -/
theorem KernelOrUser.stack {cs ss : Nat} (h : KernelOrUser (cs, ss)) (hloaded : image.Loaded m rsp0) :
    ss % 4 = cs % 4 ∧ (ss / 4 = 0 ∧ cs % 4 ≠ 3 ∨
      ∃ data ∈ fetchSegment m image.gdtr ss, data.IsWritable ∧ data.dpl = cs % 4) := by
  rcases h with heq | heq | heq <;> obtain ⟨rfl, rfl⟩ := Prod.mk.inj heq
  · exact ⟨rfl, .inr ⟨_, hloaded.kernelData, by decide, rfl⟩⟩
  · exact ⟨rfl, .inl ⟨rfl, by decide⟩⟩
  · exact ⟨rfl, .inr ⟨_, hloaded.userData, by decide, rfl⟩⟩

/-- The kernel can go back to whatever was saved. -/
theorem KernelOrUser.canReturn {cs ss : Nat} (h : KernelOrUser (cs, ss)) (hloaded : image.Loaded m rsp0) :
    CanReturn m image.gdtr 0 cs ss :=
  ⟨Nat.zero_le _, (h.stack hloaded).1, h.code hloaded, (h.stack hloaded).2⟩

theorem sound_boot : SegmentState.boot.Sound := ⟨.inl rfl, by simp [SegmentState.boot]⟩

/-- Every vector of the table is taken, and leads to the kernel's code segment. -/
theorem entry_of_possible (image : TableImage) (rsp0 : UInt64) {cause : Cause} {vector rsp : Nat}
    (hpossible : s.Possible (.interrupt cause vector rsp)) :
    ∃ e, image.entry rsp0 cause vector s.ring rsp = some e ∧ e.cs = 0x08 ∧ e.ring = 0 := by
  have hvector : vector < 34 := by
    cases cause with
    | hardware => exact hpossible
    | instruction => exact hpossible.2
  have hallowed : ¬ (cause = .instruction ∧ 0 < s.ring) := by
    rintro ⟨rfl, hring⟩
    exact Nat.ne_of_gt hring hpossible.1
  obtain ⟨handler, hhandler⟩ : ∃ handler, image.handler vector = some handler := by
    unfold TableImage.handler
    split
    · exact ⟨_, rfl⟩
    · split
      · exact ⟨_, rfl⟩
      · rw [if_pos (by omega)]
        exact ⟨_, rfl⟩
  exact ⟨_, by rw [TableImage.entry, if_neg hallowed, hhandler, Option.map_some], rfl, rfl⟩

/-- No event that is possible faults, and the selectors stay of their kind. -/
theorem SegmentState.Sound.step (h : s.Sound) (hloaded : image.Loaded m rsp0) (e : SegmentEvent)
    (hpossible : s.Possible e) : ∃ s', s.step m image.registers e = some s' ∧ s'.Sound := by
  cases e with
  | spawn entry targetStackPointer isUser =>
    refine ⟨_, rfl, h.current, fun selectors hmem => ?_⟩
    rcases List.mem_cons.mp hmem with rfl | hold
    · rw [spawnSelectors_eq]
      cases isUser
      · exact .inl rfl
      · exact .inr (.inr rfl)
    · exact h.saved selectors hold
  | interrupt cause vector rsp =>
    obtain ⟨e, hentry, hcs, hring⟩ := entry_of_possible image rsp0 hpossible
    have hvector : vector < 256 := by
      cases cause with
      | hardware => exact Nat.lt_trans hpossible (by decide)
      | instruction => exact Nat.lt_trans hpossible.2 (by decide)
    have hdeliver := hloaded.deliver cause hvector s.ring rsp
    refine ⟨_, by rw [SegmentState.step, hdeliver, hentry, Option.map_some], ?_, ?_⟩
    · -- from ring 3 there is no stack segment any more, and in ring 0 it stays
      simp only [hcs, hring]
      by_cases hinner : 0 < s.ring
      · exact .inr (.inl (by rw [if_pos hinner]))
      · rw [if_neg hinner]
        rcases h.current with heq | heq | heq
        · exact .inl (by rw [(Prod.mk.inj heq).2])
        · exact .inr (.inl (by rw [(Prod.mk.inj heq).2]))
        · exact absurd (show 0 < s.cs % 4 by rw [(Prod.mk.inj heq).1]; decide) hinner
    · intro selectors hmem
      rcases List.mem_cons.mp hmem with rfl | hold
      · exact h.current
      · exact h.saved selectors hold
  | iretq frame =>
    obtain ⟨hring, hframe⟩ := hpossible
    have hkind := h.saved _ (List.getElem_mem hframe)
    have hreturn := hkind.canReturn hloaded
    exact ⟨_, step_iretq (List.getElem?_eq_getElem hframe) (hring ▸ hreturn), hkind,
      fun selectors hmem => h.saved selectors (List.mem_of_mem_eraseIdx hmem)⟩
  | syscall => exact ⟨_, rfl, .inl syscallSelectors_eq, h.saved⟩
  | sysret => exact ⟨_, rfl, .inr (.inr sysretSelectors_eq), h.saved⟩

/-- In every order of starts, interrupts, returns and services, the code that runs has a 64-bit code
segment of its own ring and a stack segment to match, and nothing that can happen next faults. -/
theorem selectors_never_fault (image : TableImage) (m : Memory) (rsp0 : UInt64)
    (hloaded : image.Loaded m rsp0) {events : List SegmentEvent} {s : SegmentState}
    (hruns : Trace (SegmentState.Next m image.registers) .boot events s) :
    (s.ring = 0 ∨ s.ring = 3) ∧
    (∃ code ∈ fetchSegment m image.gdtr s.cs, code.IsCode ∧ code.dpl = s.ring) ∧
    (s.ring = 3 → ∃ data ∈ fetchSegment m image.gdtr s.ss, data.IsWritable ∧ data.dpl = 3) ∧
    ∀ e, s.Possible e → (s.step m image.registers e).isSome := by
  have h : s.Sound := by
    refine hruns.invariant (fun s e s' h hnext => ?_) sound_boot
    obtain ⟨s₁, hstep, hsound⟩ := h.step hloaded e hnext.1
    obtain rfl := Option.some.inj (hstep.symm.trans hnext.2)
    exact hsound
  obtain ⟨code, hcode, hiscode, -, hdpl⟩ := h.current.code hloaded
  refine ⟨h.current.ring, ⟨code, hcode, hiscode, hdpl⟩, fun hring => ?_, fun e hpossible => ?_⟩
  · rcases (h.current.stack hloaded).2 with ⟨-, hnot⟩ | ⟨data, hdata, hwritable, hsame⟩
    · exact absurd hring hnot
    · exact ⟨data, hdata, hwritable, hsame.trans hring⟩
  · obtain ⟨s', hstep, -⟩ := h.step hloaded e hpossible
    rw [hstep]
    rfl

end Segments

/-- A program is started, asks for a service and goes on. -/
theorem selectors_never_fault_program : ∃ s,
    Trace (SegmentState.Next smallTablesMemory smallTables.registers) .boot
      [.spawn 0x400000 0x70000000 true, .iretq 0, .syscall, .sysret] s ∧
    s.ring = 3 ∧ ∃ data ∈ fetchSegment smallTablesMemory smallTables.gdtr s.ss, data.IsWritable := by
  have huser : KernelOrUser (0x23, 0x1B) := .inr (.inr rfl)
  -- after `iretq` it runs in ring 3
  have hreturn : SegmentState.step smallTablesMemory smallTables.registers
      ⟨0x08, 0x10, [(0x23, 0x1B)]⟩ (.iretq 0) = some ⟨0x23, 0x1B, []⟩ :=
    SegmentState.step_iretq rfl (huser.canReturn loaded_smallTables)
  have hruns : Trace (SegmentState.Next smallTablesMemory smallTables.registers) .boot
      [.spawn 0x400000 0x70000000 true, .iretq 0, .syscall, .sysret] ⟨0x23, 0x1B, []⟩ :=
    .cons ⟨rfl, rfl⟩ (.cons ⟨⟨rfl, Nat.zero_lt_one⟩, hreturn⟩
      (.cons ⟨rfl, rfl⟩ (.cons ⟨rfl, rfl⟩ (.nil _))))
  obtain ⟨-, -, hstack, -⟩ := selectors_never_fault smallTables smallTablesMemory 0x9000
    loaded_smallTables hruns
  obtain ⟨data, hdata, hwritable, -⟩ := hstack rfl
  exact ⟨_, hruns, rfl, data, hdata, hwritable⟩

end TermOS.OS
