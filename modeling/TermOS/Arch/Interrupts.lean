import Mathlib.Data.UInt
import Mathlib.Logic.Function.Basic
import Mathlib.Tactic.Ring

/-!
# Interrupt stubs

Model of `kernel/src/arch/x86_64/interrupts.asm` and of `CPURegisters` in
`kernel/inc/types.h`: what the processor and the stubs push, at which offsets the
C handlers look for it, and what the stubs pop again. All accesses are to
quadwords a multiple of 8 apart, so the memory maps an address to a quadword.
-/

namespace TermOS.Arch

/-! ## Section 1: The machine -/

/-- The general-purpose registers that the stubs save; `rsp` is kept apart. -/
inductive Register
  | rax | rbx | rcx | rdx | rsi | rdi | rbp
  | r8 | r9 | r10 | r11 | r12 | r13 | r14 | r15
  deriving DecidableEq, Repr

/-- The pushes of `PUSHALL`. -/
def pushAllOrder : List Register :=
  [.r15, .r14, .r13, .r12, .r11, .r10, .r9, .r8, .rbp, .rdi, .rsi, .rdx, .rcx, .rbx, .rax]

/-- The pops of `POPALL`. -/
def popAllOrder : List Register :=
  [.rax, .rbx, .rcx, .rdx, .rsi, .rdi, .rbp, .r8, .r9, .r10, .r11, .r12, .r13, .r14, .r15]

/-- What an interrupt suspends. -/
structure Context where
  registers : Register → UInt64
  rip : UInt64
  cs : UInt64
  rflags : UInt64
  rsp : UInt64
  ss : UInt64

/-- What a stub works on. -/
structure Machine where
  registers : Register → UInt64
  rsp : UInt64
  memory : UInt64 → UInt64
  /-- The GS base of the kernel is the active one. -/
  kernelGS : Bool

namespace Machine

variable (s : Machine)

def push (value : UInt64) : Machine :=
  { s with rsp := s.rsp - 8, memory := Function.update s.memory (s.rsp - 8) value }

def pop (r : Register) : Machine :=
  { s with registers := Function.update s.registers r (s.memory s.rsp), rsp := s.rsp + 8 }

/-- Several pushes, the first value first. -/
def pushes (values : List UInt64) : Machine := values.foldl push s

/-- `test qword [rsp + offset], 3` and, unless the result is zero, `swapgs` -/
def swapgsIfUser (offset : UInt64) : Machine :=
  if s.memory (s.rsp + offset) &&& 3 = 0 then s else { s with kernelGS := !s.kernelGS }

/-- `PUSHALL` -/
def pushAll : Machine := pushAllOrder.foldl (fun s r => s.push (s.registers r)) s

/-- `POPALL` -/
def popAll : Machine := popAllOrder.foldl pop s

end Machine

/-! ## Section 2: The stubs -/

/-- The interrupts that have a stub: the exceptions and two of the IRQs. -/
inductive Interrupt
  | exception (vector : Fin 32)
  | irq0
  | irq1
  deriving DecidableEq

namespace Interrupt

/-- The exceptions for which the processor pushes an error code. Vectors 21 and 29, which have
one too, come up with control-flow enforcement and in encrypted guests only. -/
def pushesErrorCode (vector : Fin 32) : Bool := vector.val ∈ [8, 10, 11, 12, 13, 14, 17, 30]

/-- The vectors of `ISR_ERRCODE`; the others have `ISR_NOERRCODE`. -/
def isrErrCode (vector : Fin 32) : Bool :=
  match vector.val with
  | 8 | 10 | 11 | 12 | 13 | 14 | 17 | 30 => true
  | _ => false

/-- The number that the stub pushes. -/
def number : Interrupt → UInt64
  | exception vector => UInt64.ofNat vector.val
  | irq0 => 32
  | irq1 => 33

/-- What the processor pushes before the first instruction of the stub. -/
def delivered (c : Context) (errorCode : UInt64) : Interrupt → List UInt64
  | exception vector =>
    [c.ss, c.rsp, c.rflags, c.cs, c.rip] ++ if pushesErrorCode vector then [errorCode] else []
  | irq0 | irq1 => [c.ss, c.rsp, c.rflags, c.cs, c.rip]

/-- The machine at the first instruction of the stub. The processor pushes on the
stack that it has selected and aligned, from `stack` down. -/
def deliver (c : Context) (errorCode stack : UInt64) (memory : UInt64 → UInt64) (kernelGS : Bool)
    (interrupt : Interrupt) : Machine :=
  Machine.pushes ⟨c.registers, stack, memory, kernelGS⟩ (interrupt.delivered c errorCode)

/-- `ISR_NOERRCODE` and `ISR_ERRCODE` with the first part of `isr_common_stub`, and
`IRQ_HANDLER`, up to `mov rdi, rsp`. -/
def enter (interrupt : Interrupt) (s : Machine) : Machine :=
  match interrupt with
  | exception vector =>
    let s := if isrErrCode vector then s else s.push 0
    ((s.push interrupt.number).swapgsIfUser 24).pushAll
  | irq0 | irq1 => (((s.push 0).push interrupt.number).swapgsIfUser 24).pushAll

/-- The error code that the handler is meant to find. -/
def errorCodeWord (errorCode : UInt64) : Interrupt → UInt64
  | exception vector => if pushesErrorCode vector then errorCode else 0
  | irq0 | irq1 => 0

/-- `IRQ_HANDLER` takes the stack pointer from what `irq_handler_c` returns; a call
of `isr_handler_c` comes back with the one it had. -/
def afterHandler (interrupt : Interrupt) (s : Machine) : Machine :=
  match interrupt with
  | exception _ => s
  | irq0 | irq1 => { s with rsp := s.registers .rax }

end Interrupt

/-- The second part of the stubs: `swapgs` if needed, `POPALL`, `add rsp, 16` and `iretq`. -/
def Machine.exit (s : Machine) : Context :=
  let s := (s.swapgsIfUser 144).popAll
  let rsp := s.rsp + 16
  { registers := s.registers
    rip := s.memory rsp
    cs := s.memory (rsp + 8)
    rflags := s.memory (rsp + 16)
    rsp := s.memory (rsp + 24)
    ss := s.memory (rsp + 32) }

/-! ## Section 3: What the handlers see -/

/-- `CPURegisters` -/
structure CPURegisters where
  rax : UInt64
  rbx : UInt64
  rcx : UInt64
  rdx : UInt64
  rbp : UInt64
  rsi : UInt64
  rdi : UInt64
  r8 : UInt64
  r9 : UInt64
  r10 : UInt64
  r11 : UInt64
  r12 : UInt64
  r13 : UInt64
  r14 : UInt64
  r15 : UInt64
  interruptNumber : UInt64
  errorCode : UInt64
  rip : UInt64
  cs : UInt64
  rflags : UInt64
  rsp : UInt64
  ss : UInt64

/-- The structure at an address. -/
def CPURegisters.load (memory : UInt64 → UInt64) (frame : UInt64) : CPURegisters where
  rax := memory frame
  rbx := memory (frame + 8)
  rcx := memory (frame + 16)
  rdx := memory (frame + 24)
  rbp := memory (frame + 32)
  rsi := memory (frame + 40)
  rdi := memory (frame + 48)
  r8 := memory (frame + 56)
  r9 := memory (frame + 64)
  r10 := memory (frame + 72)
  r11 := memory (frame + 80)
  r12 := memory (frame + 88)
  r13 := memory (frame + 96)
  r14 := memory (frame + 104)
  r15 := memory (frame + 112)
  interruptNumber := memory (frame + 120)
  errorCode := memory (frame + 128)
  rip := memory (frame + 136)
  cs := memory (frame + 144)
  rflags := memory (frame + 152)
  rsp := memory (frame + 160)
  ss := memory (frame + 168)

/-- Every field of the structure says what it is named after. -/
structure CPURegisters.Shows (frame : CPURegisters) (c : Context) (number errorCode : UInt64) :
    Prop where
  rax_eq : frame.rax = c.registers .rax
  rbx_eq : frame.rbx = c.registers .rbx
  rcx_eq : frame.rcx = c.registers .rcx
  rdx_eq : frame.rdx = c.registers .rdx
  rbp_eq : frame.rbp = c.registers .rbp
  rsi_eq : frame.rsi = c.registers .rsi
  rdi_eq : frame.rdi = c.registers .rdi
  r8_eq : frame.r8 = c.registers .r8
  r9_eq : frame.r9 = c.registers .r9
  r10_eq : frame.r10 = c.registers .r10
  r11_eq : frame.r11 = c.registers .r11
  r12_eq : frame.r12 = c.registers .r12
  r13_eq : frame.r13 = c.registers .r13
  r14_eq : frame.r14 = c.registers .r14
  r15_eq : frame.r15 = c.registers .r15
  interruptNumber_eq : frame.interruptNumber = number
  errorCode_eq : frame.errorCode = errorCode
  rip_eq : frame.rip = c.rip
  cs_eq : frame.cs = c.cs
  rflags_eq : frame.rflags = c.rflags
  rsp_eq : frame.rsp = c.rsp
  ss_eq : frame.ss = c.ss

/-! ## Section 4: The stack -/

namespace Machine

variable {s : Machine} {values : List UInt64} {m : Nat}

theorem pushes_cons (s : Machine) (value : UInt64) (values : List UInt64) :
    s.pushes (value :: values) = (s.push value).pushes values := rfl

theorem pushes_append (s : Machine) (values rest : List UInt64) :
    s.pushes (values ++ rest) = (s.pushes values).pushes rest := List.foldl_append

theorem pushes_rsp (s : Machine) (values : List UInt64) :
    (s.pushes values).rsp = s.rsp - 8 * UInt64.ofNat values.length := by
  induction values generalizing s with
  | nil => simp [pushes]
  | cons value values ih =>
    have hlength : UInt64.ofNat (values.length + 1) = UInt64.ofNat values.length + 1 :=
      UInt64.ofNat_add ..
    rw [pushes_cons, ih, List.length_cons, hlength]
    show s.rsp - 8 - 8 * _ = _
    grind

theorem pushes_registers (s : Machine) (values : List UInt64) :
    (s.pushes values).registers = s.registers := by
  induction values generalizing s with
  | nil => rfl
  | cons value values ih => exact ih (s.push value)

/-- Fewer than 2^61 quadwords below an address are not at the address. -/
theorem sub_ne {k : Nat} (hpos : 0 < k) (hlt : k < 2 ^ 61) (a : UInt64) :
    a - 8 * UInt64.ofNat k ≠ a := by
  intro heq
  have hzero : 8 * UInt64.ofNat k = 0 := by grind
  have hnat := congrArg UInt64.toNat hzero
  simp [UInt64.toNat_mul] at hnat
  omega

/-- Pushing leaves the quadwords above the old stack pointer alone. -/
theorem pushes_memory_above (hlength : values.length + m < 2 ^ 61) :
    (s.pushes values).memory (s.rsp + 8 * UInt64.ofNat m) = s.memory (s.rsp + 8 * UInt64.ofNat m) := by
  induction values generalizing s m with
  | nil => rfl
  | cons value values ih =>
    rw [List.length_cons] at hlength
    have hplace : s.rsp + 8 * UInt64.ofNat m = (s.push value).rsp + 8 * UInt64.ofNat (m + 1) := by
      rw [UInt64.ofNat_add]
      show _ = s.rsp - 8 + _
      simp only [UInt64.reduceOfNat]
      grind
    rw [pushes_cons, hplace, ih (by omega), ← hplace]
    show Function.update s.memory (s.rsp - 8) value _ = _
    refine Function.update_of_ne ?_ _ _
    have hne := sub_ne (k := m + 1) (by omega) (by omega) s.rsp
    rw [UInt64.ofNat_add] at hne
    simp only [UInt64.reduceOfNat] at hne
    grind

/-- The `j`-th value that was pushed. -/
theorem pushes_memory (hlength : values.length < 2 ^ 61) {j : Nat} (hj : j < values.length) :
    (s.pushes values).memory (s.rsp - 8 * UInt64.ofNat (j + 1)) = values[j] := by
  induction values generalizing s j with
  | nil => simp at hj
  | cons value values ih =>
    rw [List.length_cons] at hlength hj
    cases j with
    | zero =>
      have hplace : s.rsp - 8 * UInt64.ofNat (0 + 1) = (s.push value).rsp + 8 * UInt64.ofNat 0 := by
        show _ = s.rsp - 8 + _
        simp
      rw [pushes_cons, hplace, pushes_memory_above (by omega)]
      show Function.update s.memory (s.rsp - 8) value _ = value
      rw [show (s.push value).rsp + 8 * UInt64.ofNat 0 = s.rsp - 8 by simp [push]]
      exact Function.update_self ..
    | succ j =>
      have hplace : s.rsp - 8 * UInt64.ofNat (j + 1 + 1) =
          (s.push value).rsp - 8 * UInt64.ofNat (j + 1) := by
        rw [UInt64.ofNat_add (j + 1)]
        show _ = s.rsp - 8 - _
        simp only [UInt64.reduceOfNat]
        grind
      rw [pushes_cons, hplace, ih (by omega) (by omega), List.getElem_cons_succ]

/-- `PUSHALL` pushes the registers as they are. -/
theorem pushAll_eq (s : Machine) : s.pushAll = s.pushes (pushAllOrder.map s.registers) := rfl

/-- The place of a register above the stack pointer, in quadwords, before `POPALL`. -/
def popOffset : Register → UInt64
  | .rax => 0
  | .rbx => 8
  | .rcx => 16
  | .rdx => 24
  | .rsi => 32
  | .rdi => 40
  | .rbp => 48
  | .r8 => 56
  | .r9 => 64
  | .r10 => 72
  | .r11 => 80
  | .r12 => 88
  | .r13 => 96
  | .r14 => 104
  | .r15 => 112

theorem popAll_registers (s : Machine) (r : Register) :
    s.popAll.registers r = s.memory (s.rsp + popOffset r) := by
  cases r <;> simp [popAll, popAllOrder, pop, popOffset, UInt64.add_assoc]

theorem popAll_rsp (s : Machine) : s.popAll.rsp = s.rsp + 120 := by
  simp [popAll, popAllOrder, pop, UInt64.add_assoc]

theorem popAll_memory (s : Machine) : s.popAll.memory = s.memory := rfl

@[simp] theorem swapgsIfUser_registers (s : Machine) (offset : UInt64) :
    (s.swapgsIfUser offset).registers = s.registers := by
  unfold swapgsIfUser
  split <;> rfl

@[simp] theorem swapgsIfUser_rsp (s : Machine) (offset : UInt64) :
    (s.swapgsIfUser offset).rsp = s.rsp := by
  unfold swapgsIfUser
  split <;> rfl

@[simp] theorem swapgsIfUser_memory (s : Machine) (offset : UInt64) :
    (s.swapgsIfUser offset).memory = s.memory := by
  unfold swapgsIfUser
  split <;> rfl

/-- What is pushed does not depend on the GS base. -/
theorem pushes_memory_congr {s s' : Machine} (hrsp : s'.rsp = s.rsp) (hmemory : s'.memory = s.memory)
    (values : List UInt64) : (s'.pushes values).memory = (s.pushes values).memory := by
  induction values generalizing s s' with
  | nil => exact hmemory
  | cons value values ih =>
    rw [pushes_cons, pushes_cons]
    apply ih
    · simp only [push, hrsp]
    · simp only [push, hrsp, hmemory]

end Machine

/-! ## Section 5: The frame -/

section Frame

variable (interrupt : Interrupt) (c : Context) (errorCode stack : UInt64)
  (memory : UInt64 → UInt64) (kernelGS : Bool)

/-- The words of the frame, the first one pushed first. -/
def frameWords : List UInt64 :=
  [c.ss, c.rsp, c.rflags, c.cs, c.rip] ++ [interrupt.errorCodeWord errorCode, interrupt.number] ++
    pushAllOrder.map c.registers

/-- The machine when the stub calls the handler. -/
def handled : Machine := interrupt.enter (interrupt.deliver c errorCode stack memory kernelGS)

/-- The stub knows for which exceptions the processor pushes an error code. -/
theorem Interrupt.isrErrCode_eq (vector : Fin 32) : isrErrCode vector = pushesErrorCode vector := by
  revert vector
  decide

/-- Whatever the processor has pushed, the stub goes on with the same seven words. -/
theorem handled_eq : handled interrupt c errorCode stack memory kernelGS =
    ((Machine.pushes ⟨c.registers, stack, memory, kernelGS⟩ ([c.ss, c.rsp, c.rflags, c.cs, c.rip] ++
      [interrupt.errorCodeWord errorCode, interrupt.number])).swapgsIfUser 24).pushAll := by
  rw [Machine.pushes_append]
  cases interrupt with
  | exception vector =>
    rw [handled, Interrupt.enter, Interrupt.deliver, Interrupt.delivered, Interrupt.errorCodeWord,
      Interrupt.isrErrCode_eq, Machine.pushes_append]
    by_cases h : Interrupt.pushesErrorCode vector
    · rw [if_pos h, if_pos h, if_pos h]
      rfl
    · rw [if_neg h, if_neg h, if_neg h]
      rfl
  | irq0 => rfl
  | irq1 => rfl

theorem handled_rsp : (handled interrupt c errorCode stack memory kernelGS).rsp = stack - 176 := by
  rw [handled_eq, Machine.pushAll_eq, Machine.pushes_rsp, Machine.swapgsIfUser_rsp,
    Machine.pushes_rsp]
  show stack - 8 * UInt64.ofNat 7 - 8 * UInt64.ofNat 15 = _
  simp only [UInt64.reduceOfNat]
  grind

theorem handled_memory_eq : (handled interrupt c errorCode stack memory kernelGS).memory =
    (Machine.pushes ⟨c.registers, stack, memory, kernelGS⟩ (frameWords interrupt c errorCode)).memory := by
  rw [handled_eq, Machine.pushAll_eq, frameWords, Machine.pushes_append _ (_ ++ _),
    Machine.swapgsIfUser_registers, Machine.pushes_registers]
  exact Machine.pushes_memory_congr (Machine.swapgsIfUser_rsp _ _) (Machine.swapgsIfUser_memory _ _) _

theorem length_frameWords : (frameWords interrupt c errorCode).length = 22 := rfl

/-- The `j`-th word of the frame, from the stack pointer on. -/
theorem handled_memory {j : Nat} (hj : j < 22) {offset : UInt64}
    (hoffset : offset + 8 * UInt64.ofNat (21 - j + 1) = 176) :
    (handled interrupt c errorCode stack memory kernelGS).memory (stack - 176 + offset) =
      (frameWords interrupt c errorCode).getD (21 - j) 0 := by
  have hplace : stack - 176 + offset = stack - 8 * UInt64.ofNat (21 - j + 1) := by grind
  have hword : 21 - j < (frameWords interrupt c errorCode).length := by
    rw [length_frameWords]
    omega
  rw [handled_memory_eq, hplace, ← List.getElem_eq_getD (h := hword)]
  exact Machine.pushes_memory (by rw [length_frameWords]; decide) hword

/-- The structure has `rbp` before `rsi` and `rdi`, and `PUSHALL` puts it behind them. -/
theorem load_handled : CPURegisters.load (handled interrupt c errorCode stack memory kernelGS).memory
      (stack - 176) =
    { rax := c.registers .rax
      rbx := c.registers .rbx
      rcx := c.registers .rcx
      rdx := c.registers .rdx
      rbp := c.registers .rsi
      rsi := c.registers .rdi
      rdi := c.registers .rbp
      r8 := c.registers .r8
      r9 := c.registers .r9
      r10 := c.registers .r10
      r11 := c.registers .r11
      r12 := c.registers .r12
      r13 := c.registers .r13
      r14 := c.registers .r14
      r15 := c.registers .r15
      interruptNumber := interrupt.number
      errorCode := interrupt.errorCodeWord errorCode
      rip := c.rip
      cs := c.cs
      rflags := c.rflags
      rsp := c.rsp
      ss := c.ss } := by
  have word : ∀ (j : Nat) (hj : j < 22) (offset : UInt64),
      offset + 8 * UInt64.ofNat (21 - j + 1) = 176 →
      (handled interrupt c errorCode stack memory kernelGS).memory (stack - 176 + offset) =
        (frameWords interrupt c errorCode).getD (21 - j) 0 :=
    fun j hj offset h => handled_memory interrupt c errorCode stack memory kernelGS hj h
  -- the words lie below `stack`, and the one that was pushed last comes first
  simp only [CPURegisters.load, CPURegisters.mk.injEq]
  refine ⟨?_, word 1 (by decide) 8 (by decide), word 2 (by decide) 16 (by decide),
    word 3 (by decide) 24 (by decide), word 4 (by decide) 32 (by decide),
    word 5 (by decide) 40 (by decide), word 6 (by decide) 48 (by decide),
    word 7 (by decide) 56 (by decide), word 8 (by decide) 64 (by decide),
    word 9 (by decide) 72 (by decide), word 10 (by decide) 80 (by decide),
    word 11 (by decide) 88 (by decide), word 12 (by decide) 96 (by decide),
    word 13 (by decide) 104 (by decide), word 14 (by decide) 112 (by decide),
    word 15 (by decide) 120 (by decide), word 16 (by decide) 128 (by decide),
    word 17 (by decide) 136 (by decide), word 18 (by decide) 144 (by decide),
    word 19 (by decide) 152 (by decide), word 20 (by decide) 160 (by decide),
    word 21 (by decide) 168 (by decide)⟩
  have hfirst := word 0 (by decide) 0 (by decide)
  rw [UInt64.add_zero] at hfirst
  exact hfirst

/-- A handler has come back with the stack pointer at the frame and the frame as it was. -/
structure ComesBack (later : Machine) : Prop where
  rsp_eq : (interrupt.afterHandler later).rsp = stack - 176
  memory_eq : ∀ j < 22, later.memory (stack - 176 + 8 * UInt64.ofNat j) =
    (handled interrupt c errorCode stack memory kernelGS).memory (stack - 176 + 8 * UInt64.ofNat j)

end Frame

section Exit

variable {interrupt : Interrupt} {c : Context} {errorCode stack : UInt64}
  {memory : UInt64 → UInt64} {kernelGS : Bool} {later : Machine}

theorem Interrupt.afterHandler_memory (interrupt : Interrupt) (s : Machine) :
    (interrupt.afterHandler s).memory = s.memory := by
  cases interrupt <;> rfl

/-- The exit finds in the frame what the processor and the stub have put there. -/
theorem ComesBack.word (h : ComesBack interrupt c errorCode stack memory kernelGS later) {j : Nat}
    (hj : j < 22) {offset : UInt64} (hoffset : offset + 8 * UInt64.ofNat (21 - j + 1) = 176) :
    (interrupt.afterHandler later).memory ((interrupt.afterHandler later).rsp + offset) =
      (frameWords interrupt c errorCode).getD (21 - j) 0 := by
  have hsum : UInt64.ofNat (21 - j + 1) + UInt64.ofNat j = 22 := by
    rw [← UInt64.ofNat_add, show 21 - j + 1 + j = 22 by omega]
    rfl
  have hplace : offset = 8 * UInt64.ofNat j := by grind
  rw [Interrupt.afterHandler_memory, h.rsp_eq, hplace, h.memory_eq j hj, ← hplace]
  exact handled_memory interrupt c errorCode stack memory kernelGS hj hoffset

/-- `POPALL` is the mirror image of `PUSHALL`: everything is restored. -/
theorem ComesBack.exit_eq (h : ComesBack interrupt c errorCode stack memory kernelGS later) :
    (interrupt.afterHandler later).exit = c := by
  have hregisters : ∀ r, (interrupt.afterHandler later).memory
      ((interrupt.afterHandler later).rsp + Machine.popOffset r) = c.registers r := by
    intro r
    cases r with
    | rax => exact h.word (j := 0) (by decide) (by decide)
    | rbx => exact h.word (j := 1) (by decide) (by decide)
    | rcx => exact h.word (j := 2) (by decide) (by decide)
    | rdx => exact h.word (j := 3) (by decide) (by decide)
    | rsi => exact h.word (j := 4) (by decide) (by decide)
    | rdi => exact h.word (j := 5) (by decide) (by decide)
    | rbp => exact h.word (j := 6) (by decide) (by decide)
    | r8 => exact h.word (j := 7) (by decide) (by decide)
    | r9 => exact h.word (j := 8) (by decide) (by decide)
    | r10 => exact h.word (j := 9) (by decide) (by decide)
    | r11 => exact h.word (j := 10) (by decide) (by decide)
    | r12 => exact h.word (j := 11) (by decide) (by decide)
    | r13 => exact h.word (j := 12) (by decide) (by decide)
    | r14 => exact h.word (j := 13) (by decide) (by decide)
    | r15 => exact h.word (j := 14) (by decide) (by decide)
  obtain ⟨registers, rip, cs, rflags, rsp, ss⟩ := c
  simp only [Machine.exit, Context.mk.injEq, Machine.popAll_rsp, Machine.popAll_memory,
    Machine.swapgsIfUser_rsp, Machine.swapgsIfUser_memory, UInt64.add_assoc]
  -- the frame of the processor lies above the registers, the number and the error code
  refine ⟨?_, h.word (j := 17) (by decide) (by decide), h.word (j := 18) (by decide) (by decide),
    h.word (j := 19) (by decide) (by decide), h.word (j := 20) (by decide) (by decide),
    h.word (j := 21) (by decide) (by decide)⟩
  funext r
  rw [Machine.popAll_registers, Machine.swapgsIfUser_rsp, Machine.swapgsIfUser_memory]
  exact hregisters r

/-- An unchanged frame is restored in full. Its fields say what they are named after
only if `rbp`, `rsi` and `rdi` were equal: the handler finds `rsi` in the field
`rbp`, `rdi` in `rsi` and `rbp` in `rdi`. -/
theorem interruptFrame_shows_iff (interrupt : Interrupt) (c : Context) (errorCode stack : UInt64)
    (memory : UInt64 → UInt64) (kernelGS : Bool) :
    ((CPURegisters.load (handled interrupt c errorCode stack memory kernelGS).memory
        (handled interrupt c errorCode stack memory kernelGS).rsp).Shows c interrupt.number
          (interrupt.errorCodeWord errorCode) ∧
      ∀ later, ComesBack interrupt c errorCode stack memory kernelGS later →
        (interrupt.afterHandler later).exit = c) ↔
    c.registers .rbp = c.registers .rsi ∧ c.registers .rsi = c.registers .rdi := by
  rw [handled_rsp, load_handled]
  constructor
  · rintro ⟨hshows, -⟩
    exact ⟨hshows.rbp_eq.symm, hshows.rsi_eq.symm⟩
  · rintro ⟨hrbp, hrsi⟩
    refine ⟨?_, fun later h => h.exit_eq⟩
    constructor <;> try rfl
    · exact hrbp.symm
    · exact hrsi.symm
    · exact hrbp.trans hrsi

/-- A kernel thread that is about to execute `int3`. -/
def breakpointContext : Context where
  registers
    | .rbp => 0x7000
    | .rsi => 1
    | .rdi => 2
    | _ => 0
  rip := 0x1000
  cs := 0x08
  rflags := 0x202
  rsp := 0x6ff0
  ss := 0x10

/-- The dump of `isr_handler_c` prints `RBP=1`. -/
theorem interruptFrame_breakpoint :
    ¬ (CPURegisters.load (handled (.exception 3) breakpointContext 0 0x6ff0 (fun _ => 0) true).memory
      (handled (.exception 3) breakpointContext 0 0x6ff0 (fun _ => 0) true).rsp).Shows
        breakpointContext 3 0 := by
  rw [handled_rsp, load_handled]
  intro hshows
  have hrbp : (1 : UInt64) = 0x7000 := hshows.rbp_eq
  exact absurd hrbp (by decide)

end Exit

end TermOS.Arch
