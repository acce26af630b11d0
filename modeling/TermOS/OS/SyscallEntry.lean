import TermOS.Arch.Interrupts
import TermOS.OS.Syscall

/-!
# Calls of the services

Model of `kernel/src/arch/x86_64/syscall.asm`, of the registers that `OSServicesInitialize` sets for it,
and of `userspace/libterm/src/OSServices.asm` and `RuntimeEntry.asm`: how the arguments of a C function
of a program become those of a C function of the kernel, and the result comes back. As for the stubs of
the interrupts, the memory maps an address to a quadword.

## Main Definitions

* `enterService`, `leaveService` - `syscall_entry` around the call of `syscall_dispatch`
* `Service.call` - a program calls a function of `OSServices.asm`
-/

namespace TermOS.Arch

/-! ## Section 1: The code -/

/-- The processor in a program or at the first instruction of the kernel. -/
structure Running extends Machine where
  rip : UInt64
  rflags : UInt64

/-- `IA32_FMASK`: only IF. -/
def flagMask : UInt64 := 0x200

/-- The instruction `syscall`; `rip` is that of the next one. -/
def Running.syscall (s : Running) (syscallEntry : UInt64) : Running :=
  { s with
    registers := Function.update (Function.update s.registers .rcx s.rip) .r11 s.rflags
    rip := syscallEntry
    rflags := s.rflags &&& ~~~flagMask }

/-- What `sysret` takes from `r11`. -/
def sysretFlags (r11 : UInt64) : UInt64 := (r11 &&& 0x3C7FD7) ||| 2

/-- The pushes of `syscall_entry`, after that of the program's stack pointer. -/
def servicePushes : List Register :=
  [.r11, .rcx, .rbp, .rbx, .rdi, .rsi, .rdx, .r10, .r8, .r9, .r12, .r13, .r14, .r15]

/-- Its pops, before that of the program's stack pointer. -/
def servicePops : List Register :=
  [.r15, .r14, .r13, .r12, .r9, .r8, .r10, .rdx, .rsi, .rdi, .rbx, .rbp, .rcx, .r11]

/-- Its moves, the target first. -/
def serviceMoves : List (Register × Register) :=
  [(.r9, .r8), (.r8, .r10), (.rcx, .rdx), (.rdx, .rsi), (.rsi, .rdi), (.rdi, .rax)]

namespace Machine

def swapgs (s : Machine) : Machine := { s with kernelGS := !s.kernelGS }

def move (s : Machine) (target source : Register) : Machine :=
  { s with registers := Function.update s.registers target (s.registers source) }

end Machine

/-- `syscall_entry` up to `call syscall_dispatch`; `gs` is the address of `gOSBootCPU`, which both bases
have. -/
def enterService (gs : UInt64) (s : Machine) : Machine :=
  let s := s.swapgs
  let s := { s with memory := Function.update s.memory gs s.rsp }
  let s := { s with rsp := s.memory (gs + 8) }
  let s := s.push (s.memory gs)
  let s := s.pushes (servicePushes.map s.registers)
  serviceMoves.foldl (fun s m => s.move m.1 m.2) s

/-- `syscall_entry` behind the call, up to and with `o64 sysret`. -/
def leaveService (s : Machine) : Running :=
  let s := servicePops.foldl Machine.pop s
  let s := { s with rsp := s.memory s.rsp }
  { s.swapgs with
    rip := s.registers .rcx
    rflags := sysretFlags (s.registers .r11) }

/-- `ret` -/
def Running.ret (s : Running) : Running :=
  { s with rip := s.memory s.rsp, rsp := s.rsp + 8 }

/-! ## Section 2: Pushing and popping -/

namespace Machine

variable {s t : Machine} {values : List UInt64} {registers : List Register} {f : Register → UInt64}

theorem pushes_kernelGS (s : Machine) (values : List UInt64) :
    (s.pushes values).kernelGS = s.kernelGS := by
  induction values generalizing s with
  | nil => rfl
  | cons value values ih => exact ih (s.push value)

/-- From the stack pointer on lie the values that were pushed, the last one first. -/
theorem pushes_memory_from (hlength : values.length < 2 ^ 61) {i : Nat} (hi : i < values.length) :
    (s.pushes values).memory ((s.pushes values).rsp + 8 * UInt64.ofNat i) =
      values.reverse.get ⟨i, by rwa [List.length_reverse]⟩ := by
  have hsplit : values.length = (values.length - 1 - i + 1) + i := by omega
  have hplace : (s.pushes values).rsp + 8 * UInt64.ofNat i =
      s.rsp - 8 * UInt64.ofNat (values.length - 1 - i + 1) := by
    have hsum := UInt64.ofNat_add (values.length - 1 - i + 1) i
    rw [← hsplit] at hsum
    rw [pushes_rsp, hsum]
    grind
  rw [hplace, pushes_memory hlength (show values.length - 1 - i < values.length by omega),
    List.get_eq_getElem, List.getElem_reverse]

/-- What is popped when the registers' values lie on the stack. -/
theorem pops_eq (registers : List Register) (h : ∀ i (hi : i < registers.length),
      t.memory (t.rsp + 8 * UInt64.ofNat i) = f registers[i]) :
    (registers.foldl pop t).registers = (fun r => if r ∈ registers then f r else t.registers r) ∧
      (registers.foldl pop t).rsp = t.rsp + 8 * UInt64.ofNat registers.length ∧
      (registers.foldl pop t).memory = t.memory ∧ (registers.foldl pop t).kernelGS = t.kernelGS := by
  induction registers generalizing t with
  | nil => simp
  | cons r registers ih =>
    have hfirst : t.memory t.rsp = f r := by
      have := h 0 (Nat.zero_lt_succ _)
      simpa using this
    have hplace : ∀ i, t.rsp + 8 + 8 * UInt64.ofNat i = t.rsp + 8 * UInt64.ofNat (i + 1) := by
      intro i
      rw [UInt64.ofNat_add i 1]
      simp only [UInt64.reduceOfNat]
      grind
    obtain ⟨hregisters, hrsp, hmemory, hgs⟩ := ih (t := t.pop r) fun i hi => by
      have := h (i + 1) (Nat.succ_lt_succ hi)
      rw [List.getElem_cons_succ] at this
      show t.memory (t.rsp + 8 + 8 * UInt64.ofNat i) = _
      rw [hplace, this]
    refine ⟨?_, ?_, hmemory, hgs⟩
    · rw [List.foldl_cons, hregisters]
      funext r'
      by_cases hmem : r' ∈ registers
      · simp [hmem]
      · by_cases hsame : r' = r
        · subst hsame
          simp [hmem, pop, hfirst]
        · simp [hmem, hsame, pop]
    · rw [List.foldl_cons, hrsp, List.length_cons]
      exact hplace _

end Machine

end TermOS.Arch

namespace TermOS.OS

open TermOS.Arch

/-! ## Section 3: A call and its return -/

/-- The function of `OSServices.asm` puts this into `rax`. -/
def Service.number : Service → UInt64
  | exit => 0
  | spawn => 1
  | mem => 2
  | write => 3
  | read => 4
  | wait => 5

/-- A program is at the first instruction of the service's function; `next` is the address behind its
`syscall`. -/
def Service.call (service : Service) (syscallEntry next : UInt64) (s : Running) : Running :=
  { s with
    registers := Function.update s.registers .rax service.number
    rip := next }.syscall syscallEntry

/-- `_start`: what `main` has returned becomes the argument of `OSServiceProcessExit`. -/
def afterMain (s : Running) : Running := { s with toMachine := s.toMachine.move .rdi .rax }

/-- The arguments of `syscall_dispatch`, in the registers where C passes them. -/
def dispatchArguments (s : Machine) : SystemCall :=
  ⟨s.registers .rdi, s.registers .rsi, s.registers .rdx, s.registers .rcx, s.registers .r8,
    s.registers .r9⟩

/-- `syscall_dispatch` has returned: its result is in `rax`, and the fifteen words that the stub has
pushed are as they were. -/
structure DispatchReturns (entered later : Machine) (result : UInt64) : Prop where
  rax_eq : later.registers .rax = result
  rsp_eq : later.rsp = entered.rsp
  kernelGS_eq : later.kernelGS = entered.kernelGS
  saved : ∀ i < 15, later.memory (entered.rsp + 8 * UInt64.ofNat i) =
    entered.memory (entered.rsp + 8 * UInt64.ofNat i)

section Entry

variable {gs : UInt64} {s later : Machine} {result : UInt64}

/-- What the stub pushes. -/
def savedWords (s : Machine) : List UInt64 := s.rsp :: servicePushes.map s.registers

/-- The moves only change registers. -/
theorem moves_eq (s : Machine) (moves : List (Register × Register)) :
    (moves.foldl (fun s m => s.move m.1 m.2) s).memory = s.memory ∧
      (moves.foldl (fun s m => s.move m.1 m.2) s).rsp = s.rsp ∧
      (moves.foldl (fun s m => s.move m.1 m.2) s).kernelGS = s.kernelGS := by
  induction moves generalizing s with
  | nil => exact ⟨rfl, rfl, rfl⟩
  | cons m moves ih => exact ih (s.move m.1 m.2)

/-- The machine before the first push: the stack is the kernel's. -/
def onKernelStack (gs : UInt64) (s : Machine) : Machine where
  registers := s.registers
  rsp := s.memory (gs + 8)
  memory := Function.update s.memory gs s.rsp
  kernelGS := !s.kernelGS

theorem enterService_eq (gs : UInt64) (s : Machine) : enterService gs s =
    serviceMoves.foldl (fun s m => s.move m.1 m.2) ((onKernelStack gs s).pushes (savedWords s)) := by
  simp [enterService, Machine.swapgs, onKernelStack, savedWords, Machine.pushes_cons, Machine.push]

theorem dispatchArguments_enterService (gs : UInt64) (s : Machine) :
    dispatchArguments (enterService gs s) =
      ⟨s.registers .rax, s.registers .rdi, s.registers .rsi, s.registers .rdx, s.registers .r10,
        s.registers .r8⟩ := by
  rw [enterService_eq]
  simp [dispatchArguments, serviceMoves, Machine.move, Machine.pushes_registers, onKernelStack]

theorem enterService_kernelGS (gs : UInt64) (s : Machine) :
    (enterService gs s).kernelGS = !s.kernelGS := by
  rw [enterService_eq, (moves_eq _ _).2.2, Machine.pushes_kernelGS]
  rfl

/-- The stack is the kernel's, with the 15 words on it. -/
theorem enterService_rsp (gs : UInt64) (s : Machine) : (enterService gs s).rsp = s.memory (gs + 8) - 120 := by
  rw [enterService_eq, (moves_eq _ _).2.1, Machine.pushes_rsp]
  rfl

/-- From the stack pointer on lie the words that were pushed: the pops are the pushes backwards, and
the program's stack pointer comes last. -/
theorem enterService_saved {i : Nat} {value : UInt64}
    (hvalue : (servicePops.map s.registers ++ [s.rsp])[i]? = some value) :
    (enterService gs s).memory ((enterService gs s).rsp + 8 * UInt64.ofNat i) = value := by
  obtain ⟨hi, hget⟩ := List.getElem?_eq_some_iff.mp hvalue
  have hlt : i < (savedWords s).length := hi
  rw [enterService_eq, (moves_eq _ _).1, (moves_eq _ _).2.1,
    Machine.pushes_memory_from (show (savedWords s).length < 2 ^ 61 by simp [savedWords, servicePushes])
      hlt, ← hget]
  rfl

/-- Behind the stub the program has its registers back, but for the result, and its stack. -/
theorem leaveService_eq (h : DispatchReturns (enterService gs s) later result) :
    (leaveService later).registers = Function.update s.registers .rax result ∧
      (leaveService later).rsp = s.rsp ∧ (leaveService later).rip = s.registers .rcx ∧
      (leaveService later).rflags = sysretFlags (s.registers .r11) ∧
      (leaveService later).kernelGS = s.kernelGS ∧ (leaveService later).memory = later.memory := by
  have hword : ∀ i value, (servicePops.map s.registers ++ [s.rsp])[i]? = some value →
      later.memory (later.rsp + 8 * UInt64.ofNat i) = value := by
    intro i value hvalue
    have hi : i < 15 := (List.getElem?_eq_some_iff.mp hvalue).1
    rw [h.rsp_eq, h.saved i hi, enterService_saved hvalue]
  obtain ⟨hregisters, hrsp, hmemory, hgs⟩ := Machine.pops_eq (t := later) (f := s.registers)
    servicePops fun i hi => hword i _ (by
      rw [List.getElem?_append_left (by rwa [List.length_map]), List.getElem?_map,
        List.getElem?_eq_getElem hi, Option.map_some])
  -- the word above them is the program's stack pointer
  have hstack : later.memory (later.rsp + 8 * UInt64.ofNat 14) = s.rsp := hword 14 _ rfl
  refine ⟨?_, ?_, ?_, ?_, ?_, hmemory⟩
  · show (servicePops.foldl Machine.pop later).registers = _
    rw [hregisters]
    funext r
    by_cases hrax : r = .rax
    · subst hrax
      rw [Function.update_self, if_neg (by decide), h.rax_eq]
    · have hmem : r ∈ servicePops := by
        cases r <;> first | exact absurd rfl hrax | decide
      rw [Function.update_of_ne hrax, if_pos hmem]
  · show (servicePops.foldl Machine.pop later).memory (servicePops.foldl Machine.pop later).rsp = _
    rw [hmemory, hrsp]
    exact hstack
  · show (servicePops.foldl Machine.pop later).registers .rcx = _
    rw [hregisters]
    exact if_pos (by decide)
  · show sysretFlags ((servicePops.foldl Machine.pop later).registers .r11) = _
    rw [hregisters]
    exact congrArg sysretFlags (if_pos (by decide))
  · show (!(servicePops.foldl Machine.pop later).kernelGS) = _
    rw [hgs, h.kernelGS_eq, enterService_kernelGS, Bool.not_not]

end Entry

/-- `syscall` leaves the program's stack pointer and memory alone, and turns interrupts off. -/
theorem Service.call_rflags (service : Service) (syscallEntry next : UInt64) (s : Running) :
    (service.call syscallEntry next s).rflags &&& flagMask = 0 := by
  show s.rflags &&& ~~~flagMask &&& flagMask = 0
  rw [UInt64.and_assoc, UInt64.not_and_self]
  simp

/-- A C function of a program that asks for a service: `syscall_dispatch` runs on the kernel stack of
`gOSBootCPU` with interrupts off and finds the service and the function's first three arguments. When it
has returned, the program is behind its call with the result in `rax` and, but for `rcx` and `r11`, all its
other registers, its stack pointer and its flags as they were, as long as the service has not overwritten
the return address on the program's stack. What `main` returns goes the same way. -/
theorem service_call_returns (service : Service) (s : Running) (syscallEntry next gs result : UInt64)
    (later : Machine)
    (hreturns : DispatchReturns (enterService gs (service.call syscallEntry next s).toMachine) later result)
    (hkept : later.memory s.rsp = s.memory s.rsp) :
    (service.call syscallEntry next s).rflags &&& flagMask = 0 ∧
    (enterService gs (service.call syscallEntry next s).toMachine).rsp = s.memory (gs + 8) - 120 ∧
    (dispatchArguments (enterService gs (service.call syscallEntry next s).toMachine)).service =
      some service ∧
    (∃ arg4 arg5, dispatchArguments (enterService gs (service.call syscallEntry next s).toMachine) =
      ⟨service.number, s.registers .rdi, s.registers .rsi, s.registers .rdx, arg4, arg5⟩) ∧
    (leaveService later).rip = next ∧
    (leaveService later).ret.rip = s.memory s.rsp ∧
    (leaveService later).ret.rsp = s.rsp + 8 ∧
    (leaveService later).ret.registers .rax = result ∧
    (∀ r, r ≠ .rax → r ≠ .rcx → r ≠ .r11 → (leaveService later).ret.registers r = s.registers r) ∧
    (leaveService later).ret.rflags = sysretFlags s.rflags ∧
    (leaveService later).ret.kernelGS = s.kernelGS ∧
    (dispatchArguments (enterService gs
      (Service.exit.call syscallEntry next (afterMain s)).toMachine)).arg1 = s.registers .rax := by
  have hargs := dispatchArguments_enterService gs (service.call syscallEntry next s).toMachine
  obtain ⟨hregisters, hrsp, hrip, hrflags, hgs, hmemory⟩ := leaveService_eq hreturns
  have hid : (service.call syscallEntry next s).registers .rax = service.number := rfl
  refine ⟨service.call_rflags syscallEntry next s, enterService_rsp gs _, ?_, ⟨_, _, hargs⟩, hrip, ?_, ?_, ?_, ?_, hrflags,
    hgs, ?_⟩
  · rw [hargs, hid]
    cases service <;> rfl
  · show (leaveService later).memory (leaveService later).rsp = _
    rw [hmemory, hrsp]
    exact hkept
  · show (leaveService later).rsp + 8 = _
    rw [hrsp]
    rfl
  · show (leaveService later).registers .rax = _
    rw [hregisters, Function.update_self]
  · intro r hrax hrcx hr11
    show (leaveService later).registers r = _
    rw [hregisters, Function.update_of_ne hrax]
    -- `syscall` has overwritten `rcx` and `r11`, and the function has loaded `rax`
    simp [Service.call, Running.syscall, Function.update_of_ne hrax, Function.update_of_ne hrcx,
      Function.update_of_ne hr11]
  · rw [dispatchArguments_enterService]
    rfl

/-- A program that calls its function from 0x401000. -/
def smallProgram : Running where
  registers
    | .rdi => 1
    | .rsi => 0x402000
    | .rdx => 5
    | _ => 7
  rsp := 0x6FFFFF00
  memory := fun address =>
    if address = 0x6FFFFF00 then 0x401005
    else if address = 0xFFFFFFFF80102008 then 0xFFFF900000010000 else 0
  kernelGS := false
  rip := 0x401100
  rflags := 0x202

/-- A service that only has a result. -/
def withResult (entered : Machine) (result : UInt64) : Machine :=
  { entered with registers := Function.update entered.registers .rax result }

theorem dispatchReturns_withResult (entered : Machine) (result : UInt64) :
    DispatchReturns entered (withResult entered result) result :=
  ⟨rfl, rfl, rfl, fun _ _ => rfl⟩

/-- The kernel has written five characters and says so. -/
def smallResult : Machine :=
  withResult (enterService 0xFFFFFFFF80102000
    (Service.write.call 0xFFFFFFFF80100000 0x401107 smallProgram).toMachine) 5

theorem service_call_returns_write :
    (enterService 0xFFFFFFFF80102000
      (Service.write.call 0xFFFFFFFF80100000 0x401107 smallProgram).toMachine).rsp = 0xFFFF90000000FF88 ∧
      (leaveService smallResult).ret.rip = 0x401005 ∧
      (leaveService smallResult).ret.registers .rax = 5 ∧
      (leaveService smallResult).ret.registers .rsi = 0x402000 := by
  have hreturns : DispatchReturns (enterService 0xFFFFFFFF80102000
      (Service.write.call 0xFFFFFFFF80100000 0x401107 smallProgram).toMachine) smallResult 5 :=
    dispatchReturns_withResult _ 5
  obtain ⟨-, hrsp, -, -, -, hrip, -, hrax, hkeeps, -⟩ := service_call_returns .write smallProgram
    0xFFFFFFFF80100000 0x401107 0xFFFFFFFF80102000 5 smallResult hreturns (by decide)
  have haddress : smallProgram.memory smallProgram.rsp = 0x401005 := by decide
  have hrsi : smallProgram.registers .rsi = 0x402000 := rfl
  have hstack : smallProgram.memory (0xFFFFFFFF80102000 + 8) - 120 = 0xFFFF90000000FF88 := by decide
  exact ⟨hrsp.trans hstack, hrip.trans haddress, hrax, (hkeeps .rsi (by decide) (by decide) (by decide)).trans hrsi⟩

end TermOS.OS
