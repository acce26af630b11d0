import Mathlib.Computability.RegularExpressions

/-!
# The control flow of the kernel

What the kernel's functions do to the spinlocks, the interrupt flag, the stack
pointer, the GS base, the keyboard's ring buffer and the set of tasks, on every
path through them. A branch is an alternative and a loop an iteration; what a
branch tests is left open, except whether the ring buffer is empty or full. A
return in the middle of a function is an alternative with nothing after it.

## Main Definitions

* `Instruction` - what one step of a path does
* `syscallEntry`, `irqHandler`, `isrCommonStub` - the ways into the kernel
* `kernelCall` - what a kernel thread can call
-/

namespace TermOS.OS

/-- The spinlocks of the kernel, by the variables that hold them. -/
inductive OSSpinlock
  | sVMPMMLock
  | sVMVMMLock
  | sVMHeapLock
  | sOSSchedulerLock
  /-- `gIOKeyboardController.lock` -/
  | keyboardLock
  deriving DecidableEq, Repr

/-- What one step of the kernel does. -/
inductive Instruction
  /-- An instruction that touches none of what follows. -/
  | other
  /-- `pushfq; pop rflags`, and IF kept in an `OSSpinlockState` -/
  | readFlags
  | cli
  | sti
  /-- `if (state->interruptsEnabled) sti` -/
  | stiIfEnabled
  /-- `__atomic_exchange_n(&lock->lockValue, 1)` until it returns 0 -/
  | exchange (lock : OSSpinlock)
  /-- `__atomic_store_n(&lock->lockValue, 0)` -/
  | store (lock : OSSpinlock)
  /-- `int $32` -/
  | int32
  /-- `int3` -/
  | int3
  /-- `cli; hlt` for ever -/
  | die
  /-- `head != tail` of the keyboard's ring buffer fails -/
  | keyboardEmpty
  /-- `head != tail` holds, and a character is taken out -/
  | takeCharacter
  /-- `nextHead != tail` holds, and a character is put in -/
  | putCharacter
  /-- A new task enters the ring. -/
  | linkTask (isUser : Bool)
  /-- `gOSSchedulerCurrentTask->taskState = kOSProcessStateDead` -/
  | markDead
  /-- `gOSSchedulerCurrentTask = nextTask`, and its stack for `gOSBootCPU` and the TSS -/
  | switchTask
  | swapgs
  /-- `swapgs`, unless the CS of the frame on the stack is the kernel's -/
  | swapgsIfUser
  /-- `mov rsp, [gs:8]` -/
  | loadKernelStack
  /-- `pop rsp` at the end of `syscall_entry` -/
  | popUserStack
  | sysret
  /-- `mov rsp, rax` after `irq_handler_c` -/
  | loadStackPointer
  | iretq
  deriving DecidableEq, Repr

/-- The paths through a piece of code. -/
abbrev Code := RegularExpression Instruction

/-! ## Section 1: Pieces of code -/

/-- One instruction. -/
def one (i : Instruction) : Code := .char i

/-- Any number of turns of a loop. -/
def loop (body : Code) : Code := .star body

/-- Straight-line code and loops without an effect that is modelled. -/
def others : Code := loop (one .other)

/-- `OSPanic` and `OSPanicException` print, and do not come back. -/
def osPanic : Code := others * one .die

/-! ## Section 2: Spinlocks -/

section Spinlocks

variable (lock : OSSpinlock)

def osSpinlockLock : Code := one (.exchange lock)

def osSpinlockUnlock : Code := one (.store lock)

def osSpinlockLockIRQ : Code := one .readFlags * one .cli * osSpinlockLock lock

def osSpinlockUnlockIRQ : Code := osSpinlockUnlock lock * one .stiIfEnabled

end Spinlocks

/-! ## Section 3: Memory -/

namespace KernelCode

def vmPhysicalMemoryAllocatePage : Code :=
  osSpinlockLockIRQ .sVMPMMLock * others *
    -- a clear bit is found, or the bitmap has none
    (one .other * osSpinlockUnlockIRQ .sVMPMMLock + osSpinlockUnlockIRQ .sVMPMMLock)

def vmPhysicalMemoryFreePage : Code :=
  osSpinlockLockIRQ .sVMPMMLock * others * osSpinlockUnlockIRQ .sVMPMMLock

/-- One level of the walk: a missing table is allocated, and `rest` is not
reached if there is no page for it. -/
def mapLevel (rest : Code) : Code :=
  vmPhysicalMemoryAllocatePage * (1 + others * rest) + others * rest

def sVMVirtualMemoryMapPageInternal : Code := others * mapLevel (mapLevel (mapLevel others))

def sVMVirtualMemoryUnmapPageInternal : Code := others

def vmVirtualMemoryMapPage : Code :=
  osSpinlockLockIRQ .sVMVMMLock * sVMVirtualMemoryMapPageInternal * osSpinlockUnlockIRQ .sVMVMMLock

def vmVirtualMemoryUnmapPage : Code :=
  osSpinlockLockIRQ .sVMVMMLock * sVMVirtualMemoryUnmapPageInternal *
    osSpinlockUnlockIRQ .sVMVMMLock

def vmVirtualMemoryCreateAddressSpace : Code :=
  osSpinlockLockIRQ .sVMVMMLock * vmPhysicalMemoryAllocatePage *
    (osSpinlockUnlockIRQ .sVMVMMLock + others * osSpinlockUnlockIRQ .sVMVMMLock)

def vmVirtualMemorySetupUserStack : Code :=
  loop (vmPhysicalMemoryAllocatePage * (1 + osPanic) * others * vmVirtualMemoryMapPage)

def sVMHeapAllocateInternal : Code := others

def sVMHeapFreeInternal : Code := others

def sVMHeapCombineForward : Code := others

def vmHeapAllocate : Code :=
  osSpinlockLockIRQ .sVMHeapLock * sVMHeapAllocateInternal * osSpinlockUnlockIRQ .sVMHeapLock

def vmHeapFree : Code :=
  osSpinlockLockIRQ .sVMHeapLock * sVMHeapFreeInternal * osSpinlockUnlockIRQ .sVMHeapLock

def vmHeapResize : Code :=
  -- a null pointer, a size of zero
  vmHeapAllocate + vmHeapFree +
    osSpinlockLockIRQ .sVMHeapLock * others *
      -- the block is large enough, it grows forward, or it moves
      (osSpinlockUnlockIRQ .sVMHeapLock +
        sVMHeapCombineForward * osSpinlockUnlockIRQ .sVMHeapLock +
        sVMHeapAllocateInternal * (others * sVMHeapFreeInternal + 1) *
          osSpinlockUnlockIRQ .sVMHeapLock)

/-! ## Section 4: The scheduler -/

def osSchedulerYield : Code := others * one .int32

def osSchedulerBlock : Code := others * one .int32

def osSchedulerWakeup : Code :=
  osSpinlockLockIRQ .sOSSchedulerLock * others * osSpinlockUnlockIRQ .sOSSchedulerLock

def sOSSchedulerPostGarbageCollectorSignal : Code :=
  1 + osSpinlockLockIRQ .sOSSchedulerLock * others * osSpinlockUnlockIRQ .sOSSchedulerLock

def osSchedulerTerminate : Code :=
  one .markDead * osSchedulerWakeup * sOSSchedulerPostGarbageCollectorSignal * one .int32

/-- What `OSSchedulerSpawn` does once it has a task and a stack. -/
def startTask (isUser : Bool) : Code :=
  others * osSpinlockLockIRQ .sOSSchedulerLock * one (.linkTask isUser) *
    osSpinlockUnlockIRQ .sOSSchedulerLock

def osSchedulerSpawn (isUser : Bool) : Code :=
  vmHeapAllocate *
    (1 + vmHeapAllocate *
      (startTask isUser +
        -- no stack: the collector gets one chance to find one
        sOSSchedulerPostGarbageCollectorSignal * osSchedulerYield * vmHeapAllocate *
          (vmHeapFree + startTask isUser)))

def osSchedulerNext : Code :=
  -- the scheduler is not initialized yet
  1 + osSpinlockLock .sOSSchedulerLock * others *
    -- "no running tasks" is found inside the loop that looks for the next one
    loop (one .other + osPanic) * one .switchTask * osSpinlockUnlock .sOSSchedulerLock

/-- One round of `OSSchedulerGarbageCollector` over the ring. -/
def osSchedulerGarbageCollector : Code :=
  loop (one .other +
    osSpinlockLockIRQ .sOSSchedulerLock * one .other * osSpinlockUnlockIRQ .sOSSchedulerLock *
      (1 + vmHeapFree) * vmHeapFree) *
    osSchedulerYield

/-! ## Section 5: The keyboard -/

/-- The loop of `IOKeyboardGetCharacter` goes round while the buffer is empty. -/
def ioKeyboardGetCharacter : Code :=
  loop (osSpinlockLockIRQ .keyboardLock * one .keyboardEmpty * osSpinlockUnlockIRQ .keyboardLock *
    one .sti * osSchedulerYield) *
    (osSpinlockLockIRQ .keyboardLock * one .takeCharacter * osSpinlockUnlockIRQ .keyboardLock)

def ioKeyboardInterruptsHandler : Code :=
  osSpinlockLock .keyboardLock * others * (one .putCharacter + others) *
    osSpinlockUnlock .keyboardLock

/-! ## Section 6: Services -/

def hotLoad : Code :=
  -- the magic is wrong, or the segments are loaded page by page
  1 + loop (vmPhysicalMemoryAllocatePage * vmVirtualMemoryMapPage * others)

def osLoaderProcessSpawn : Code :=
  others * (1 + vmHeapAllocate *
    (1 + others * vmVirtualMemoryCreateAddressSpace * others * vmHeapAllocate *
      (vmHeapFree + others * hotLoad *
        (vmHeapFree * vmHeapFree +
          vmHeapFree * vmVirtualMemorySetupUserStack * osSchedulerSpawn true *
            (vmHeapFree + others)))))

def osServiceProcessExit : Code := others * osSchedulerTerminate

def osServiceProcessSpawn : Code := others * osLoaderProcessSpawn

def osServiceProcessWait : Code := osSchedulerBlock

def osServiceMemoryAllocate : Code :=
  -- a size of zero; else a page at a time, until one is missing
  1 + others * loop (vmPhysicalMemoryAllocatePage * vmVirtualMemoryMapPage * others) *
    (1 + vmPhysicalMemoryAllocatePage)

def osServiceIOWrite : Code := others

def osServiceIORead : Code := loop (ioKeyboardGetCharacter * others) + 1

/-- `syscall_dispatch` by the number of the service. -/
def syscallDispatch : Nat → Code
  | 0 => osServiceProcessExit
  | 1 => osServiceProcessSpawn
  | 2 => osServiceMemoryAllocate
  | 3 => osServiceIOWrite
  | 4 => osServiceIORead
  | 5 => osServiceProcessWait
  | _ => others

/-! ## Section 7: The ways into the kernel -/

/-- `syscall_entry`; the pushes and pops of the other registers are `others`. -/
def syscallEntry (id : Nat) : Code :=
  one .swapgs * others * one .loadKernelStack * others * syscallDispatch id * others *
    one .popUserStack * one .swapgs * one .sysret

/-- `irq_handler_c`: the timer asks for the next task. -/
def irqHandlerC : Nat → Code
  | 32 => others * osSchedulerNext * others
  | 33 => ioKeyboardInterruptsHandler * others
  | _ => others

/-- The stub `IRQ_HANDLER`. -/
def irqHandler (number : Nat) : Code :=
  others * one .swapgsIfUser * others * irqHandlerC number * one .loadStackPointer *
    one .swapgsIfUser * others * one .iretq

/-- `isr_handler_c` for a breakpoint, and for a fault of a user task. -/
def isrHandlerC : Nat → Code
  | 3 => others
  | _ => others * one .markDead * osServiceProcessExit * osSchedulerNext

def isrCommonStub (number : Nat) : Code :=
  others * one .swapgsIfUser * others * isrHandlerC number * one .swapgsIfUser * others * one .iretq

/-! ## Section 8: Kernel threads -/

/-- What the boot thread, `idle_task`, the collector, the kernel shell and
`init_task_entry` call. -/
def kernelCall : Code :=
  others + one .sti + one .int3 + osPanic + vmPhysicalMemoryAllocatePage +
    vmPhysicalMemoryFreePage + vmVirtualMemoryMapPage + vmVirtualMemoryUnmapPage +
    vmVirtualMemoryCreateAddressSpace + vmVirtualMemorySetupUserStack + vmHeapAllocate +
    vmHeapFree + vmHeapResize + osSchedulerSpawn false + osSchedulerSpawn true +
    osSchedulerWakeup + osSchedulerBlock + osSchedulerYield + osSchedulerTerminate +
    osSchedulerGarbageCollector + ioKeyboardGetCharacter + osLoaderProcessSpawn

end KernelCode

end TermOS.OS
