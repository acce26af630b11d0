import TermOS.OS.OSLoaderCases
import TermOS.OS.SchedulerContext

/-!
# Spawns that find room

A spawn asks for four blocks of the heap: for the process, for its image, for the task and
for the task's stack. If a free block is large enough for all of them, and there are frames
for all pages, nothing fails: the loader returns the number of the process, and no other
task has run in the meantime.

## Main Theorems

* `osLoaderProcessSpawn_of_room` - with room and frames a program is started
* `exists_firstSpawn` - a booted kernel starts a small program
-/

namespace TermOS.OS

open TermOS.Lib TermOS.Kernel TermOS.VM TermOS.FS VMState

/-! ## Section 1: Reading the file -/

/-- What mounting makes of a regular file: it is read by `FSCPIORead`, its length
has 32 bits, and it lies in the direct map, below the heap. -/
structure ArchiveFile (k : Kernel) (executableFile : Nat) : Prop where
  readFunction : ∃ operations, (k.volume.node executableFile).operations = some operations ∧
    operations.readFunction = some .fsCPIORead
  dataLength_lt : (k.volume.node executableFile).dataLength < 2 ^ 32
  below : (k.volume.node executableFile).implementationData +
    (k.volume.node executableFile).dataLength ≤ kVMKernelHeapStart

/-- The contents of a file, by offset. -/
def Kernel.fileData (k : Kernel) (executableFile : Nat) : Memory := fun i =>
  k.scheduler.memory ((k.volume.node executableFile).implementationData + i)

section Read

variable {k k₁ k₂ : Kernel} {executablePath processName : List UInt8}
  {executableFile newProcess imageBuffer : Nat}

/-- What is held lies in the arena. -/
theorem HeapOrdered.held_bounds (h : HeapOrdered k) {pointer size : Nat}
    (hheld : (pointer, size) ∈ k.scheduler.live) :
    kVMKernelHeapStart ≤ pointer ∧ pointer + size ≤ kVMKernelHeapStart + heapArenaSize := by
  obtain ⟨bs, h⟩ := h
  obtain ⟨b, hb, -, rfl, hsize⟩ := h.held pointer size hheld
  obtain ⟨hstart, hstop⟩ := h.laid.bounds adjacency_eq hb
  unfold Block.stop at hstop
  omega

theorem readImage_memory (hfile : ArchiveFile k executableFile) (hne : executableFile ≠ 0)
    (imageBuffer : Nat) : (k.readImage executableFile imageBuffer).scheduler.memory =
      memoryCopy k.scheduler.memory imageBuffer (k.volume.node executableFile).implementationData
        (k.volume.node executableFile).dataLength := by
  obtain ⟨operations, hoperations, hread⟩ := hfile.readFunction
  have hlength := hfile.dataLength_lt
  have hwhole : ¬ (k.volume.node executableFile).dataLength <
      (0 + (k.volume.node executableFile).dataLength) % 2 ^ 64 := by omega
  show (fsVNodeRead k.volume k.scheduler.memory executableFile 0 _ imageBuffer).2 = _
  simp only [fsVNodeRead, if_neg hne, hoperations, hread, fsCPIORead, Nat.not_lt_zero, if_false,
    if_neg hwhole, Nat.add_zero]

/-- Reading a file writes to the buffer only. -/
theorem readImage_outside (k : Kernel) (executableFile imageBuffer : Nat) {x : Nat}
    (hx : x < imageBuffer ∨ imageBuffer + (k.volume.node executableFile).dataLength ≤ x) :
    (k.readImage executableFile imageBuffer).scheduler.memory x = k.scheduler.memory x := by
  show (fsVNodeRead k.volume k.scheduler.memory executableFile 0 _ imageBuffer).2 x = _
  unfold fsVNodeRead
  split
  · rfl
  cases (k.volume.node executableFile).operations with
  | none => rfl
  | some operations =>
    dsimp only
    cases operations.readFunction with
    | none => rfl
    | some function =>
      cases function
      simp only [fsCPIORead, Nat.not_lt_zero, if_false, Nat.sub_zero, ite_self]
      exact memoryCopy_outside _ _ hx

/-- The buffer of a file that was read. -/
theorem ReadsImage.bytesAt_eq (h : ReadsImage k₁ executableFile imageBuffer k₂)
    (hheap : HeapOrdered k₁) (hfile : ArchiveFile k₁ executableFile) (hne : executableFile ≠ 0)
    {i : Nat} (hi : i < (k₁.volume.node executableFile).dataLength) :
    k₂.bytesAt imageBuffer i = k₁.fileData executableFile i := by
  obtain ⟨k₀, halloc, rfl⟩ := h.exists_allocated
  have hlength := hfile.dataLength_lt
  have hbelow := hfile.below
  have hvolume := (heapOnly_allocate halloc).volume_eq
  have hmemory : ∀ x, x < kVMKernelHeapStart →
      k₀.scheduler.memory x = k₁.scheduler.memory x := fun x hx => hheap.allocate_below halloc hx
  -- the buffer is in the arena, above the file
  have hbounds : kVMKernelHeapStart ≤ imageBuffer ∧ imageBuffer +
      (k₁.volume.node executableFile).dataLength ≤ kVMKernelHeapStart + heapArenaSize := by
    have hsize : (k₁.volume.node executableFile).dataLength + 15 < 2 ^ 64 := by omega
    rcases hheap.allocate hsize with heq | ⟨pointer, k', heq, -, hordered, hlive, -⟩
    · rw [heq] at halloc
      exact absurd (Prod.mk.inj (Option.some.inj halloc)).1.symm h.imageBuffer_ne
    · rw [heq] at halloc
      obtain ⟨rfl, rfl⟩ := Prod.mk.inj (Option.some.inj halloc)
      apply hordered.held_bounds
      rw [hlive]
      exact List.mem_cons_self
  have harena : kVMKernelHeapStart + heapArenaSize ≤ 2 ^ 64 := by decide
  have hfile₀ : ArchiveFile k₀ executableFile := by
    constructor
    · rw [hvolume]
      exact hfile.readFunction
    · rw [hvolume]
      exact hlength
    · rw [hvolume]
      exact hbelow
  rw [Kernel.bytesAt, readImage_memory hfile₀ hne, hvolume, wrap64_of_lt (by omega),
    memoryCopy_eq_blit (.inr (by omega)), Memory.blit_inside _ _ (by omega) (by omega),
    Nat.add_sub_cancel_left, Kernel.fileData]
  exact hmemory _ (by omega)

/-- Creating a process leaves the files alone. -/
theorem CreatesProcess.fileData_eq
    (h : CreatesProcess k executablePath processName executableFile newProcess k₁)
    (hheap : HeapOrdered k) : HeapOrdered k₁ ∧ k₁.volume = k.volume ∧
      ∀ x, x < kVMKernelHeapStart → k₁.scheduler.memory x = k.scheduler.memory x := by
  obtain ⟨k₀, halloc, rfl⟩ := h.exists_allocated
  have hvolume := (heapOnly_allocate halloc).volume_eq
  refine ⟨?_, hvolume, fun x hx => hheap.allocate_below halloc hx⟩
  rcases hheap.allocate (show sizeofProcess + 15 < 2 ^ 64 by decide) with
    heq | ⟨pointer, k', heq, -, hordered, -⟩
  · rw [heq] at halloc
    exact absurd (Prod.mk.inj (Option.some.inj halloc)).1.symm h.newProcess_ne
  · rw [heq] at halloc
    obtain ⟨rfl, rfl⟩ := Prod.mk.inj (Option.some.inj halloc)
    exact hordered

theorem CreatesProcess.archiveFile
    (h : CreatesProcess k executablePath processName executableFile newProcess k₁)
    (hheap : HeapOrdered k) (hfile : ArchiveFile k executableFile) :
    ArchiveFile k₁ executableFile := by
  obtain ⟨-, hvolume, -⟩ := h.fileData_eq hheap
  constructor
  · rw [hvolume]
    exact hfile.readFunction
  · rw [hvolume]
    exact hfile.dataLength_lt
  · rw [hvolume]
    exact hfile.below

/-- The image that is loaded is the file. -/
theorem CreatesProcess.bytesAt_eq
    (h : CreatesProcess k executablePath processName executableFile newProcess k₁)
    (hread : ReadsImage k₁ executableFile imageBuffer k₂) (hheap : HeapOrdered k)
    (hfile : ArchiveFile k executableFile) :
    ∀ i < (k.volume.node executableFile).dataLength,
      k₂.bytesAt imageBuffer i = k.fileData executableFile i := by
  intro i hi
  obtain ⟨hheap₁, hvolume, hmemory⟩ := h.fileData_eq hheap
  have hbelow := hfile.below
  rw [hread.bytesAt_eq hheap₁ (h.archiveFile hheap hfile) h.executableFile_ne (by rwa [hvolume]),
    Kernel.fileData, Kernel.fileData, hvolume, hmemory _ (by omega)]

end Read

/-! ## Section 2: Room in the heap -/

/-- The heap is in order, and a free block has `room` bytes. -/
def HasRoom (k : Kernel) (room : Nat) : Prop :=
  ∃ bs, k.heap.Layout bs k.scheduler.live ∧ Roomy room bs

/-- What an allocation takes at most: the block, its header, and what would be too small for
another block. -/
def blockCost (size : Nat) : Nat := alignSize size + sizeofHeader + 16 + 1

section Room

variable {k k' : Kernel} {room size pointer : Nat}

theorem HasRoom.ordered (h : HasRoom k room) : HeapOrdered k := by
  obtain ⟨bs, hlayout, -⟩ := h
  exact ⟨bs, hlayout⟩

/-- An allocation returns null exactly for no bytes, or if no free block is large enough. -/
theorem HeapOrdered.allocate_null_iff (h : HeapOrdered k) (hsize : size + 15 < 2 ^ 64) :
    (∃ k', k.heapAllocate size = some (0, k')) ↔ size = 0 ∨ ¬ HasRoom k (alignSize size) := by
  by_cases hzero : size = 0
  · subst hzero
    refine ⟨fun _ => .inl rfl, fun _ => ⟨k, ?_⟩⟩
    unfold Kernel.heapAllocate VMHeap.vmHeapAllocate
    rw [VMHeap.Layout.allocateInternal_zero]
    rfl
  rw [or_iff_right hzero]
  constructor
  · rintro ⟨k', hnull⟩ ⟨bs, hlayout, hroom⟩
    obtain ⟨xs, c, ys, hfit⟩ := hroom.firstFit
    obtain ⟨heap', hsome, halloc⟩ := hlayout.allocateInternal_some hzero hfit (le_alignSize hsize)
    unfold Kernel.heapAllocate VMHeap.vmHeapAllocate at hnull
    rw [hsome, Option.map_some] at hnull
    simp only [if_neg halloc.pointer_ne] at hnull
    exact halloc.pointer_ne (Prod.mk.inj (Option.some.inj hnull)).1
  · intro hfull
    obtain ⟨bs, hlayout⟩ := h
    cases hfit : firstFit (alignSize size) bs with
    | none =>
      refine ⟨k, ?_⟩
      unfold Kernel.heapAllocate VMHeap.vmHeapAllocate
      rw [hlayout.allocateInternal_none hfit]
      rfl
    | some found =>
      obtain ⟨hsplit, hfree, hfits⟩ := firstFit_eq_some hfit
      refine absurd ⟨bs, hlayout, found.2.1, ?_, hfree, hfits⟩ hfull
      rw [hsplit]
      exact List.mem_append_right _ List.mem_cons_self

theorem HasRoom.mono {room' : Nat} (h : HasRoom k room) (hle : room' ≤ room) : HasRoom k room' := by
  obtain ⟨bs, hlayout, hroom⟩ := h
  exact ⟨bs, hlayout, hroom.mono hle⟩

/-- With room for it, an allocation succeeds. -/
theorem HasRoom.allocate (h : HasRoom k (room + blockCost size)) (hne : size ≠ 0)
    (hsize : size + 15 < 2 ^ 64) :
    ∃ pointer k', k.heapAllocate size = some (pointer, k') ∧ pointer ≠ 0 ∧ HasRoom k' room ∧
      k'.scheduler.live = (pointer, size) :: k.scheduler.live := by
  obtain ⟨bs, hlayout, hroom⟩ := h
  unfold blockCost at hroom
  obtain ⟨xs, c, ys, hfit⟩ := (hroom.mono (show alignSize size ≤ _ by omega)).firstFit
  obtain ⟨heap', hsome, halloc⟩ := hlayout.allocateInternal_some hne hfit (le_alignSize hsize)
  obtain ⟨rfl, -, -⟩ := firstFit_eq_some hfit
  have hleft : Roomy room (xs ++ (carve sizeofHeader 16 (alignSize size) c ++ ys)) :=
    (hroom.mono (by omega)).carve
  refine ⟨c.address + sizeofHeader, { k.setHeap heap' with
    scheduler := (k.setHeap heap').scheduler.heapAllocate (c.address + sizeofHeader) size },
    ?_, halloc.pointer_ne, ⟨_, halloc.layout, hleft⟩, rfl⟩
  unfold Kernel.heapAllocate VMHeap.vmHeapAllocate
  rw [hsome, Option.map_some]
  simp only [if_neg halloc.pointer_ne]

/-- Freeing loses no room. -/
theorem HasRoom.free (h : HasRoom k room) (hheld : Held k.scheduler.live pointer) :
    HasRoom (k.heapFree pointer) room := by
  obtain ⟨bs, hlayout, hroom⟩ := h
  obtain ⟨c, hc, -, rfl, -⟩ := hlayout.exists_block_of_held adjacency_eq hheld
  obtain ⟨xs, ys, rfl⟩ := List.append_of_mem hc
  obtain ⟨hfreed, -⟩ := hlayout.free adjacency_eq
  exact ⟨_, hfreed, hroom.giveBack sizeofHeader⟩

/-- Writing to what is held loses no room. -/
theorem HasRoom.of_write (h : HasRoom k room) (hheld : (pointer, size) ∈ k.scheduler.live)
    {memory : Memory} (hmemory : ∀ x, ¬ (pointer ≤ x ∧ x < pointer + size) →
      memory x = k.scheduler.memory x) :
    HasRoom { k with scheduler := { k.scheduler with memory := memory } } room := by
  obtain ⟨bs, hlayout, hroom⟩ := h
  obtain ⟨c, hc, -, rfl, hle, -⟩ := hlayout.exists_block adjacency_eq hheld
  refine ⟨bs, hlayout.write adjacency_eq hc fun x hx => hmemory x ?_, hroom⟩
  unfold Block.Holds at hx
  omega

theorem HasRoom.congr (h : HasRoom k room) (hheap : k'.heap = k.heap)
    (hlive : k'.scheduler.live = k.scheduler.live) : HasRoom k' room := by
  obtain ⟨bs, hlayout, hroom⟩ := h
  exact ⟨bs, by rw [hheap, hlive]; exact hlayout, hroom⟩

theorem root_allocate (h : k.heapAllocate size = some (pointer, k')) :
    k'.gFSVirtualFileSystemRoot = k.gFSVirtualFileSystemRoot := by
  obtain ⟨⟨address, heap⟩, -, heq⟩ := Option.map_eq_some_iff.mp h
  simp only at heq
  split at heq
  · obtain ⟨-, rfl⟩ := Prod.mk.inj heq
    rfl
  · obtain ⟨-, rfl⟩ := Prod.mk.inj heq
    rfl

/-- What `HasRoom.allocate` hands out was not in use. -/
theorem HasRoom.fresh (h : HasRoom k room) (hsize : size + 15 < 2 ^ 64)
    (halloc : k.heapAllocate size = some (pointer, k')) (hne : pointer ≠ 0) :
    ∀ block ∈ k.scheduler.live, block.1 ≠ pointer := by
  rcases h.ordered.allocate hsize with heq | ⟨pointer', k'', heq, -, -, -, hfresh⟩
  · rw [heq] at halloc
    exact absurd (Prod.mk.inj (Option.some.inj halloc)).1.symm hne
  · rw [heq] at halloc
    obtain ⟨rfl, -⟩ := Prod.mk.inj (Option.some.inj halloc)
    exact hfresh

end Room

/-! ## Section 3: The loader -/

section Loader

variable {k k₁ k₂ : Kernel} {room : Nat} {executablePath : List UInt8} {executableFile : Nat}

/-- What a spawned task costs. -/
def taskCost : Nat := blockCost stackSize + blockCost sizeofTask

/-- `task` was linked in behind the current task; otherwise the scheduler differs from `s` in the
heap's blocks and in the processes only. The block of the task was not in use. -/
structure LinksTask (s s' : SchedulerState) (task entry owner : Nat) (isUser : Bool)
    (fixedUserStackPointer : Nat) : Prop where
  fresh : ∀ block ∈ s.live, block.1 ≠ task
  live : (task, sizeofTask) ∈ s'.live ∧ s.live ⊆ s'.live
  links : ∃ (stackBaseAddress : Nat) (s₁ : SchedulerState), s₁ = { s with
      process := s₁.process
      live := s₁.live
      freed := s₁.freed
      memory := s₁.memory } ∧
    (stackBaseAddress, stackSize) ∈ s₁.live ∧
    s' = s₁.linkTask task stackBaseAddress entry owner isUser fixedUserStackPointer

/-- What was allocated before does not matter. -/
theorem LinksTask.of_allocated {s s₁ s' : SchedulerState} {task entry owner : Nat} {isUser : Bool}
    {fixedUserStackPointer : Nat} (h : LinksTask s₁ s' task entry owner isUser fixedUserStackPointer)
    (hsame : s₁ = { s with
      process := s₁.process
      live := s₁.live
      freed := s₁.freed
      memory := s₁.memory }) (hlive : s.live ⊆ s₁.live) :
    LinksTask s s' task entry owner isUser fixedUserStackPointer where
  fresh := fun block hblock => h.fresh block (hlive hblock)
  live := ⟨h.live.1, fun _ hblock => h.live.2 (hlive hblock)⟩
  links := by
    obtain ⟨stackBaseAddress, s₂, hsame₂, hheld, hlinks⟩ := h.links
    refine ⟨stackBaseAddress, s₂, ?_, hheld, hlinks⟩
    rw [hsame] at hsame₂
    exact hsame₂

/-- What the steps of the boot leave as it was: memory below the heap, and all that the loader works
on. -/
structure KeepsLoader (k k' : Kernel) : Prop where
  vm_eq : k'.vm = k.vm
  nextProcessID_eq : k'.gOSSchedulerNextProcessID = k.gOSSchedulerNextProcessID
  spaces_eq : k'.spaces = k.spaces
  below : ∀ x, x < kVMKernelHeapStart → k'.scheduler.memory x = k.scheduler.memory x

theorem KeepsLoader.trans {k k' k'' : Kernel} (h : KeepsLoader k k') (h' : KeepsLoader k' k'') :
    KeepsLoader k k'' where
  vm_eq := h'.vm_eq.trans h.vm_eq
  nextProcessID_eq := h'.nextProcessID_eq.trans h.nextProcessID_eq
  spaces_eq := h'.spaces_eq.trans h.spaces_eq
  below := fun x hx => (h'.below x hx).trans (h.below x hx)

/-- A task was linked in. -/
structure SpawnsTask (k : Kernel) (task entry owner : Nat) (isUser : Bool)
    (fixedUserStackPointer : Nat) (k' : Kernel) : Prop extends KeepsLoader k k',
    LinksTask k.scheduler k'.scheduler task entry owner isUser fixedUserStackPointer where
  volume_eq : k'.volume = k.volume
  root_eq : k'.gFSVirtualFileSystemRoot = k.gFSVirtualFileSystemRoot
  process_eq : k'.process = k.process

/-- The frame is written into the stack. -/
theorem linkTask_memory_outside (s : SchedulerState) (task entry owner : Nat) (isUser : Bool)
    (fixedUserStackPointer : Nat) {stackBaseAddress x : Nat}
    (hx : ¬ (stackBaseAddress ≤ x ∧ x < stackBaseAddress + stackSize)) :
    (s.linkTask task stackBaseAddress entry owner isUser fixedUserStackPointer).memory x =
      s.memory x := by
  unfold SchedulerState.linkTask
  dsimp only
  have hsize : 8 * 22 ≤ stackSize := by decide
  generalize htop : stackBaseAddress + stackSize = top at *
  apply pushWords_outside
  · rw [spawnFrame_length]
    omega
  · rw [spawnFrame_length]
    omega

/-- Writing a frame loses no room. -/
theorem HasRoom.linkTask (h : HasRoom k room) {call : PendingSpawn} {stackBaseAddress : Nat}
    (hheld : (stackBaseAddress, stackSize) ∈ k.scheduler.live) :
    HasRoom (k.linkTask call stackBaseAddress) room := by
  have hframe : ∀ x, ¬ (stackBaseAddress ≤ x ∧ x < stackBaseAddress + stackSize) →
      (k.linkTask call stackBaseAddress).scheduler.memory x = k.scheduler.memory x := fun x hx =>
    linkTask_memory_outside k.scheduler call.task call.entry call.owner call.isUser
      call.fixedUserStackPointer hx
  have hlive : (k.linkTask call stackBaseAddress).scheduler.live = k.scheduler.live := rfl
  have hhead : (k.linkTask call stackBaseAddress).sVMHeapListHead = k.sVMHeapListHead := rfl
  generalize k.linkTask call stackBaseAddress = k' at *
  apply (h.of_write hheld hframe).congr
  · simp only [Kernel.heap, hhead]
  · exact hlive

/-- With room for a task and its stack, it is linked in at once, and the rest of the room is left. -/
theorem HasRoom.spawnsTask (h : HasRoom k (room + taskCost)) (others : OtherTasks)
    (entry owner : Nat) (isUser : Bool) (fixedUserStackPointer : Nat) :
    ∃ task k', k.osSchedulerSpawn others entry owner isUser fixedUserStackPointer = some (task, k') ∧
      task ≠ 0 ∧ HasRoom k' room ∧
      SpawnsTask k task entry (if owner = 0 then k.scheduler.kernelProcess else owner) isUser
        fixedUserStackPointer k' := by
  rw [taskCost, ← Nat.add_assoc] at h
  obtain ⟨task, k₁, htask, hne, h₁, hlive₁⟩ := h.allocate (by decide) (by decide)
  obtain ⟨stackBaseAddress, k₂, hstack, hne', h₂, hlive₂⟩ := h₁.allocate (by decide) (by decide)
  have hheap := (heapOnly_allocate htask).trans (heapOnly_allocate hstack)
  have hkernel : k₁.scheduler.kernelProcess = k.scheduler.kernelProcess := by
    rw [(heapOnly_allocate htask).scheduler_eq]
  have hbelow : ∀ x, x < kVMKernelHeapStart → k₂.scheduler.memory x = k.scheduler.memory x :=
    fun x hx => (h₁.ordered.allocate_below hstack hx).trans (h.ordered.allocate_below htask hx)
  have hheld : (stackBaseAddress, stackSize) ∈ k₂.scheduler.live := hlive₂ ▸ List.mem_cons_self
  have hbounds := h₂.ordered.held_bounds hheld
  generalize howner : (if owner = 0 then k.scheduler.kernelProcess else owner) = owner'
  refine ⟨task, k₂.linkTask ⟨task, entry, owner', isUser, fixedUserStackPointer⟩ stackBaseAddress,
    ?_, hne, h₂.linkTask hheld, ?_⟩
  · unfold Kernel.osSchedulerSpawn
    simp only [htask, Option.bind_some, if_neg hne, hstack, if_neg hne', hkernel, howner]
  · constructor
    · constructor
      · exact hheap.vm_eq
      · exact hheap.nextProcessID_eq
      · exact hheap.spaces_eq
      · intro x hx
        have hframe := linkTask_memory_outside k₂.scheduler task entry owner' isUser
          fixedUserStackPointer (show ¬ (stackBaseAddress ≤ x ∧ x < stackBaseAddress + stackSize) by
            omega)
        exact hframe.trans (hbelow x hx)
    · constructor
      · exact h.fresh (by decide) htask hne
      · show (task, sizeofTask) ∈ k₂.scheduler.live ∧ k.scheduler.live ⊆ k₂.scheduler.live
        rw [hlive₂, hlive₁]
        exact ⟨List.mem_cons_of_mem _ List.mem_cons_self, fun block hblock =>
          List.mem_cons_of_mem _ (List.mem_cons_of_mem _ hblock)⟩
      · refine ⟨stackBaseAddress, k₂.scheduler, ?_, hheld, rfl⟩
        rw [hheap.scheduler_eq]
    · exact hheap.volume_eq
    · exact (root_allocate hstack).trans (root_allocate htask)
    · exact hheap.process_eq

/-- Creating a process with room for it. -/
theorem HasRoom.createsProcess (processName : List UInt8)
    (h : HasRoom k (room + blockCost sizeofProcess))
    (hopen : k.openPath executablePath = some executableFile) (hne : executableFile ≠ 0) :
    ∃ newProcess k₁, CreatesProcess k executablePath processName executableFile newProcess k₁ ∧
      HasRoom k₁ room ∧ k₁.scheduler.live = (newProcess, sizeofProcess) :: k.scheduler.live := by
  obtain ⟨newProcess, k₀, halloc, hprocess, h₀, hlive⟩ := h.allocate (by decide) (by decide)
  exact ⟨newProcess, _, ⟨hopen, hne, hprocess, k₀, halloc, rfl⟩, h₀, hlive⟩

/-- The heap is in order when the file is read, and the buffer is held. -/
theorem ReadsImage.ordered {imageBuffer : Nat} (h : ReadsImage k₁ executableFile imageBuffer k₂)
    (hheap : HeapOrdered k₁) (hlength : (k₁.volume.node executableFile).dataLength + 15 < 2 ^ 64) :
    HeapOrdered k₂ ∧ Held k₂.scheduler.live imageBuffer := by
  obtain ⟨k₀, halloc, rfl⟩ := h.exists_allocated
  have hvolume := (heapOnly_allocate halloc).volume_eq
  rcases hheap.allocate hlength with heq | ⟨pointer, k', heq, -, hordered, hlive, -⟩
  · rw [heq] at halloc
    exact absurd (Prod.mk.inj (Option.some.inj halloc)).1.symm h.imageBuffer_ne
  · rw [heq] at halloc
    obtain ⟨rfl, rfl⟩ := Prod.mk.inj (Option.some.inj halloc)
    have hheld : (pointer, (k₁.volume.node executableFile).dataLength) ∈ k'.scheduler.live := by
      rw [hlive]
      exact List.mem_cons_self
    obtain ⟨bs, hlayout⟩ := hordered
    obtain ⟨c, hc, -, rfl, hle, -⟩ := hlayout.exists_block adjacency_eq hheld
    refine ⟨⟨bs, hlayout.write adjacency_eq hc fun x hx => ?_⟩, List.mem_map_of_mem hheld⟩
    apply readImage_outside
    unfold Block.Holds at hx
    rw [hvolume]
    omega

/-- Reading the file with room for it, into a block that was not in use. -/
theorem HasRoom.readsImage
    (h : HasRoom k₁ (room + blockCost (k₁.volume.node executableFile).dataLength))
    (hfile : ArchiveFile k₁ executableFile)
    (hlength : (k₁.volume.node executableFile).dataLength ≠ 0) :
    ∃ imageBuffer k₂, ReadsImage k₁ executableFile imageBuffer k₂ ∧ HasRoom k₂ room ∧
      k₂.scheduler.live =
        (imageBuffer, (k₁.volume.node executableFile).dataLength) :: k₁.scheduler.live ∧
      ∀ block ∈ k₁.scheduler.live, block.1 ≠ imageBuffer := by
  have hsize := hfile.dataLength_lt
  obtain ⟨imageBuffer, k₀, halloc, hbuffer, h₀, hlive⟩ := h.allocate hlength (by omega)
  have hheld : (imageBuffer, (k₁.volume.node executableFile).dataLength) ∈ k₀.scheduler.live := by
    rw [hlive]
    exact List.mem_cons_self
  have hvolume := (heapOnly_allocate halloc).volume_eq
  refine ⟨imageBuffer, _, ⟨hbuffer, k₀, halloc, rfl⟩, ?_, hlive, h.fresh (by omega) halloc hbuffer⟩
  -- The file is written into the new block, which belongs to no one else.
  apply h₀.of_write hheld
  intro x hx
  apply readImage_outside
  rw [hvolume]
  omega

/-- A program for which there are room and frames is started, at once. -/
theorem osLoaderProcessSpawn_of_room (others : OtherTasks) (processName : List UInt8)
    (hopen : k.openPath executablePath = some executableFile) (hne : executableFile ≠ 0)
    (hfile : ArchiveFile k executableFile) (hlength : (k.volume.node executableFile).dataLength ≠ 0)
    (hroom : HasRoom k (taskCost + blockCost (k.volume.node executableFile).dataLength +
      blockCost sizeofProcess))
    {pml4 : Nat} {s : VMState} (hcreated : vmVirtualMemoryCreateAddressSpace k.vm = (pml4, s))
    (hloads : ∀ data, (∀ i < (k.volume.node executableFile).dataLength,
        data i = k.fileData executableFile i) →
      (hotLoad s ⟨pml4, kOSHeapStart⟩ data).1 ≠ 0 ∧
        (vmVirtualMemorySetupUserStack (hotLoad s ⟨pml4, kOSHeapStart⟩ data).2 pml4).1 = true) :
    ∃ r data, k.osLoaderProcessSpawn others executablePath processName = some (.ok r) ∧
      r.status = (UInt32.ofNat k.gOSSchedulerNextProcessID.toNat).toInt32 ∧ r.task ≠ 0 ∧
      (∀ i < (k.volume.node executableFile).dataLength, data i = k.fileData executableFile i) ∧
      r.kernel.vm =
        (vmVirtualMemorySetupUserStack (hotLoad s ⟨pml4, kOSHeapStart⟩ data).2 pml4).2 ∧
      (r.kernel.process r.newProcess).toOSProcess = ⟨pml4, kOSHeapStart⟩ ∧
      (r.kernel.spaces = if pml4 = 0 then k.spaces else pml4 :: k.spaces) ∧
      ∃ entry, LinksTask k.scheduler r.kernel.scheduler r.task entry r.newProcess true
        kOSUserStackTop := by
  have hheap := hroom.ordered
  obtain ⟨newProcess, k₁, hcreate, hroom₁, hlive₁⟩ := hroom.createsProcess processName hopen hne
  obtain ⟨-, hvolume₁, -⟩ := hcreate.fileData_eq hheap
  rw [← hvolume₁] at hroom₁ hlength
  obtain ⟨imageBuffer, k₂, hread, hroom₂, hlive₂, hfresh⟩ :=
    hroom₁.readsImage (hcreate.archiveFile hheap hfile) hlength
  have hheld : Held k₂.scheduler.live imageBuffer := by
    rw [hlive₂]
    exact List.mem_map_of_mem List.mem_cons_self
  obtain ⟨hentry, hstack⟩ := hloads _ (hcreate.bytesAt_eq hread hheap hfile)
  have hloaded := hcreate.loaded hread
  have hloadEntry := congrArg Prod.fst (hcreate.loadImage_eq hread)
  rw [hcreated] at hloadEntry
  have hroom₃ : HasRoom ((k₂.loadImage newProcess imageBuffer).2.heapFree imageBuffer) taskCost :=
    HasRoom.free hroom₂ hheld
  rw [← hloadEntry] at hentry
  rw [hcreate.spawn_eq, hread.spawn_eq]
  unfold Kernel.spawnImage
  simp only [if_neg hentry]
  -- of the blocks that were in use only the buffer is freed again, and it was not one of them
  have hkept : k.scheduler.live ⊆
      ((k₂.loadImage newProcess imageBuffer).2.heapFree imageBuffer).scheduler.live := by
    intro block hblock
    have hblock₁ : block ∈ k₁.scheduler.live := hlive₁ ▸ List.mem_cons_of_mem _ hblock
    refine List.mem_filter.mpr ⟨?_, by simpa using hfresh block hblock₁⟩
    show block ∈ k₂.scheduler.live
    rw [hlive₂]
    exact List.mem_cons_of_mem _ hblock₁
  generalize (k₂.loadImage newProcess imageBuffer).2.heapFree imageBuffer = k₃ at *
  -- the stack is set up, and the task is linked in
  have hprocess := hloaded.toOSProcess_eq
  have hvm := hloaded.vm_eq
  rw [hcreated] at hprocess hvm
  have hsetup : k₃.setupUserStack newProcess = (true, { k₃ with
      vm := (vmVirtualMemorySetupUserStack (hotLoad s ⟨pml4, kOSHeapStart⟩
        (k₂.bytesAt imageBuffer)).2 pml4).2 }) := by
    unfold Kernel.setupUserStack
    simp only [hprocess, hvm, hstack]
  have hroom₄ : HasRoom (k₃.setupUserStack newProcess).2 taskCost := hroom₃
  have hroom₅ : HasRoom (k₃.setupUserStack newProcess).2 (0 + taskCost) := by rwa [Nat.zero_add]
  obtain ⟨task, k₄, hspawn, htask, -, hspawned⟩ := hroom₅.spawnsTask others
    (k₂.loadImage newProcess imageBuffer).1 newProcess true kOSUserStackTop
  rw [if_neg hcreate.newProcess_ne] at hspawned
  have hprocess₄ : k₄.process = k₃.process := by
    rw [hspawned.process_eq, hsetup]
  have hspaces₄ : k₄.spaces = k₃.spaces := by
    rw [hspawned.spaces_eq, hsetup]
  have hvm₄ := hspawned.vm_eq
  have hlinks := hspawned.toLinksTask
  rw [hsetup] at hspawn hvm₄ hlinks
  refine ⟨⟨(UInt32.ofNat (k₄.process newProcess).processId).toInt32, newProcess, task, k₄⟩,
    k₂.bytesAt imageBuffer, ?_, ?_, htask, hcreate.bytesAt_eq hread hheap hfile, hvm₄, ?_, ?_,
    _, hlinks.of_allocated ?_ hkept⟩
  · unfold Kernel.startProcess
    simp only [hsetup, Bool.true_eq_false, if_false, hspawn, Option.map_some, if_neg htask]
  · show (UInt32.ofNat (k₄.process newProcess).processId).toInt32 = _
    rw [hprocess₄, hloaded.processId_eq]
  · show (k₄.process newProcess).toOSProcess = _
    rw [hprocess₄, hprocess]
  · show k₄.spaces = _
    rw [hspaces₄, hloaded.spaces_eq, hcreated]
  · show k₃.scheduler = _
    rw [hloaded.scheduler_eq]

end Loader

/-! ## Section 4: A kernel with one program -/

/-- Where the archive lies. -/
def archiveStart : Nat := hhdmOffset + 0x1000

/-- A volume whose only file is `init`. -/
def programVolume (size : Nat) : FSVolume where
  node := fun address =>
    if address = 1 then { FSVNode.zero with flags := kFSVNodeFlagDirectory, childNode := 2 }
    else if address = 2 then
      { FSVNode.zero with
        name := Memory.zeroPadded ("init".toList.map Char.toUInt8)
        flags := kFSVNodeFlagFile
        dataLength := size
        operations := some ⟨some .fsCPIORead, none⟩
        implementationData := archiveStart }
    else .zero
  allocated := 2

/-- The kernel's own task. -/
def kernelTask : Nat := 16

/-- The task of the garbage collector. -/
def collectorTask : Nat := 32

/-- The kernel after `VMHeapInitialize`, with a volume and two tasks. -/
def programKernel (vm : VMState) (program : Memory) (size : Nat) : Kernel where
  vm := vm
  scheduler :=
    { task := fun t =>
        if t = kernelTask then
          { OSTask.zero with taskState := .running, next := collectorTask, waitingForProcess := -1 }
        else if t = collectorTask then
          { OSTask.zero with taskState := .running, next := kernelTask, waitingForProcess := -1 }
        else .zero
      process := fun _ => ⟨0, vm.kernelPML4⟩
      kernelProcess := 0
      currentTask := kernelTask
      garbageCollectorTask := collectorTask
      collector := ⟨.enter, 0, 0, 0⟩
      pending := fun _ => none
      live := []
      linked := [collectorTask, kernelTask]
      freed := []
      memory := (vmHeapInitialize fun a => program (a - archiveStart)).memory
      cr3 := vm.kernelPML4
      rsp0 := 0
      kernelStackPointer := 0 }
  sVMHeapListHead := kVMKernelHeapStart
  volume := programVolume size
  gFSVirtualFileSystemRoot := 1
  process := fun _ => .zero
  gOSSchedulerNextProcessID := 1
  spaces := []

/-- No other task runs. -/
def noOtherTasks : OtherTasks where
  resume := fun _ _ => none
  meanwhile := fun h => absurd h (by simp)

section Program

variable {vm : VMState} {program : Memory} {size : Nat}

theorem programKernel_openPath (vm : VMState) (program : Memory) (size : Nat) :
    (programKernel vm program size).openPath ("init".toList.map Char.toUInt8) = some 2 := by
  rfl

theorem programKernel_archiveFile (hsize : size ≤ 2 ^ 24) :
    ArchiveFile (programKernel vm program size) 2 where
  readFunction := ⟨_, rfl, rfl⟩
  dataLength_lt := Nat.lt_of_le_of_lt hsize (by decide)
  below := by
    show archiveStart + size ≤ kVMKernelHeapStart
    have hgap : archiveStart + 2 ^ 24 ≤ kVMKernelHeapStart := by decide
    omega

theorem programKernel_fileData {i : Nat} (hi : i < 2 ^ 24) :
    (programKernel vm program size).fileData 2 i = program i := by
  have hgap : archiveStart + 2 ^ 24 ≤ kVMKernelHeapStart := by decide
  show (vmHeapInitialize fun a => program (a - archiveStart)).memory (archiveStart + i) = _
  rw [VMHeap.initialize_below _ (by omega), Nat.add_sub_cancel_left]

/-- The file is the program. -/
theorem UserProgram.programKernel (h : UserProgram program size) (hsize : size ≤ 4096) :
    UserProgram ((programKernel vm program size).fileData 2) size := by
  have hsame : ∀ x, x < size → program x = (TermOS.OS.programKernel vm program size).fileData 2 x :=
    fun x hx => (programKernel_fileData (by omega)).symm
  exact (h.congr (by omega) hsame).1

theorem UserProgram.programKernel_pages (h : UserProgram program size) (hsize : size ≤ 4096) :
    processPages ((TermOS.OS.programKernel vm program size).fileData 2) = processPages program := by
  rw [processPages, h.hotPages_congr (by omega)
    fun x hx => (programKernel_fileData (by omega)).symm, processPages]

theorem programKernel_hasRoom {room : Nat} (hroom : room ≤ heapArenaSize - sizeofHeader) :
    HasRoom (programKernel vm program size) room :=
  ⟨[VMHeap.wholeArena], VMHeap.layout_initialize _, VMHeap.wholeArena, List.mem_cons_self, rfl, hroom⟩

/-- If the program is loaded and its stack set up, it is started. -/
theorem programKernel_spawns (others : OtherTasks) (processName : List UInt8)
    (hsize : 0 < size ∧ size ≤ 4096) {pml4 : Nat} {s : VMState}
    (hcreated : vmVirtualMemoryCreateAddressSpace vm = (pml4, s)) (program : Memory)
    (hloads : ∀ data : Memory, (∀ i < size, data i = program i) →
      (hotLoad s ⟨pml4, kOSHeapStart⟩ data).1 ≠ 0 ∧
        (vmVirtualMemorySetupUserStack (hotLoad s ⟨pml4, kOSHeapStart⟩ data).2 pml4).1 = true) :
    ∃ r data, (programKernel vm program size).osLoaderProcessSpawn others
        ("init".toList.map Char.toUInt8) processName = some (.ok r) ∧
      r.status = 1 ∧ r.task ≠ 0 ∧ (∀ i < size, data i = program i) ∧
      r.kernel.vm =
        (vmVirtualMemorySetupUserStack (hotLoad s ⟨pml4, kOSHeapStart⟩ data).2 pml4).2 ∧
      (r.kernel.process r.newProcess).toOSProcess = ⟨pml4, kOSHeapStart⟩ := by
  have hdata : ∀ i < size, (programKernel vm program size).fileData 2 i = program i :=
    fun i hi => programKernel_fileData (by omega)
  have hcost : blockCost size ≤ 4096 + 128 := by
    unfold blockCost alignSize sizeofHeader
    omega
  have hroom : taskCost + blockCost size + blockCost sizeofProcess ≤
      heapArenaSize - sizeofHeader := by
    have hrest : taskCost + (4096 + 128) + blockCost sizeofProcess ≤
        heapArenaSize - sizeofHeader := by decide
    omega
  obtain ⟨r, data, hresult, hstatus, htask, hsame, hvm, hprocess, -, -⟩ :=
    osLoaderProcessSpawn_of_room others processName (programKernel_openPath vm program size)
      (by decide) (programKernel_archiveFile (by omega)) (Nat.ne_of_gt hsize.1)
      (programKernel_hasRoom hroom) hcreated
      fun data hsame => hloads data fun i hi => (hsame i hi).trans (hdata i hi)
  exact ⟨r, data, hresult, hstatus, htask, fun i hi => (hsame i hi).trans (hdata i hi), hvm, hprocess⟩

/-- The frames that a program needs at most. -/
theorem framesNeeded_le (s : VMState) (root : Nat) (pages : List Nat) :
    framesNeeded s root pages ≤ 4 * pages.length := by
  have htables : tablesNeeded s root pages ≤ (pages.map upperPath).toFinset.card * 3 :=
    tablesNeeded_le s root fun v hv => List.mem_toFinset.mpr (List.mem_map_of_mem hv)
  have hcard := List.toFinset_card_le (pages.map upperPath)
  rw [List.length_map] at hcard
  rw [framesNeeded]
  omega

/-- With frames for its pages, a program is loaded and its stack set up. -/
theorem UserProgram.loads (h : UserProgram program size) (hsize : size < 2 ^ 64)
    (hentry : (readHeader program).entryPoint ≠ 0) {spaces : List Nat} {role : Roles} {s : VMState}
    (hconsistent : Consistent spaces role s) {pml4 : Nat} (hpml4 : pml4 ∈ spaces)
    (hframes : framesNeeded s pml4 (processPages program) ≤ s.pmm.freeCount) {data : Memory}
    (hsame : ∀ i < size, data i = program i) :
    (hotLoad s ⟨pml4, kOSHeapStart⟩ data).1 ≠ 0 ∧
      (vmVirtualMemorySetupUserStack (hotLoad s ⟨pml4, kOSHeapStart⟩ data).2 pml4).1 = true := by
  have hsame' : ∀ x, x < size → program x = data x := fun x hx => (hsame x hx).symm
  have htable := h.table
  have hheader : readHeader program = readHeader data :=
    readHeader_congr fun x hx => hsame' x (by omega)
  constructor
  · rw [hotLoad]
    dsimp only
    rwa [← hheader, if_neg (fun hne => hne h.magic)]
  · have hmem : (⟨pml4, kOSHeapStart⟩ : OSProcess).physicalPML4 ∈ spaces := hpml4
    have hpages : processPages data = processPages program := by
      rw [processPages, h.hotPages_congr hsize hsame', processPages]
    rw [← hpages] at hframes
    have hstack := (setupUserStack_hotLoad_true_iff hconsistent hmem).mpr hframes
    exact hstack

/-- A booted kernel starts a small program, and has frames left. -/
theorem exists_firstSpawn (hprogram : UserProgram program size) (hsize : 0 < size ∧ size ≤ 4096)
    (hentry : (readHeader program).entryPoint ≠ 0)
    (hpages : (processPages program).length ≤ 100) (others : OtherTasks)
    (processName : List UInt8) :
    ∃ heap vm r, heapMachine.bootHeap = some (heap, vm) ∧
      LoaderReady (programKernel vm program size) ∧
      (programKernel vm program size).osLoaderProcessSpawn others
        ("init".toList.map Char.toUInt8) processName = some (.ok r) ∧
      r.status = 1 ∧ r.task ≠ 0 ∧
      (r.kernel.process r.newProcess).heapCurrentPointer = kOSHeapStart ∧
      ∀ rest : List Nat, rest.length ≤ 40 →
        framesNeeded r.kernel.vm (r.kernel.process r.newProcess).physicalPML4 rest ≤
          r.kernel.vm.pmm.freeCount := by
  -- The booted kernel, its PML4 for the process, and the frames that are left after both.
  obtain ⟨heap, vm, hboot, hcount⟩ := heapMachine_bootHeap
  have hisolated := kernelIsolated_of_bootHeap heapMachine_accepted hboot
  have hready : LoaderReady (programKernel vm program size) :=
    ⟨hisolated.1, (programKernel_hasRoom (Nat.zero_le _)).ordered⟩
  obtain ⟨pml4, s, hcreated, -, hisolated', -, hfree⟩ := hisolated.createAddressSpace (by omega)
  obtain ⟨role, hconsistent⟩ := hisolated'.1
  have hframes : framesNeeded s pml4 (processPages program) ≤ s.pmm.freeCount := by
    have hle := framesNeeded_le s pml4 (processPages program)
    omega
  -- The image asks for no more frames than there are, so the loader maps it.
  obtain ⟨r, data, hresult, hstatus, htask, hsame, hvm, hprocess⟩ :=
    programKernel_spawns others processName hsize hcreated program fun data hsame =>
      hprogram.loads (by omega) hentry hconsistent List.mem_cons_self hframes hsame
  refine ⟨heap, vm, r, hboot, hready, hresult, hstatus, htask,
    congrArg OSProcess.heapCurrentPointer hprocess, fun rest hrest => ?_⟩
  have hpml4 : (r.kernel.process r.newProcess).physicalPML4 = pml4 :=
    congrArg OSProcess.physicalPML4 hprocess
  -- The kernel's copy of the program names the same pages.
  have hdata : processPages data = processPages program := by
    rw [processPages, hprogram.hotPages_congr (by omega) fun x hx => (hsame x hx).symm, processPages]
  rw [← hdata] at hframes
  obtain ⟨-, -, hleft⟩ := processPages_granted hconsistent ⟨pml4, kOSHeapStart⟩
    List.mem_cons_self hframes
  -- What the later pages need is bounded together with the pages of the image.
  have hrest' := hleft rest
  have hle := framesNeeded_le s pml4 (processPages data ++ rest)
  rw [List.length_append, hdata] at hle
  rw [hpml4, hvm]
  simp only [hdata] at hrest' ⊢
  omega

/-- A program with one segment. -/
theorem userProgram_of_segment {segment : HOTSegment}
    (hmagic : (readHeader program).magic = hotMagic)
    (htable : hotHeaderSize + hotSegmentSize * (readHeader program).segmentsCount ≤ size)
    (hsegments : hotSegments program = [segment]) (hlow : segment.vaddr + segment.memsz ≤ 2 ^ 47) :
    UserProgram program size := by
  refine ⟨hmagic, htable, fun s hs virt hcovers => ?_⟩
  rw [hsegments, List.mem_singleton] at hs
  subst hs
  exact Nat.lt_of_lt_of_le hcovers.2 hlow

/-- A program of one page in the user half. -/
theorem userProgram_oneByteFile : UserProgram (oneByteFile 0x400000) 72 := by
  have hsegments : hotSegments (oneByteFile 0x400000) = [⟨0, 0x400000, 0, 0, 1⟩] := by
    decide +kernel
  exact userProgram_of_segment (by decide +kernel) (by decide +kernel) hsegments (by decide)

end Program

end TermOS.OS
