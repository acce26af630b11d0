import TermOS.FS.CPIOMount
import TermOS.OS.PrivateMemory
import TermOS.OS.SchedulerContext
import TermOS.OS.SpawnBuilt
import TermOS.Tools.Elf2HotLoad

/-!
# From an ELF file to a running process

A program's way through the system: `elf2hot` converts it, the archive of the
startup volume carries it, `FSCPIOMount` finds it, `OSLoaderProcessSpawn` reads
and loads it, and the task it links in starts at the program's entry point in
an address space that shows the program headers' image.
-/

namespace TermOS.OS

open TermOS.Lib TermOS.Kernel TermOS.VM VMState

/-! ## Section 1: The task that is linked in -/

/-- The task has never run, belongs to `owner`, and begins at `entry` in ring 3. -/
structure StartsAt (s : SchedulerState) (task entry owner : Nat) : Prop where
  frame : irqExit s.memory (s.task task).stackPointer = .start entry kOSUserStackTop true
  process_eq : (s.task task).process = owner
  taskState_eq : (s.task task).taskState = .running
  linked : task ∈ s.linked

section Start

variable {k k' : Kernel} {others : OtherTasks} {entry owner task : Nat}

/-- Linking a task in builds the frame that its first interrupt return takes. -/
theorem linkTask_startsAt (s : SchedulerState) (task stackBaseAddress entry owner : Nat) :
    StartsAt (s.linkTask task stackBaseAddress entry owner true kOSUserStackTop) task entry owner := by
  have hrsp : frameSize ≤ stackBaseAddress + stackSize := by
    simp only [frameSize, stackSize]
    omega
  have hframe := irqExit_spawnFrame s.memory hrsp entry kOSUserStackTop true
  have hpointer : (pushWords s.memory (stackBaseAddress + stackSize)
      (spawnFrame entry kOSUserStackTop true)).2 = stackBaseAddress + stackSize - frameSize := by
    rw [pushWords_rsp, spawnFrame_length]
    rfl
  -- the current task's link is set last, which may be the same task's
  by_cases hcurrent : task = s.currentTask
  · constructor <;> simp [SchedulerState.linkTask, SchedulerState.spawnedTask, ← hcurrent, hframe, hpointer]
  · constructor <;> simp [SchedulerState.linkTask, SchedulerState.spawnedTask,
      SchedulerState.setTask_ne _ _ hcurrent, hframe, hpointer]

/-- A task that `OSSchedulerSpawn` returns starts as it was asked to, also when
the call had to wait for its stack. -/
theorem osSchedulerSpawn_startsAt (howner : owner ≠ 0)
    (h : k.osSchedulerSpawn others entry owner true kOSUserStackTop = some (task, k'))
    (htask : task ≠ 0) : StartsAt k'.scheduler task entry owner := by
  obtain ⟨⟨task₀, k₁⟩, -, h⟩ := Option.bind_eq_some_iff.mp h
  dsimp only at h
  split at h
  · obtain ⟨rfl, -⟩ := Prod.mk.inj (Option.some.inj h)
    exact absurd rfl htask
  · obtain ⟨⟨stackBaseAddress, k₂⟩, -, h⟩ := Option.bind_eq_some_iff.mp h
    simp only at h
    split at h
    · -- the call that yielded goes on with a second allocation
      obtain ⟨k₃, -, hretry⟩ := Option.bind_eq_some_iff.mp h
      obtain ⟨⟨stackBaseAddress', k₄⟩, -, hretry⟩ := Option.map_eq_some_iff.mp hretry
      simp only at hretry
      split at hretry
      · obtain ⟨rfl, -⟩ := Prod.mk.inj hretry
        exact absurd rfl htask
      · obtain ⟨rfl, rfl⟩ := Prod.mk.inj hretry
        exact linkTask_startsAt _ _ _ _ _
    · obtain ⟨rfl, rfl⟩ := Prod.mk.inj (Option.some.inj h)
      exact linkTask_startsAt _ _ _ _ _

/-- The process that a successful spawn returns was created, read and loaded, and
its task starts at the entry point that the loader found. -/
theorem exists_entry_of_started {executablePath processName : List UInt8} {r : SpawnResult}
    (hresult : k.osLoaderProcessSpawn others executablePath processName = some (.ok r))
    (hstarted : r.task ≠ 0) :
    ∃ executableFile k₁ imageBuffer k₂,
      CreatesProcess k executablePath processName executableFile r.newProcess k₁ ∧
      ReadsImage k₁ executableFile imageBuffer k₂ ∧
      StartsAt r.kernel.scheduler r.task (k₂.loadImage r.newProcess imageBuffer).1 r.newProcess := by
  rcases osLoaderProcessSpawn_cases hresult with ⟨-, heq⟩ | ⟨_, _, -, -, -, heq⟩ |
    ⟨file, newProcess, k₁, hcreate, hspawn⟩
  · obtain rfl := Except.ok.inj heq
    exact absurd rfl hstarted
  · obtain rfl := Except.ok.inj heq
    exact absurd rfl hstarted
  rcases spawnFile_cases hspawn with ⟨_, -, heq⟩ | ⟨imageBuffer, k₂, hread, hspawn⟩
  · obtain rfl := Except.ok.inj heq
    exact absurd rfl hstarted
  rcases spawnImage_cases hspawn with ⟨-, heq⟩ | ⟨-, hspawn⟩
  · obtain rfl := Except.ok.inj heq
    exact absurd rfl hstarted
  rcases startProcess_cases hspawn with ⟨-, heq⟩ | ⟨-, task, k₄, htask, ⟨-, heq⟩ | ⟨hne, heq⟩⟩
  · exact absurd heq (by simp)
  · obtain rfl := Except.ok.inj heq
    exact absurd rfl hstarted
  · obtain rfl := Except.ok.inj heq
    exact ⟨file, k₁, imageBuffer, k₂, hcreate, hread,
      osSchedulerSpawn_startsAt hcreate.newProcess_ne htask hne⟩

end Start

end TermOS.OS

namespace TermOS.Tools

open TermOS.Lib TermOS.Kernel TermOS.VM TermOS.FS TermOS.OS VMState

/-! ## Section 2: The image that an ELF file describes -/

theorem ProgramHeader.meetsPage_iff {ph : ProgramHeader} {page : Nat} :
    ph.MeetsPage page ↔ 0 < ph.pMemsz.toNat ∧ ph.pVaddr.toNat / 4096 ≤ page ∧
      page ≤ (ph.pVaddr.toNat + ph.pMemsz.toNat - 1) / 4096 := by
  constructor
  · rintro ⟨virt, ⟨hle, hlt⟩, rfl⟩
    omega
  · rintro ⟨hpos, hfirst, hlast⟩
    refine ⟨max ph.pVaddr.toNat (page * 4096), ⟨le_max_left _ _, ?_⟩, ?_⟩ <;> omega

instance (ph : ProgramHeader) (page : Nat) : Decidable (ph.MeetsPage page) :=
  decidable_of_iff _ ProgramHeader.meetsPage_iff.symm

/-- The byte at an address of the program: in the pages that a loadable segment
meets, a byte of the file or zero. -/
def Elf.image (elf : Elf) (buffer : ByteVec) (virt : Nat) : Option UInt8 :=
  (elf.loadSegments.find? fun ph => ph.MeetsPage (virt / 4096)).map fun ph =>
    if ph.pVaddr.toNat ≤ virt ∧ virt < ph.pVaddr.toNat + ph.pFilesz.toNat then
      buffer.bytes.getD (ph.pOffset.toNat + (virt - ph.pVaddr.toNat)) 0
    else 0

theorem hotImage_eq_image {elf : Elf} {buffer : ByteVec} (h : elf.Loadable buffer) (rest : Memory)
    {virt : Nat} (hvirt : virt < 2 ^ 47) :
    ((hotImage (Memory.ofBytes (elf.hotFile buffer) rest) (pageNumber virt)).map
      fun bytes => bytes (virt % 4096)) = elf.image buffer virt := by
  rw [Elf.image]
  cases hfind : elf.loadSegments.find? fun ph => ph.MeetsPage (virt / 4096) with
  | none =>
    have hnone : ¬ (hotImage (Memory.ofBytes (elf.hotFile buffer) rest) (pageNumber virt)).isSome := by
      rw [hotImage_isSome_iff h hvirt]
      rintro ⟨ph, hph, hmeets⟩
      exact List.find?_eq_none.mp hfind ph hph (decide_eq_true hmeets)
    rw [Option.not_isSome_iff_eq_none.mp hnone]
    rfl
  | some ph =>
    have hmeets : ph.MeetsPage (virt / 4096) := by simpa using List.find?_some hfind
    rw [hotImage_byte h (List.mem_of_find?_eq_some hfind) hmeets, Option.map_some]

/-! ## Section 3: The startup volume -/

/-- The kernel's root is what `FSCPIOMount` made of a newc archive in memory below
the heap, and the archive is still there. -/
structure StartupVolume (k : Kernel) (base : Nat) (entries : List NewcEntry) (trailer : NewcEntry)
    (rest : List UInt8) : Prop where
  valid : ∀ e ∈ entries, e.Valid
  trailer_name : trailer.name = trailerName
  holds : k.scheduler.memory.Holds base (newcArchive entries trailer rest)
  below : base + (newcArchive entries trailer rest).length ≤ kVMKernelHeapStart
  mounted : ∃ vmHeapAllocate m fuel, m.Holds base (newcArchive entries trailer rest) ∧
    AllocationsSucceed vmHeapAllocate (entries.length + 1) ∧ entries.length < fuel ∧
    fsCPIOMount vmHeapAllocate m base (newcArchive entries trailer rest).length fuel =
      some (.ok (k.gFSVirtualFileSystemRoot, k.volume))

section Volume

variable {k : Kernel} {base : Nat} {entries before after : List NewcEntry}
  {first trailer : NewcEntry} {rest : List UInt8}

/-- The first entry of a name is the file that its path opens, with its content
as the file's bytes. -/
theorem StartupVolume.openPath (h : StartupVolume k base entries trailer rest)
    (hentries : entries = before ++ first :: after)
    (hbefore : ∀ other ∈ before, other.name ≠ first.name) :
    ∃ file, k.openPath ('/'.toUInt8 :: first.name) = some file ∧ file ≠ 0 ∧ ArchiveFile k file ∧
      (k.volume.node file).dataLength = first.content.length ∧
      ∀ i, i < first.content.length → k.fileData file i = first.content.getD i 0 := by
  obtain ⟨vmHeapAllocate, m, fuel, hm, hallocate, hfuel, hmount⟩ := h.mounted
  have hend : base + (newcArchive entries trailer rest).length < 2 ^ 64 :=
    Nat.lt_of_le_of_lt h.below (by decide)
  obtain ⟨volume, tail, hmount', hmounted⟩ :=
    fsCPIOMount_mounted h.valid h.trailer_name hm hend hallocate hfuel
  -- the mount is a function, so this is the kernel's volume
  obtain ⟨hroot, hvolume⟩ :=
    Prod.mk.inj (Except.ok.inj (Option.some.inj (hmount.symm.trans hmount')))
  rw [← hvolume] at hmounted
  have hmem : first ∈ entries := hentries ▸ List.mem_append_right _ List.mem_cons_self
  have hpathFuel : entries.length < k.volume.allocated + 1 := by
    rw [hmounted.allocated]
    omega
  obtain ⟨file, -, hne, hstored, hopen⟩ :=
    hmounted.openPath hm hallocate h.valid hentries hbefore hpathFuel
  have hdescribes := hstored.describes k.scheduler.memory h.holds
  have hlength := (h.valid first hmem).length_content
  have hbelow := hstored.below
  refine ⟨file, by rw [Kernel.openPath, hroot, hopen], hne, ?_, hdescribes.dataLength, ?_⟩
  · exact {
      readFunction := ⟨gFSCPIOOperations, hdescribes.operations, rfl⟩
      dataLength_lt := by rw [hdescribes.dataLength]; exact hlength
      below := by
        rw [hdescribes.dataLength]
        exact hbelow.trans h.below }
  · intro i hi
    have hbyte := hdescribes.content i _ (List.getElem?_eq_getElem hi)
    rw [Kernel.fileData, hbyte, List.getD_eq_getElem?_getD, List.getElem?_eq_getElem hi,
      Option.getD_some]

end Volume

/-! ## Section 4: The program runs -/

/-- The user stack is not part of the program. -/
def InUserStack (virt : Nat) : Prop := kVMUserStackTop - kVMUserStackSize ≤ virt ∧ virt < kVMUserStackTop

/-- After the stack was set up, the rest of the user half shows the image that was
loaded before. -/
theorem userByte_setupUserStack {spaces : List Nat} {role : Roles} {s : VMState} {pml4 : Nat}
    {image : UserImage} (h : Holds spaces role s pml4 image) (hpml4 : pml4 ∈ spaces)
    (henough : framesNeeded s pml4 userStackPages ≤ s.pmm.freeCount) {virt : Nat}
    (hvirt : virt < 2 ^ 47) (hstack : ¬ InUserStack virt) :
    userByte (vmVirtualMemorySetupUserStack s pml4).2 pml4 virt =
      (image (pageNumber virt)).map fun bytes => bytes (virt % 4096) := by
  obtain ⟨role', hgranted, -⟩ := setupUserStack_granted h.consistent hpml4 henough
  have hlow := lowHalf_of_lt hvirt
  have hother : ∀ page ∈ userStackPages, pageNumber virt ≠ pageNumber page := by
    intro page hpage hsame
    obtain ⟨halign, hfirst, hlast⟩ := mem_userStackPages.mp hpage
    rw [pageNumber_of_lt hvirt, pageNumber_of_lt (by omega)] at hsame
    apply hstack
    simp only [InUserStack, kVMUserStackTop, kVMUserStackSize]
    omega
  have hwalk := hgranted.walk_other hother
  cases himage : image (pageNumber virt) with
  | none =>
    rw [userByte, hwalk, h.unmapped hlow himage]
    rfl
  | some bytes =>
    obtain ⟨frame, hframe, hrole, hbytes⟩ := h.mapped hlow himage
    have hfloor := walk_floor hframe
    rw [userByte, hwalk, hframe, Option.map_some, Option.map_some]
    apply congrArg some
    rw [hgranted.mem_eq (by rw [hfloor, hrole])]
    exact hbytes _ (Nat.mod_lt _ (by decide))

/-- Every byte of the stack is mapped. -/
theorem isSome_userByte_stack {spaces : List Nat} {role : Roles} {s : VMState} {pml4 : Nat}
    {image : UserImage} (h : Holds spaces role s pml4 image) (hpml4 : pml4 ∈ spaces)
    (henough : framesNeeded s pml4 userStackPages ≤ s.pmm.freeCount) {virt : Nat}
    (hstack : InUserStack virt) :
    (userByte (vmVirtualMemorySetupUserStack s pml4).2 pml4 virt).isSome := by
  obtain ⟨role', hgranted, -⟩ := setupUserStack_granted h.consistent hpml4 henough
  simp only [InUserStack, kVMUserStackTop, kVMUserStackSize] at hstack
  obtain ⟨frame, hwalk, -⟩ := hgranted.granted (virt / 4096 * 4096)
    (mem_userStackPages.mpr ⟨by omega, by omega, by omega⟩)
  have hpage : pageNumber virt = pageNumber (virt / 4096 * 4096) := by
    rw [pageNumber_of_lt (by omega), pageNumber_of_lt (by omega)]
    omega
  rw [userByte, walk_congr _ pml4 hpage, hwalk]
  rfl

/-- The task that was started begins at the ELF file's entry point, in an address space that shows,
outside the user stack, exactly the image of the ELF file. -/
structure RunsElf (elf : Elf) (buffer : ByteVec) (processID : UInt32) (r : SpawnResult) : Prop where
  status_eq : r.status = processID.toInt32
  task_ne : r.task ≠ 0
  starts : StartsAt r.kernel.scheduler r.task elf.entry.toNat r.newProcess
  stack : ∀ virt, InUserStack virt →
    (userByte r.kernel.vm (r.kernel.process r.newProcess).physicalPML4 virt).isSome
  image : ∀ virt, virt < 2 ^ 47 → ¬ InUserStack virt →
    userByte r.kernel.vm (r.kernel.process r.newProcess).physicalPML4 virt = elf.image buffer virt

/-- A file that is the output of the converter is started, when there are room and frames for it. -/
theorem spawn_runsElf (parse : ByteVec → Option Elf) (buffer : ByteVec) (elf : Elf)
    (hparse : parse buffer = some elf) (h : elf.Loadable buffer) (hentry : elf.entry ≠ 0)
    (others : OtherTasks) (k : Kernel) (hconsistent : ∃ role, Consistent k.spaces role k.vm)
    {base : Nat} {entries before after : List NewcEntry} {first trailer : NewcEntry}
    {rest : List UInt8} (hvolume : StartupVolume k base entries trailer rest)
    (hentries : entries = before ++ first :: after)
    (hbefore : ∀ other ∈ before, other.name ≠ first.name)
    (hcontent : elf2hot parse buffer = some first.content)
    (hroom : HasRoom k (taskCost + blockCost first.content.length + blockCost sizeofProcess))
    (hframes : framesNeeded (vmVirtualMemoryCreateAddressSpace k.vm).2
      (vmVirtualMemoryCreateAddressSpace k.vm).1 (elf.pages ++ userStackPages) ≤
        (vmVirtualMemoryCreateAddressSpace k.vm).2.pmm.freeCount)
    (processName : List UInt8) :
    ∃ r, k.osLoaderProcessSpawn others ('/'.toUInt8 :: first.name) processName = some (.ok r) ∧
      RunsElf elf buffer k.gOSSchedulerNextProcessID r ∧ ∃ entry,
        LinksTask k.scheduler r.kernel.scheduler r.task entry r.newProcess true kOSUserStackTop := by
  obtain ⟨file, hopen, hne, hfile, hlength, hbytes⟩ := hvolume.openPath hentries hbefore
  -- the file is the converter's output, whatever follows it in memory
  have hhot : first.content = elf.hotFile buffer :=
    Option.some.inj (hcontent.symm.trans (elf2hot_eq_some hparse h.inBounds))
  have hdata : ∀ data : Memory, (∀ i < (k.volume.node file).dataLength, data i = k.fileData file i) →
      data = Memory.ofBytes (elf.hotFile buffer) data := by
    intro data hsame
    funext i
    rw [Memory.ofBytes]
    by_cases hi : i < first.content.length
    · rw [hsame i (by rwa [hlength]), hbytes i hi, ← hhot, List.getD_eq_getElem?_getD,
        List.getElem?_eq_getElem hi, Option.getD_some, Option.getD_some]
    · rw [← hhot, List.getElem?_eq_none (by omega), Option.getD_none]
  have hloadEntry : ∀ (s : VMState) (process : OSProcess) (rest : Memory),
      (hotLoad s process (Memory.ofBytes (elf.hotFile buffer) rest)).1 = elf.entry.toNat := by
    intro s process rest
    obtain ⟨hmagic, hentryPoint, -⟩ := readHeader_hotFile elf buffer rest
    simp only [hotLoad, hmagic, hentryPoint, ne_eq, not_true_eq_false, if_false]
  -- the new address space
  rcases hcreated : vmVirtualMemoryCreateAddressSpace k.vm with ⟨pml4, s⟩
  simp only [hcreated] at hframes
  obtain ⟨role, hconsistent⟩ := hconsistent
  rcases createAddressSpace_cases hconsistent.wellFormed hconsistent.isInitialized with
    ⟨hfull, heq⟩ | ⟨c, s', heq, hc0, hadd⟩
  · -- without a frame there is none for the stack either
    rw [hcreated] at heq
    obtain ⟨-, rfl⟩ := Prod.mk.inj heq
    rw [framesNeeded, List.length_append, hfull, userStackPages_eq] at hframes
    simp at hframes
  rw [hcreated] at heq
  obtain ⟨rfl, rfl⟩ := Prod.mk.inj heq
  have h₁ := hconsistent.addsRoot hadd
  have hspace : (⟨pml4, kOSHeapStart⟩ : OSProcess).physicalPML4 ∈ pml4 :: k.spaces :=
    List.mem_cons_self
  have hpages : ∀ rest : Memory, processPages (Memory.ofBytes (elf.hotFile buffer) rest) =
      elf.pages ++ userStackPages := by
    intro rest
    rw [processPages, hotPages_hotFile h rest]
  obtain ⟨r, data, hresult, hstatus, htask, hsame, hvm, hprocess, -, hlinks⟩ :=
    osLoaderProcessSpawn_of_room others processName hopen hne hfile
      (by
        rw [hlength, hhot, Elf.hotFile, List.length_append, length_header_bytes]
        exact Nat.ne_of_gt (Nat.add_pos_left (by decide) _))
      (by rwa [hlength]) hcreated (by
        intro data hsame
        rw [hdata data hsame, hloadEntry]
        refine ⟨fun hzero => hentry (UInt64.toNat_inj.mp hzero), ?_⟩
        apply (setupUserStack_hotLoad_true_iff h₁ hspace).mpr
        rwa [hpages])
  have hpml4 : (r.kernel.process r.newProcess).physicalPML4 = pml4 :=
    congrArg OSProcess.physicalPML4 hprocess
  -- the image, and then the stack's frames
  rw [← hpages data, ← hdata data hsame, processPages] at hframes
  have hload : framesNeeded s pml4 (hotPages data) ≤ s.pmm.freeCount :=
    (framesNeeded_append_le s pml4 _ _).trans hframes
  have hfresh : ∀ virt, ¬ KernelHalf virt → s.walk pml4 virt = none := fun _ => hadd.walk_new
  obtain ⟨role', hholds⟩ : ∃ role', Holds (pml4 :: k.spaces) role'
      (hotLoad s ⟨pml4, kOSHeapStart⟩ data).2 pml4 (hotImage data) :=
    hotLoad_holds ⟨_, h₁⟩ hspace hfresh hload
  obtain ⟨-, -, hleft⟩ := hotLoad_granted h₁ hspace hload
  have hstackFrames := hleft userStackPages
  simp only at hholds hstackFrames
  have hframes' : framesNeeded (hotLoad s ⟨pml4, kOSHeapStart⟩ data).2 pml4 userStackPages ≤
      (hotLoad s ⟨pml4, kOSHeapStart⟩ data).2.pmm.freeCount := by omega
  refine ⟨r, hresult, ⟨?_, htask, ?_, fun virt hstack => ?_, fun virt hvirt hstack => ?_⟩, hlinks⟩
  · rw [hstatus, UInt32.ofNat_toNat]
  · -- the entry point that the task got is the one that the loader returned
    obtain ⟨file', k₁, imageBuffer, k₂, hcreate, hread, hstarts⟩ :=
      exists_entry_of_started hresult htask
    obtain rfl : file = file' := Option.some.inj (hopen.symm.trans hcreate.openPath_eq)
    have hload := congrArg Prod.fst (hcreate.loadImage_eq hread)
    have hread' := hcreate.bytesAt_eq hread hroom.ordered hfile
    rw [hdata _ hread', hloadEntry] at hload
    simp only at hload
    rwa [hload] at hstarts
  · rw [hpml4, hvm]
    exact isSome_userByte_stack hholds List.mem_cons_self hframes' hstack
  · rw [hpml4, hvm, ← hotImage_eq_image h data hvirt, ← hdata data hsame]
    exact userByte_setupUserStack hholds List.mem_cons_self hframes' hvirt hstack

/-- A program that was converted by `elf2hot` and put into the archive under some
name starts when that name is spawned: with room in the heap and frames for its
pages, the call returns the process number, and links in a task that begins at
the ELF file's entry point, in an address space that shows, outside the user
stack, exactly the image of the ELF file. -/
theorem elf_runs (parse : ByteVec → Option Elf) (buffer : ByteVec) (elf : Elf)
    (hparse : parse buffer = some elf) (h : elf.Loadable buffer) (hentry : elf.entry ≠ 0)
    (others : OtherTasks) (k : Kernel) (hconsistent : ∃ role, Consistent k.spaces role k.vm)
    {base : Nat} {entries before after : List NewcEntry} {first trailer : NewcEntry}
    {rest : List UInt8} (hvolume : StartupVolume k base entries trailer rest)
    (hentries : entries = before ++ first :: after)
    (hbefore : ∀ other ∈ before, other.name ≠ first.name)
    (hcontent : elf2hot parse buffer = some first.content)
    (hroom : HasRoom k (taskCost + blockCost first.content.length + blockCost sizeofProcess))
    (hframes : framesNeeded (vmVirtualMemoryCreateAddressSpace k.vm).2
      (vmVirtualMemoryCreateAddressSpace k.vm).1 (elf.pages ++ userStackPages) ≤
        (vmVirtualMemoryCreateAddressSpace k.vm).2.pmm.freeCount)
    (processName : List UInt8) :
    ∃ r, k.osLoaderProcessSpawn others ('/'.toUInt8 :: first.name) processName = some (.ok r) ∧
      r.status = k.gOSSchedulerNextProcessID.toInt32 ∧ r.task ≠ 0 ∧
      StartsAt r.kernel.scheduler r.task elf.entry.toNat r.newProcess ∧
      (∀ virt, InUserStack virt →
        (userByte r.kernel.vm (r.kernel.process r.newProcess).physicalPML4 virt).isSome) ∧
      ∀ virt, virt < 2 ^ 47 → ¬ InUserStack virt →
        userByte r.kernel.vm (r.kernel.process r.newProcess).physicalPML4 virt =
          elf.image buffer virt := by
  obtain ⟨r, hresult, hruns, -⟩ := spawn_runsElf parse buffer elf hparse h hentry others k hconsistent
    hvolume hentries hbefore hcontent hroom hframes processName
  exact ⟨r, hresult, hruns.status_eq, hruns.task_ne, hruns.starts, hruns.stack, hruns.image⟩

/-- The small program as the one file of an archive. -/
def elfEntry : NewcEntry :=
  plainEntry ("init".toList.map Char.toUInt8) (smallElf.hotFile smallBuffer) 1 0x81ED

/-- A kernel that has the archive in its memory and `volume` at its root. -/
def elfKernel (vm : VMState) (volume : FSVolume) (root : Nat) : Kernel :=
  { programKernel vm (Memory.zeroPadded (newcArchive [elfEntry] (plainEntry trailerName [] 0 0) []))
      0 with
    volume := volume
    gFSVirtualFileSystemRoot := root }

theorem elfEntry_valid : elfEntry.Valid :=
  ⟨by decide, by decide, by decide, by decide, by decide +kernel⟩

theorem length_elfArchive :
    (newcArchive [elfEntry] (plainEntry trailerName [] 0 0) []).length ≤ 4096 := by
  decide +kernel

/-- It can be mounted. -/
theorem exists_startupVolume (vm : VMState) : ∃ volume root,
    StartupVolume (elfKernel vm volume root) archiveStart [elfEntry] (plainEntry trailerName [] 0 0)
      [] := by
  have hlength := length_elfArchive
  have hvalid : ∀ e ∈ [elfEntry], e.Valid := by
    intro e he
    rw [List.mem_singleton.mp he]
    exact elfEntry_valid
  generalize hkernel : programKernel vm
    (Memory.zeroPadded (newcArchive [elfEntry] (plainEntry trailerName [] 0 0) [])) 0 = kernel
  have hholds : kernel.scheduler.memory.Holds archiveStart
      (newcArchive [elfEntry] (plainEntry trailerName [] 0 0) []) := by
    intro i b hb
    have hi := (List.getElem?_eq_some_iff.mp hb).1
    have hlt : i < 2 ^ 24 := by omega
    rw [← hkernel]
    calc (programKernel vm _ 0).fileData 2 i = _ := programKernel_fileData hlt
      _ = b := by rw [Memory.zeroPadded, hb, Option.getD_some]
  have hallocate : AllocationsSucceed (fun n => 512 * (n + 1)) ([elfEntry].length + 1) := by
    constructor
    · intro i _
      show 512 * (i + 1) ≠ 0
      omega
    · intro i _ j hj
      show 512 * (j + 1) ≠ 512 * (i + 1)
      omega
  have hend : archiveStart + (newcArchive [elfEntry] (plainEntry trailerName [] 0 0) []).length ≤
      kVMKernelHeapStart :=
    (Nat.add_le_add_left hlength _).trans (show archiveStart + 4096 ≤ kVMKernelHeapStart by decide)
  obtain ⟨volume, tail, hmount, -⟩ := fsCPIOMount_mounted hvalid rfl hholds
    (Nat.lt_of_le_of_lt hend (by decide)) hallocate (show [elfEntry].length < 2 by decide)
  refine ⟨volume, 512 * (0 + 1), hvalid, rfl, ?_, hend, _, _, _, hholds, hallocate, ?_, hmount⟩
  · rw [elfKernel, hkernel]
    exact hholds
  · decide

theorem elf_runs_small : ∃ heap vm volume root r, heapMachine.bootHeap = some (heap, vm) ∧
    (elfKernel vm volume root).osLoaderProcessSpawn noOtherTasks ('/'.toUInt8 :: elfEntry.name)
      elfEntry.name = some (.ok r) ∧
    r.status = 1 ∧ StartsAt r.kernel.scheduler r.task 0x400FFE r.newProcess ∧
    userByte r.kernel.vm (r.kernel.process r.newProcess).physicalPML4 0x402010 = some 0x2A := by
  obtain ⟨heap, vm, hboot, hcount⟩ := heapMachine_bootHeap
  have hisolated := kernelIsolated_of_bootHeap heapMachine_accepted hboot
  obtain ⟨volume, root, hvolume⟩ := exists_startupVolume vm
  obtain ⟨pml4, s, hcreated, -, -, -, hfree⟩ := hisolated.createAddressSpace (by omega)
  have hpages : smallElf.pages = [0x400000, 0x402000] := by decide +kernel
  have hframes : framesNeeded (vmVirtualMemoryCreateAddressSpace vm).2
      (vmVirtualMemoryCreateAddressSpace vm).1 (smallElf.pages ++ userStackPages) ≤
        (vmVirtualMemoryCreateAddressSpace vm).2.pmm.freeCount := by
    have hle := framesNeeded_le s pml4 (smallElf.pages ++ userStackPages)
    rw [hcreated]
    rw [hpages, userStackPages_eq] at hle ⊢
    simp only [List.length_append, List.length_cons, List.length_nil] at hle
    simp only
    omega
  have hcontent : elf2hot (fun _ => some smallElf) smallBuffer = some elfEntry.content :=
    elf2hot_eq_some rfl smallElf_loadable.inBounds
  have hroom : HasRoom (elfKernel vm volume root)
      (taskCost + blockCost elfEntry.content.length + blockCost sizeofProcess) :=
    @programKernel_hasRoom vm _ 0 _ (by decide +kernel)
  obtain ⟨r, hresult, hstatus, -, hstarts, -, himage⟩ := elf_runs (fun _ => some smallElf) smallBuffer
    smallElf rfl smallElf_loadable (by decide) noOtherTasks (elfKernel vm volume root) hisolated.1
    hvolume (List.nil_append _).symm (by simp) hcontent hroom hframes elfEntry.name
  refine ⟨heap, vm, volume, root, r, hboot, hresult, hstatus, hstarts, ?_⟩
  rw [himage 0x402010 (by decide) (by simp only [InUserStack]; decide)]
  decide +kernel

end TermOS.Tools
