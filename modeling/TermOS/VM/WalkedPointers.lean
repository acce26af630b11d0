import TermOS.Lib.Follows
import TermOS.VM.DirectMap
import TermOS.VM.Ownership

/-!
# Kernel pointers through the loaded page tables

`VMM.lean` takes a kernel pointer back to physical memory by subtracting
`HHDM_OFFSET`. The processor does not: it walks the page tables that `CR3` holds,
which the calls themselves write. Here the functions of `VMM.c` run with the
processor's translation, and a pointer that is not mapped is a page fault. In
every run that maps and unmaps only outside the direct map the two agree, so that
the page tables refine a map for each address space.

The bitmap stays a component of its own, as in `VMM.lean`. Its pages are pages of
the direct map too (`directMap_reaches_frames`).
-/

namespace TermOS.VM

open TermOS.Lib TermOS.Kernel TermOS.Lib.TableForest VMState

/-! ## Section 1: Memory through the loaded tables -/

namespace Walked

/-- The byte at `pointer` in physical memory when `CR3` holds `root`; `none` is a page fault. -/
def translate (s : VMState) (root pointer : Nat) : Option Nat :=
  (s.walk root pointer).map fun m => m.1 + pointer % kVMPageSize

/-- The byte at `pointer` for a write; a page that is not writable faults. -/
def translateWrite (s : VMState) (root pointer : Nat) : Option Nat :=
  if s.Writable root pointer then translate s root pointer else none

/-- `pointer[index]` for a `UInt64* pointer`. -/
def load (s : VMState) (root pointer index : Nat) : Option Nat :=
  (translate s root (wrap64 (pointer + 8 * index))).map s.mem.word

/-- `pointer[index] = value` for a `UInt64* pointer`. -/
def store (s : VMState) (root pointer index value : Nat) : Option VMState :=
  (translateWrite s root (wrap64 (pointer + 8 * index))).map fun address =>
    { s with mem := s.mem.setWord address value }

/-- `MemorySet(pointer, 0, kVMPageSize)` for a `pointer` to a page. -/
def clearPage (s : VMState) (root pointer : Nat) : Option VMState :=
  (translateWrite s root pointer).map fun address =>
    { s with mem := memorySet s.mem address 0 kVMPageSize }

/-! ## Section 2: The functions of `VMM.c` -/

/-- One level of `sVMVirtualMemoryMapPageInternal`. -/
def descendOrCreate (s : VMState) (root table index flags : Nat) :
    Option (Option Nat × VMState) := do
  let tableVirt := sVMGetVirtualTable s table
  let entry ← load s root tableVirt index
  if entry &&& ptePresent = 0 then
    let (addr, s) := s.allocatePage
    if addr = 0 then some (none, s)
    else
      let s ← clearPage s root (sVMGetVirtualTable s addr)
      let s ← store s root tableVirt index (addr ||| tableFlags flags)
      let entry ← load s root tableVirt index
      some (some (pteGetAddr entry), s)
  else
    let s ← store s root tableVirt index (entry ||| (flags &&& pteUser))
    let entry ← load s root tableVirt index
    some (some (pteGetAddr entry), s)

/-- `sVMVirtualMemoryMapPageInternal` -/
def sVMVirtualMemoryMapPageInternal (s : VMState) (root pml4 phys virt flags : Nat) :
    Option (Option Nat × VMState) := do
  match ← descendOrCreate s root pml4 (vmmPML4Index virt) flags with
  | (none, s) => some (none, s)
  | (some pdpt, s) =>
    match ← descendOrCreate s root pdpt (vmmPDPTIndex virt) flags with
    | (none, s) => some (none, s)
    | (some pd, s) =>
      match ← descendOrCreate s root pd (vmmPDIndex virt) flags with
      | (none, s) => some (none, s)
      | (some pt, s) => do
        let s ← store s root (sVMGetVirtualTable s pt) (vmmPTIndex virt) (phys ||| flags)
        some (some virt, s)

/-- `sVMVirtualMemoryUnmapPageInternal` -/
def sVMVirtualMemoryUnmapPageInternal (s : VMState) (root pml4 virt : Nat) : Option VMState := do
  let pml4e ← load s root (sVMGetVirtualTable s pml4) (vmmPML4Index virt)
  if pml4e &&& ptePresent = 0 then some s
  else
    let pdpte ← load s root (sVMGetVirtualTable s (pteGetAddr pml4e)) (vmmPDPTIndex virt)
    if pdpte &&& ptePresent = 0 then some s
    else
      let pde ← load s root (sVMGetVirtualTable s (pteGetAddr pdpte)) (vmmPDIndex virt)
      if pde &&& ptePresent = 0 then some s
      else store s root (sVMGetVirtualTable s (pteGetAddr pde)) (vmmPTIndex virt) 0

/-- `VMVirtualMemoryMapPage` -/
def vmVirtualMemoryMapPage (s : VMState) (root pml4 phys virt flags : Nat) :
    Option (Option Nat × VMState) :=
  sVMVirtualMemoryMapPageInternal s root pml4 phys virt flags

/-- `VMVirtualMemoryUnmapPage` -/
def vmVirtualMemoryUnmapPage (s : VMState) (root pml4 virt : Nat) : Option VMState :=
  sVMVirtualMemoryUnmapPageInternal s root pml4 virt

/-- `for (i = 256; i < 512; i++) virt[i] = kernel_pml4_virt[i]`, `count` turns from `i`. -/
def copyKernelHalf (s : VMState) (root virt kernelVirt i : Nat) : Nat → Option VMState
  | 0 => some s
  | count + 1 => do
    let entry ← load s root kernelVirt i
    let s ← store s root virt i entry
    copyKernelHalf s root virt kernelVirt (i + 1) count

/-- `VMVirtualMemoryCreateAddressSpace`; the result 0 is failure. -/
def vmVirtualMemoryCreateAddressSpace (s : VMState) (root : Nat) : Option (Nat × VMState) := do
  let (phys, s) := s.allocatePage
  if phys = 0 then some (0, s)
  else
    let virt := physToHhdm phys
    let s ← clearPage s root virt
    let s ← copyKernelHalf s root virt (sVMGetVirtualTable s s.kernelPML4) 256 256
    some (phys, s)

end Walked

/-! ## Section 3: Where the direct map leads -/

variable {complete : Prop} {roots : List Nat} {role role' : Roles} {s s' s₀ : VMState}

/-- The address of a frame is its number times the page size. -/
theorem IsFrameAddress.frame_mul {t : Nat} (h : IsFrameAddress t) :
    t / kVMPageSize * kVMPageSize = t := by
  have haligned := h.1
  simp only [kVMPageSize]
  omega

/-- In the address space `root` the direct map's page of the frame `t` is mapped to `t'`,
if it is mapped; where the direct map is `complete` it is, and writable. -/
structure Leads (complete : Prop) (s : VMState) (root t t' : Nat) : Prop where
  aligned : t % 4096 = 0
  lt : t < 0x777F80100000
  frame_eq : ∀ {m}, s.walk root (physToHhdm t) = some m → m.1 = t'
  mapped : complete → ∃ flags, s.walk root (physToHhdm t) = some (t', flags) ∧ flags &&& pteRW ≠ 0

theorem Leads.of_walk_eq {root t t' : Nat} (h : Leads complete s root t t')
    (hwalk : s'.walk root (physToHhdm t) = s.walk root (physToHhdm t)) :
    Leads complete s' root t t' :=
  ⟨h.aligned, h.lt, by rw [hwalk]; exact h.frame_eq, by rw [hwalk]; exact h.mapped⟩

section Access

variable {root t t' : Nat}

/-- The pages of the direct map, a pointer into one of them and its offset. -/
theorem Leads.pointer (h : Leads complete s root t t') {offset : Nat} (hoffset : offset < 4096) :
    pageNumber (wrap64 (physToHhdm t + offset)) = pageNumber (physToHhdm t) ∧
      wrap64 (physToHhdm t + offset) % kVMPageSize = offset := by
  have haligned := h.aligned
  have hlt := h.lt
  rw [physToHhdm_of_lt hlt]
  simp only [wrap64, pageNumber, hhdmOffset, kVMPageSize]
  omega

theorem Leads.translate (h : Leads complete s root t t') {offset : Nat} (hoffset : offset < 4096) :
    Follows complete (Walked.translate s root (wrap64 (physToHhdm t + offset))) (t' + offset) := by
  obtain ⟨hpage, hmod⟩ := h.pointer hoffset
  have hwalk := walk_congr s root hpage
  rw [Walked.translate, hmod, hwalk]
  exact {
    eq_of_eq_some := by
      intro x hx
      obtain ⟨m, hm, rfl⟩ := Option.map_eq_some_iff.mp hx
      rw [h.frame_eq hm]
    isSome := by
      intro hcomplete
      obtain ⟨flags, hm, -⟩ := h.mapped hcomplete
      rw [hm]
      rfl }

theorem Leads.translateWrite (h : Leads complete s root t t') (hwf : WellFormed roots role s)
    (hw : LinksWritable role s) (hroot : root ∈ roots) {offset : Nat} (hoffset : offset < 4096) :
    Follows complete (Walked.translateWrite s root (wrap64 (physToHhdm t + offset)))
      (t' + offset) := by
  apply (h.translate hoffset).guard
  intro hcomplete
  obtain ⟨flags, hm, hflags⟩ := h.mapped hcomplete
  rw [← walk_congr s root (h.pointer hoffset).1] at hm
  exact hw.writable hwf hroot hm hflags

/-- A read of an entry of `t` reads that entry of `t'`. -/
theorem Leads.load (h : Leads complete s root t t') (hinit : s₀.isInitialized = true) (i : Fin 512) :
    Follows complete (Walked.load s root (sVMGetVirtualTable s₀ t) i.val) (s.entry t' i) := by
  have hi := i.isLt
  rw [sVMGetVirtualTable, hinit, if_pos rfl, VMState.entry]
  exact (h.translate (show 8 * i.val < 4096 by omega)).map s.mem.word

/-- A write to an entry of `t` writes that entry of `t'`. -/
theorem Leads.store (h : Leads complete s root t t') (hwf : WellFormed roots role s)
    (hw : LinksWritable role s) (hroot : root ∈ roots) (hinit : s₀.isInitialized = true)
    (i : Fin 512) (v : Nat) :
    Follows complete (Walked.store s root (sVMGetVirtualTable s₀ t) i.val v) (s.setEntry t' i v) := by
  have hi := i.isLt
  rw [sVMGetVirtualTable, hinit, if_pos rfl]
  exact (h.translateWrite hwf hw hroot (show 8 * i.val < 4096 by omega)).map fun address =>
    { s with mem := s.mem.setWord address v }

/-- Clearing the page of `t` clears `t'`. -/
theorem Leads.clearPage (h : Leads complete s root t t') (hwf : WellFormed roots role s)
    (hw : LinksWritable role s) (hroot : root ∈ roots) :
    Follows complete (Walked.clearPage s root (physToHhdm t)) (s.zeroPage t') := by
  have hpointer : wrap64 (physToHhdm t + 0) = physToHhdm t := by
    have hlt := h.lt
    rw [Nat.add_zero, physToHhdm_of_lt hlt, wrap64_of_lt]
    simp only [hhdmOffset]
    omega
  have htranslate := h.translateWrite hwf hw hroot (show 0 < 4096 by decide)
  rw [hpointer] at htranslate
  have hclear := htranslate.map fun address =>
    ({ s with mem := memorySet s.mem address 0 kVMPageSize } : VMState)
  rwa [Nat.add_zero, memorySet_eq_fill] at hclear

end Access

/-- The page tables are a forest. The direct map of `root` leads from each table and each free
frame to a frame, for the free frames and for all tables but the PML4s to that very frame. -/
structure Reaches (complete : Prop) (roots : List Nat) (root : Nat) (place : Nat → Nat)
    (role : Roles) (s : VMState) : Prop where
  wellFormed : WellFormed roots role s
  writable : LinksWritable role s
  isInitialized : s.isInitialized = true
  root_mem : root ∈ roots
  table : ∀ {t r p}, role t = some (.table r p) → Leads complete s root t (place t)
  inner : ∀ {t r p i}, role t = some (.table r (p ++ [i])) → place t = t
  free : ∀ {f}, s.pmm.FrameFree f → place (f * kVMPageSize) = f * kVMPageSize ∧
    Leads complete s root (f * kVMPageSize) (f * kVMPageSize)

namespace Reaches

variable {root : Nat} {place : Nat → Nat} {New : Links}

/-- As long as the walks stay, and new tables come from free frames, the direct map leads to
the same frames. -/
theorem transfer (h : Reaches complete roots root place role s) (hwf : WellFormed roots role' s')
    (hw : LinksWritable role' s') (hinit : s'.isInitialized = s.isInitialized)
    (hwalk : ∀ virt, s'.walk root virt = s.walk root virt)
    (hfree : ∀ f, s'.pmm.FrameFree f → s.pmm.FrameFree f)
    (htables : TablesFromFree role role' s) : Reaches complete roots root place role' s' := by
  have haddress : ∀ {t r p}, role' t = some (.table r p) → t / kVMPageSize * kVMPageSize = t :=
    fun ht => (hwf.table_frame ht).frame_mul
  exact {
    wellFormed := hwf
    writable := hw
    isInitialized := hinit.trans h.isInitialized
    root_mem := h.root_mem
    table := by
      intro t r p ht
      rcases htables t r p ht with hold | hf
      · exact (h.table hold).of_walk_eq (hwalk _)
      · obtain ⟨hplace, hleads⟩ := h.free hf
        rw [haddress ht] at hplace hleads
        rw [hplace]
        exact hleads.of_walk_eq (hwalk _)
    inner := by
      intro t r p i ht
      rcases htables t r _ ht with hold | hf
      · exact h.inner hold
      · rw [← haddress ht]
        exact (h.free hf).1
    free := by
      intro f hf
      obtain ⟨hplace, hleads⟩ := h.free (hfree f hf)
      exact ⟨hplace, hleads.of_walk_eq (hwalk _)⟩ }

theorem grows (h : Reaches complete roots root place role s)
    (hg : Grows roots New role s role' s') : Reaches complete roots root place role' s' :=
  h.transfer hg.wellFormed (hg.writable h.writable) hg.isInitialized_eq (hg.walk_eq h.root_mem)
    (fun _ => hg.free_of_free) fun _ _ _ ht => (hg.role_new ht).imp id And.left

theorem sameTables (h : Reaches complete roots root place role s)
    (hsame : SameTables role s s') : Reaches complete roots root place role s' := by
  refine h.transfer (hsame.wellFormed h.wellFormed) ?_ hsame.isInitialized_eq
    (hsame.walk_eq h.wellFormed h.root_mem) (fun _ => hsame.free_of_free) fun _ _ _ => .inl
  intro t r p i c ht hp hc
  rw [hsame.entry_eq ht] at hc ⊢
  exact h.writable t r p i c ht hp hc

end Reaches

/-! ## Section 4: The functions follow those of `VMM.lean` -/

section Follows

variable {root : Nat} {place : Nat → Nat}

/-- A frame that was allocated stays where the direct map leads to it. -/
theorem Reaches.allocated (h : Reaches complete roots root place role s) {f c : Nat}
    (hf : s.pmm.FrameFree f) (hc : c = f * kVMPageSize) {s₁ : VMState} (hmem : s₁.mem = s.mem)
    (hkernel : s₁.kernelPML4 = s.kernelPML4) (hinit : s₁.isInitialized = s.isInitialized)
    (hfree : ∀ g, s₁.pmm.FrameFree g ↔ s.pmm.FrameFree g ∧ g ≠ f) :
    Reaches complete roots root place role s₁ ∧ Leads complete s₁ root c c ∧ role c = none ∧
      IsFrameAddress c ∧ c ≠ 0 := by
  obtain ⟨hnone, hframe, hne⟩ := h.wellFormed.free_address hf
  rw [← hc] at hnone hframe hne
  refine ⟨h.sameTables ⟨hkernel, hinit, fun hg => ((hfree _).mp hg).1,
    fun _ => entry_congr hmem _ _⟩, ?_, hnone, hframe, hne⟩
  rw [hc]
  exact (h.free hf).2.of_walk_eq (VMState.walk_of_mem_eq hmem _ _)

/-- Clearing a page that is not a table. -/
theorem Reaches.clearPage (h : Reaches complete roots root place role s) {c : Nat}
    (hc : IsFrameAddress c) (hnone : role c = none) (hleads : Leads complete s root c c) :
    Follows complete (Walked.clearPage s root (physToHhdm c)) (s.zeroPage c) ∧
      SameTables role s (s.zeroPage c) := by
  refine ⟨hleads.clearPage h.wellFormed h.writable h.root_mem, ?_⟩
  apply SameTables.of_mem h.wellFormed
  intro x r p hx
  apply mem_zeroPage_outside s hc.1
  intro hpage
  rw [hpage, hnone] at hx
  exact absurd hx (by simp)

/-- One level from a table whose page leads to the table `t'` works on `t'`. -/
theorem descendOrCreate_follows (h : Reaches complete roots root place role s) {t t' r r' : Nat}
    {p p' : List (Fin 512)} (ht : role t = some (.table r p)) (hplace : place t = t')
    (ht' : role t' = some (.table r' p')) (hp' : p'.length < 3) (i : Fin 512) (flags : Nat) :
    Follows complete (Walked.descendOrCreate s root t i.val flags)
      (descendOrCreate s t' i.val flags) := by
  have hleads : Leads complete s root t t' := hplace ▸ h.table ht
  have hload := hleads.load h.isInitialized i
  rw [Walked.descendOrCreate]
  refine hload.bind ?_
  rcases descendOrCreate_cases h.wellFormed ht' i flags with ⟨hfull, hnone, heq⟩ |
    ⟨c, hchild, heq⟩ | ⟨f, c, s₁, hf, hcf, hnone, hmem, hkernel, hinit, hfree, halloc, heq⟩ <;>
    rw [heq]
  · -- without a free frame
    have hbit : s.entry t' i &&& ptePresent = 0 := by
      by_contra hbit
      rw [childTable, if_neg hbit] at hnone
      exact absurd hnone (by simp)
    have halloc : s.allocatePage = (0, s) := by
      rcases allocatePage_state_cases s with ⟨-, heq⟩ | ⟨f, s₁, hf, -⟩
      · exact heq
      · exact absurd hf (freeCount_eq_zero_iff.mp hfull f)
    rw [if_pos hbit, halloc]
    exact Follows.some _
  · -- along a link
    have hbit : ¬ s.entry t' i &&& ptePresent = 0 := by
      intro hbit
      rw [childTable, if_pos hbit] at hchild
      exact absurd hchild (by simp)
    have hlt : s.entry t' i ||| (flags &&& pteUser) < 2 ^ 64 :=
      or_lt_word (entry_lt s t' i) (isFlagWord_user flags).1
    have hgrows : Grows roots (fun _ _ _ => True) role s role
        (s.setEntry t' i (s.entry t' i ||| (flags &&& pteUser))) :=
      Grows.of_orUser h.wellFormed ht' hp' flags
    have hread := (hleads.of_walk_eq (hgrows.walk_eq h.root_mem _)).load h.isInitialized i
    rw [entry_setEntry_same s t' i hlt] at hread
    rw [if_neg hbit]
    refine (hleads.store h.wellFormed h.writable h.root_mem h.isInitialized i _).bind ?_
    refine hread.bind ?_
    rw [childTable, if_neg hbit] at hchild
    rw [pteGetAddr_or_user, Option.some.inj hchild]
    exact Follows.some _
  · -- to a fresh table
    have hbit : s.entry t' i &&& ptePresent = 0 := by
      by_contra hbit
      rw [childTable, if_neg hbit] at hnone
      exact absurd hnone (by simp)
    obtain ⟨h₁, hc, hcnone, hcframe, hc0⟩ := h.allocated hf hcf hmem hkernel hinit hfree
    obtain ⟨hclear, hsame⟩ := h₁.clearPage hcframe hcnone hc
    have h₂ := h₁.sameTables hsame
    have hleads₂ : Leads complete (s₁.zeroPage c) root t t' := hplace ▸ h₂.table ht
    have hlt : c ||| tableFlags flags < 2 ^ 64 :=
      or_lt_word (lt_trans hcframe.2 (by decide)) (isFlagWord_tableFlags flags).1
    have hgrows : Grows roots _ role s _ _ :=
      Grows.of_link h.wellFormed ht' hp' hnone hf hcf hmem hkernel hinit hfree flags
    have hread := (hleads.of_walk_eq (hgrows.walk_eq h.root_mem _)).load h.isInitialized i
    rw [entry_setEntry_same _ t' i hlt] at hread
    rw [if_pos hbit, halloc]
    simp only [if_neg hc0]
    rw [show sVMGetVirtualTable s₁ c = physToHhdm c by
      rw [sVMGetVirtualTable, h₁.isInitialized, if_pos rfl]]
    refine hclear.bind ?_
    refine (hleads₂.store h₂.wellFormed h₂.writable h₂.root_mem h.isInitialized i _).bind ?_
    refine hread.bind ?_
    rw [pteGetAddr_or hcframe (isFlagWord_tableFlags flags)]
    exact Follows.some _

/-- A table that the walk has linked leads to itself. -/
theorem Descended.reaches {pml4 table flags : Nat} {path done todo : List (Fin 512)}
    {i j : Fin 512} (hd : Descended roots pml4 path flags role s (done ++ [i]) table (j :: todo)
      role' s') (h : Reaches complete roots root place role s) (hroot : pml4 ∈ roots)
    (hlen : path.length = 3) :
    Reaches complete roots root place role' s' ∧ place table = table ∧
      ∃ r, role' table = some (.table r (done ++ [i])) ∧ (done ++ [i]).length < 3 := by
  have h' := h.grows hd.grows
  obtain ⟨r, hrole, hlt, -⟩ := hd.table_role hroot hlen
  exact ⟨h', h'.inner hrole, r, hrole, by omega⟩

/-- Mapping through the page of a PML4 that leads to `pml4'` maps in `pml4'`. -/
theorem mapPage_follows (h : Reaches complete roots root place role s) {pml4 pml4' : Nat}
    (hroot : pml4 ∈ roots) (hroot' : pml4' ∈ roots) (hplace : place pml4 = pml4')
    (phys virt flags : Nat) :
    Follows complete (Walked.vmVirtualMemoryMapPage s root pml4 phys virt flags)
      (vmVirtualMemoryMapPage s pml4' phys virt flags) := by
  have hlen : (upperPath virt).length = 3 := rfl
  rw [Walked.vmVirtualMemoryMapPage, Walked.sVMVirtualMemoryMapPageInternal,
    vmVirtualMemoryMapPage, sVMVirtualMemoryMapPageInternal]
  rw [show vmmPML4Index virt = (pml4Slot virt).val from rfl,
    show vmmPDPTIndex virt = (pdptSlot virt).val from rfl,
    show vmmPDIndex virt = (pdSlot virt).val from rfl,
    show vmmPTIndex virt = (ptSlot virt).val from rfl]
  have h0 : Descended roots pml4' (upperPath virt) flags role s [] pml4'
      [pml4Slot virt, pdptSlot virt, pdSlot virt] role s :=
    Descended.start h.wellFormed pml4' (upperPath virt) flags
  -- Each level follows the one of `VMM.lean`, which gives up or reaches the next table.
  refine (descendOrCreate_follows h (h.wellFormed.root_role hroot) hplace
    (h.wellFormed.root_role hroot') (by decide) (pml4Slot virt) flags).bind ?_
  rcases h0.step hroot' hlen with ⟨-, -, heq⟩ | ⟨pdpt, role₁, s₁, heq, -, h1⟩ <;> rw [heq]
  · exact Follows.some _
  obtain ⟨hr1, hself1, r1, hrole1, hlt1⟩ := h1.reaches h hroot' hlen
  refine (descendOrCreate_follows hr1 hrole1 hself1 hrole1 hlt1 (pdptSlot virt) flags).bind ?_
  simp only
  rcases h1.step hroot' hlen with ⟨-, -, heq⟩ | ⟨pd, role₂, s₂, heq, -, h2⟩ <;> rw [heq]
  · exact Follows.some _
  obtain ⟨hr2, hself2, r2, hrole2, hlt2⟩ := h2.reaches h hroot' hlen
  refine (descendOrCreate_follows hr2 hrole2 hself2 hrole2 hlt2 (pdSlot virt) flags).bind ?_
  simp only
  rcases h2.step hroot' hlen with ⟨-, -, heq⟩ | ⟨pt, role₃, s₃, heq, -, h3⟩ <;> rw [heq]
  · exact Follows.some _
  -- The last store goes to the leaf table.
  have hr3 := h.grows h3.grows
  obtain ⟨r3, hrole3, -⟩ := hr3.wellFormed.leafTable_role hroot' (show s₃.leafTable pml4' virt = some pt
    from h3.reached)
  have hself3 : place pt = pt :=
    hr3.inner (show role₃ pt = some (.table r3 ([pml4Slot virt, pdptSlot virt] ++ [pdSlot virt]))
      from hrole3)
  have hleads3 : Leads complete s₃ root pt pt := by
    have hleads := hr3.table hrole3
    rwa [hself3] at hleads
  refine (hleads3.store hr3.wellFormed hr3.writable hr3.root_mem hr3.isInitialized (ptSlot virt)
    (phys ||| flags)).bind ?_
  simp only
  rw [store_eq_setEntry rfl (hr3.wellFormed.table_frame hrole3).2]
  exact Follows.some _

/-- Unmapping through the page of a PML4 that leads to `pml4'` unmaps in `pml4'`. -/
theorem unmapPage_follows (h : Reaches complete roots root place role s) {pml4 pml4' : Nat}
    (hroot : pml4 ∈ roots) (hroot' : pml4' ∈ roots) (hplace : place pml4 = pml4') (virt : Nat) :
    Follows complete (Walked.vmVirtualMemoryUnmapPage s root pml4 virt)
      (vmVirtualMemoryUnmapPage s pml4' virt) := by
  have hwf := h.wellFormed
  have hsome : ∀ {e}, ¬ e &&& ptePresent = 0 → childTable e = some (pteGetAddr e) := by
    intro e he
    rw [childTable, if_neg he]
  -- what both read of a table that leads to itself
  have hdirect : ∀ {t r p}, role t = some (.table r p) → ∀ i : Fin 512,
      s.load (sVMGetVirtualTable s t) i.val = s.entry t i :=
    fun ht i => load_eq_entry rfl (hwf.table_frame ht).2 i
  have hself : ∀ {t r p i}, role t = some (.table r (p ++ [i])) → Leads complete s root t t := by
    intro t r p i ht
    have hleads := h.table ht
    rwa [h.inner ht] at hleads
  have hleads0 : Leads complete s root pml4 pml4' := hplace ▸ h.table (hwf.root_role hroot)
  have hr0 := hwf.root_role hroot'
  rw [Walked.vmVirtualMemoryUnmapPage, Walked.sVMVirtualMemoryUnmapPageInternal,
    vmVirtualMemoryUnmapPage, sVMVirtualMemoryUnmapPageInternal]
  rw [show vmmPML4Index virt = (pml4Slot virt).val from rfl,
    show vmmPDPTIndex virt = (pdptSlot virt).val from rfl,
    show vmmPDIndex virt = (pdSlot virt).val from rfl,
    show vmmPTIndex virt = (ptSlot virt).val from rfl]
  refine (hleads0.load h.isInitialized (pml4Slot virt)).bind ?_
  rw [hdirect hr0]
  by_cases h1 : s.entry pml4' (pml4Slot virt) &&& ptePresent = 0
  · rw [if_pos h1, if_pos h1]
    exact Follows.some _
  obtain ⟨r1, hr1, -⟩ := hwf.child_role hr0 (by decide) (hsome h1)
  rw [if_neg h1, if_neg h1, hdirect hr1]
  refine ((hself hr1).load h.isInitialized (pdptSlot virt)).bind ?_
  by_cases h2 : s.entry (pteGetAddr (s.entry pml4' (pml4Slot virt))) (pdptSlot virt) &&&
      ptePresent = 0
  · rw [if_pos h2, if_pos h2]
    exact Follows.some _
  obtain ⟨r2, hr2, -⟩ := hwf.child_role hr1 (by simp) (hsome h2)
  rw [if_neg h2, if_neg h2, hdirect hr2]
  refine ((hself hr2).load h.isInitialized (pdSlot virt)).bind ?_
  by_cases h3 : s.entry (pteGetAddr (s.entry (pteGetAddr (s.entry pml4' (pml4Slot virt)))
      (pdptSlot virt))) (pdSlot virt) &&& ptePresent = 0
  · rw [if_pos h3, if_pos h3]
    exact Follows.some _
  obtain ⟨r3, hr3, -⟩ := hwf.child_role hr2 (by simp) (hsome h3)
  rw [if_neg h3, if_neg h3, store_eq_setEntry rfl (hwf.table_frame hr3).2]
  exact (hself hr3).store hwf h.writable h.root_mem h.isInitialized (ptSlot virt) 0

/-- The copying loop, into a page `c` that is not a table. -/
theorem copyKernelHalf_follows {c k r : Nat} {p : List (Fin 512)} (hc : IsFrameAddress c)
    (hnone : role c = none) (hk : role k = some (.table r p)) (hself : place k = k)
    (hinit₀ : s₀.isInitialized = true) (n : Nat) :
    ∀ {i : Nat} {s : VMState}, Reaches complete roots root place role s →
      Leads complete s root c c → i + n ≤ 512 →
      Follows complete
        (Walked.copyKernelHalf s root (physToHhdm c) (sVMGetVirtualTable s₀ k) i n)
        (copyKernelHalf s (physToHhdm c) (sVMGetVirtualTable s₀ k) i n) := by
  have hvirt : physToHhdm c = sVMGetVirtualTable s₀ c := by
    rw [sVMGetVirtualTable, hinit₀, if_pos rfl]
  rw [hvirt]
  -- Induction on the turns left; no turn touches a table.
  induction n with
  | zero => exact fun _ _ _ => Follows.some _
  | succ n ih =>
    intro i s h hleads hle
    obtain ⟨slot, rfl⟩ : ∃ slot : Fin 512, slot.val = i := ⟨⟨i, by omega⟩, rfl⟩
    have hkleads : Leads complete s root k k := by
      have hleads := h.table hk
      rwa [hself] at hleads
    have hinit : s.isInitialized = s₀.isInitialized := h.isInitialized.trans hinit₀.symm
    rw [Walked.copyKernelHalf, copyKernelHalf,
      load_eq_entry hinit (h.wellFormed.table_frame hk).2, store_eq_setEntry hinit hc.2]
    refine (hkleads.load hinit₀ slot).bind ?_
    refine (hleads.store h.wellFormed h.writable h.root_mem hinit₀ slot _).bind ?_
    have hsame : SameTables role s (s.setEntry c slot (s.entry k slot)) := by
      apply SameTables.of_mem h.wellFormed
      intro x r p hx
      apply mem_setEntry_outside s _ _ hc.1
      intro hpage
      rw [hpage, hnone] at hx
      exact absurd hx (by simp)
    exact ih (h.sameTables hsame)
      (hleads.of_walk_eq (hsame.walk_eq h.wellFormed h.root_mem _)) (by omega)

/-- Creating an address space. -/
theorem createAddressSpace_follows (h : Reaches complete roots root place role s)
    (hself : place s.kernelPML4 = s.kernelPML4) :
    Follows complete (Walked.vmVirtualMemoryCreateAddressSpace s root)
      (vmVirtualMemoryCreateAddressSpace s) := by
  rw [Walked.vmVirtualMemoryCreateAddressSpace, vmVirtualMemoryCreateAddressSpace]
  rcases allocatePage_state_cases s with ⟨-, heq⟩ | ⟨f, s₁, hf, heq, hmem, hkernel, hinit, -, -, hfree⟩ <;>
    rw [heq]
  · exact Follows.some _
  obtain ⟨h₁, hc, hnone, hframe, hc0⟩ := h.allocated hf rfl hmem hkernel hinit hfree
  generalize f * kVMPageSize = c at *
  obtain ⟨hclear, hsame⟩ := h₁.clearPage hframe hnone hc
  have h₂ := h₁.sameTables hsame
  have hk : role s.kernelPML4 = some (.table s.kernelPML4 []) :=
    h.wellFormed.root_role h.wellFormed.kernel_root
  have hdirect : s₁.clearPage (physToHhdm c) = s₁.zeroPage c := by
    have hvirt : physToHhdm c = sVMGetVirtualTable s₁ c := by
      rw [sVMGetVirtualTable, h₁.isInitialized, if_pos rfl]
    rw [hvirt]
    exact clearPage_eq_zeroPage rfl hframe.2
  simp only [if_neg hc0, hdirect]
  refine hclear.bind ?_
  rw [zeroPage_kernelPML4, hkernel]
  exact (copyKernelHalf_follows hframe hnone hk hself h₂.isInitialized 256 h₂
    (hc.of_walk_eq (hsame.walk_eq h₁.wellFormed h₁.root_mem _)) (by decide)).bind (Follows.some _)

end Follows

end TermOS.VM
