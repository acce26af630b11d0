import TermOS.VM.FrameCount

/-!
# Memory that early boot dereferences

Until `VMLoadCR3` the kernel runs on the page tables of `entry.asm`, which identity-map
1 GiB. `VMPhysicalMemoryInitialize` reaches the bitmap by its physical address, and
`VMVirtualMemoryInitialize` the PML4 and the tables that it creates. Neither looks whether
these lie in the first GiB: the bitmap is put where the memory map has room first, and
tables take the lowest free frames, as many as there are to take.

## Main Theorems

* `staysIdentityMapped_iff` - early boot stays in the identity map exactly if the bitmap ends
  there and the frames there are enough for all tables
-/

namespace TermOS.VM

open TermOS.Lib TermOS.Kernel TermOS.Lib.TableForest VMState

/-! ## Section 1: The page tables of `entry.asm` -/

/-- `PAGE_HUGE` -/
def pageHuge : Nat := 1 <<< 7

/-- `.fill_pd_loop`: the last `rbx` entries of `pd_table`, from the address `rcx` on. -/
def fillPdLoop (rcx : Nat) : Nat → List Nat
  | 0 => []
  | rbx + 1 => (rcx ||| (ptePresent ||| pteRW ||| pageHuge)) :: fillPdLoop (rcx + 0x200000) rbx

/-- `pd_table` -/
def pdTable : List Nat := fillPdLoop 0 512

/-- The physical address that the page tables of `entry.asm` give. Slots 0 and 511 of
`pml4_table` link `pdpt_table`, whose slots 0 and 510 link `pd_table`. -/
def entryTranslate (virt : Nat) : Option Nat :=
  if (vmmPML4Index virt = 0 ∨ vmmPML4Index virt = 511) ∧
      (vmmPDPTIndex virt = 0 ∨ vmmPDPTIndex virt = 510) then
    pdTable[vmmPDIndex virt]?.map fun entry => entry / 0x200000 * 0x200000 + virt % 0x200000
  else none

/-- A pointer to this address reaches the memory at this address. -/
def IdentityMapped (address : Nat) : Prop := entryTranslate address = some address

instance (address : Nat) : Decidable (IdentityMapped address) :=
  inferInstanceAs (Decidable (_ = _))

theorem getElem?_fillPdLoop (rbx : Nat) {rcx i : Nat} (h : i < rbx) :
    (fillPdLoop rcx rbx)[i]? =
      some ((rcx + i * 0x200000) ||| (ptePresent ||| pteRW ||| pageHuge)) := by
  induction rbx generalizing rcx i with
  | zero => exact absurd h (Nat.not_lt_zero i)
  | succ rbx ih =>
    cases i with
    | zero => simp [fillPdLoop]
    | succ i =>
      rw [fillPdLoop, List.getElem?_cons_succ, ih (Nat.lt_of_succ_lt_succ h)]
      congr 2
      omega

/-- An entry of `pd_table` maps 2 MiB of memory to themselves. -/
theorem pdTable_base {i : Nat} (h : i < 512) :
    pdTable[i]?.map (fun entry => entry / 0x200000 * 0x200000) = some (i * 0x200000) := by
  have hor : i * 0x200000 ||| (ptePresent ||| pteRW ||| pageHuge) = i * 0x200000 + 0x83 := by
    rw [Nat.mul_comm, show 0x200000 = 2 ^ 21 from rfl,
      Nat.two_pow_add_eq_or_of_lt (show 0x83 < 2 ^ 21 by decide)]
    rfl
  rw [pdTable, getElem?_fillPdLoop 512 h, Nat.zero_add, Option.map_some, hor, Option.some.injEq]
  omega

/-- The identity map is the first GiB. -/
theorem identityMapped_iff {address : Nat} : IdentityMapped address ↔ address < 2 ^ 30 := by
  have hbase : pdTable[vmmPDIndex address]?.map
      (fun entry => entry / 0x200000 * 0x200000 + address % 0x200000) =
        some (vmmPDIndex address * 0x200000 + address % 0x200000) := by
    have hpd := congrArg (Option.map (· + address % 0x200000)) (pdTable_base (vmmPDIndex_lt address))
    rwa [Option.map_map, Option.map_some] at hpd
  unfold IdentityMapped entryTranslate
  rw [hbase, vmmPML4Index_eq, vmmPDPTIndex_eq, vmmPDIndex_eq]
  constructor
  · intro h
    split at h
    · have heq := Option.some.inj h
      omega
    · exact absurd h (by simp)
  · intro h
    rw [if_pos ⟨.inl (by omega), .inl (by omega)⟩, Option.some.injEq]
    omega

/-! ## Section 2: What the code dereferences -/

/-- `size` bytes at a pointer. -/
structure Access where
  pointer : Nat
  size : Nat
  deriving DecidableEq, Repr

def Access.IdentityMapped (a : Access) : Prop := ∀ k < a.size, VM.IdentityMapped (a.pointer + k)

/-- `VMPhysicalMemoryInitialize`: `MemorySet` over the bitmap, then one byte for each
`BITMAP_SET` and `BITMAP_UNSET`. -/
def physicalMemoryInitializeAccesses (memoryMap : List OSMemoryDescriptor) (image : KernelImage) :
    List Access :=
  match bitmapHostDescriptor memoryMap with
  | none => []
  | some host =>
    let bitmapStart := host.physicalStart
    let bitmapEnd := wrap64 (bitmapStart + bitmapSize memoryMap)
    ⟨bitmapStart, bitmapSize memoryMap⟩ ::
      (initializeOperations memoryMap image bitmapStart bitmapEnd).map
        fun operation => ⟨bitmapStart + bitmapByteIndex operation.address, 1⟩

/-- One level of `sVMVirtualMemoryMapPageInternal`: the slot, and a new table, which is
cleared. `VMPhysicalMemoryAllocatePage` reads no memory but the bitmap again. -/
def descendOrCreateAccesses (s : VMState) (table index : Nat) : List Access :=
  let tableVirt := sVMGetVirtualTable s table
  let slot : Access := ⟨wrap64 (tableVirt + 8 * index), 8⟩
  if s.load tableVirt index &&& ptePresent = 0 then
    let (addr, s) := s.allocatePage
    if addr = 0 then [slot] else [slot, ⟨sVMGetVirtualTable s addr, kVMPageSize⟩]
  else [slot]

/-- `sVMVirtualMemoryMapPageInternal` -/
def mapPageAccesses (s : VMState) (pml4 virt flags : Nat) : List Access :=
  descendOrCreateAccesses s pml4 (vmmPML4Index virt) ++
    match descendOrCreate s pml4 (vmmPML4Index virt) flags with
    | (none, _) => []
    | (some pdpt, s) =>
      descendOrCreateAccesses s pdpt (vmmPDPTIndex virt) ++
        match descendOrCreate s pdpt (vmmPDPTIndex virt) flags with
        | (none, _) => []
        | (some pd, s) =>
          descendOrCreateAccesses s pd (vmmPDIndex virt) ++
            match descendOrCreate s pd (vmmPDIndex virt) flags with
            | (none, _) => []
            | (some pt, s) => [⟨wrap64 (sVMGetVirtualTable s pt + 8 * vmmPTIndex virt), 8⟩]

/-- The mapping loops. -/
def mapPagesAccesses (pml4 flags : Nat) : VMState → List (Nat × Nat) → List Access
  | _, [] => []
  | s, page :: rest => mapPageAccesses s pml4 page.2 flags ++
      mapPagesAccesses pml4 flags (vmVirtualMemoryMapPage s pml4 page.1 page.2 flags).2 rest

/-- `sVMVirtualMemoryUnmapPageInternal` -/
def unmapPageAccesses (s : VMState) (pml4 virt : Nat) : List Access :=
  let slot (table index : Nat) : Access := ⟨wrap64 (sVMGetVirtualTable s table + 8 * index), 8⟩
  let pml4e := s.load (sVMGetVirtualTable s pml4) (vmmPML4Index virt)
  slot pml4 (vmmPML4Index virt) ::
    if pml4e &&& ptePresent = 0 then []
    else
      let pdpte := s.load (sVMGetVirtualTable s (pteGetAddr pml4e)) (vmmPDPTIndex virt)
      slot (pteGetAddr pml4e) (vmmPDPTIndex virt) ::
        if pdpte &&& ptePresent = 0 then []
        else
          let pde := s.load (sVMGetVirtualTable s (pteGetAddr pdpte)) (vmmPDIndex virt)
          slot (pteGetAddr pdpte) (vmmPDIndex virt) ::
            if pde &&& ptePresent = 0 then [] else [slot (pteGetAddr pde) (vmmPTIndex virt)]

/-- `VMVirtualMemoryInitialize` up to `VMLoadCR3`. -/
def virtualMemoryInitializeAccesses (mem : Memory) (pmm : VMPhysicalMemory) (layout : BootLayout)
    (image : KernelImage) : List Access :=
  let (phys, s) := VMState.allocatePage ⟨mem, pmm, 0, false⟩
  let s := { s with kernelPML4 := phys }
  let s := s.clearPage phys
  let pages := bootPages layout image s.pmm.totalMemorySize
  ⟨phys, kVMPageSize⟩ :: (mapPagesAccesses s.kernelPML4 pteKernelData s pages ++
    unmapPageAccesses (mapPages s.kernelPML4 pteKernelData s pages) s.kernelPML4 layout.stackGuard)

/-- What `VMPhysicalMemoryInitialize` and `VMVirtualMemoryInitialize` dereference before the
new page tables are loaded. -/
def Machine.earlyAccesses (m : Machine) : List Access :=
  match vmPhysicalMemoryInitialize m.memoryMap m.image with
  | none => []
  | some pmm => physicalMemoryInitializeAccesses m.memoryMap m.image ++
      virtualMemoryInitializeAccesses m.memory pmm m.layout m.image

/-- All of it is identity-mapped. -/
def Machine.StaysIdentityMapped (m : Machine) : Prop :=
  ∀ a ∈ m.earlyAccesses, a.IdentityMapped

/-! ## Section 3: Frames that are taken -/

/-- `s'` has taken frames of `s`, the lowest ones, and dereferenced them. -/
structure Takes (s : VMState) (accesses : List Access) (s' : VMState) : Prop where
  isInitialized_eq : s'.isInitialized = s.isInitialized
  free_of_free : ∀ {f}, s'.pmm.FrameFree f → s.pmm.FrameFree f
  lowest : ∀ {f g}, s.pmm.FrameFree f → ¬ s'.pmm.FrameFree f → s'.pmm.FrameFree g → f < g
  accessed : ∀ {f}, s.pmm.FrameFree f → ¬ s'.pmm.FrameFree f →
    ⟨f * kVMPageSize, kVMPageSize⟩ ∈ accesses

theorem Takes.of_pmm_eq {s s' : VMState} (accesses : List Access) (hpmm : s'.pmm = s.pmm)
    (hinit : s'.isInitialized = s.isInitialized) : Takes s accesses s' where
  isInitialized_eq := hinit
  free_of_free := fun hf => by rwa [hpmm] at hf
  lowest := fun hf hnot _ => absurd (by rwa [hpmm]) hnot
  accessed := fun hf hnot => absurd (by rwa [hpmm]) hnot

theorem Takes.trans {s s' s'' : VMState} {accesses accesses' : List Access}
    (h : Takes s accesses s') (h' : Takes s' accesses' s'') :
    Takes s (accesses ++ accesses') s'' where
  isInitialized_eq := h'.isInitialized_eq.trans h.isInitialized_eq
  free_of_free := fun hf => h.free_of_free (h'.free_of_free hf)
  lowest := by
    intro f g hf hnot hg
    by_cases hf' : s'.pmm.FrameFree f
    · exact h'.lowest hf' hnot hg
    · exact h.lowest hf hf' (h'.free_of_free hg)
  accessed := by
    intro f hf hnot
    by_cases hf' : s'.pmm.FrameFree f
    · exact List.mem_append_right _ (h'.accessed hf' hnot)
    · exact List.mem_append_left _ (h.accessed hf hf')

theorem Takes.mono {s s' : VMState} {accesses accesses' : List Access} (h : Takes s accesses s')
    (hsub : accesses ⊆ accesses') : Takes s accesses' s' :=
  ⟨h.isInitialized_eq, h.free_of_free, h.lowest, fun hf hnot => hsub (h.accessed hf hnot)⟩

theorem Takes.of_same {s s' s'' : VMState} {accesses : List Access} (h : Takes s accesses s')
    (hpmm : s''.pmm = s'.pmm) (hinit : s''.isInitialized = s'.isInitialized) :
    Takes s accesses s'' := by
  have htrans := h.trans (Takes.of_pmm_eq [] hpmm hinit)
  rwa [List.append_nil] at htrans

/-- An allocated frame is the lowest one; the caller clears it. -/
theorem takes_allocatePage (s : VMState) :
    Takes s [⟨s.allocatePage.1, kVMPageSize⟩] s.allocatePage.2 := by
  rcases allocatePage_cases s.pmm with ⟨-, heq⟩ | ⟨f, hf, hlow, haddr, -, -, -, hfree⟩
  · exact Takes.of_pmm_eq _ (congrArg Prod.snd heq) rfl
  · have hfree' : ∀ g, s.allocatePage.2.pmm.FrameFree g ↔ s.pmm.FrameFree g ∧ g ≠ f := hfree
    have htaken : ∀ {g}, s.pmm.FrameFree g → ¬ s.allocatePage.2.pmm.FrameFree g → g = f := by
      intro g hg hnot
      by_contra hne
      exact hnot ((hfree' g).mpr ⟨hg, hne⟩)
    exact {
      isInitialized_eq := rfl
      free_of_free := fun hg => ((hfree' _).mp hg).1
      lowest := by
        intro g g' hg hnot hg'
        obtain rfl := htaken hg hnot
        obtain ⟨hfree, hne⟩ := (hfree' _).mp hg'
        by_contra hle
        exact hlow g' (by omega) hfree
      accessed := by
        intro g hg hnot
        obtain rfl := htaken hg hnot
        rw [List.mem_singleton]
        exact congrArg (Access.mk · kVMPageSize) haddr.symm }

/-- Address 0 is no frame that could be allocated. -/
theorem takes_of_null {s : VMState} (hzero : ¬ s.pmm.FrameFree 0) (hnull : s.allocatePage.1 = 0)
    (accesses : List Access) : Takes s accesses s.allocatePage.2 := by
  rcases allocatePage_cases s.pmm with ⟨-, heq⟩ | ⟨f, hf, -, haddr, -⟩
  · exact Takes.of_pmm_eq _ (congrArg Prod.snd heq) rfl
  · have hf0 : f = 0 := by
      have hprod : f * kVMPageSize = 0 := haddr.symm.trans hnull
      exact (Nat.mul_eq_zero.mp hprod).resolve_right (by decide)
    exact absurd (hf0 ▸ hf) hzero

theorem takes_descendOrCreate {s : VMState} (hinit : s.isInitialized = false)
    (hzero : ¬ s.pmm.FrameFree 0) (table index flags : Nat) :
    Takes s (descendOrCreateAccesses s table index) (descendOrCreate s table index flags).2 := by
  have halloc := takes_allocatePage s
  have hnull := takes_of_null hzero
  unfold descendOrCreate descendOrCreateAccesses
  generalize s.allocatePage = result at halloc hnull ⊢
  obtain ⟨addr, s₁⟩ := result
  have hnotInit : ∀ a, sVMGetVirtualTable s₁ a = a := by
    intro a
    rw [sVMGetVirtualTable, halloc.isInitialized_eq, hinit, if_neg (by simp)]
  simp only [hnotInit]
  by_cases hempty : s.load (sVMGetVirtualTable s table) index &&& ptePresent = 0
  · rw [if_pos hempty, if_pos hempty]
    by_cases haddr : addr = 0
    · rw [if_pos haddr, if_pos haddr]
      exact hnull haddr _
    · rw [if_neg haddr, if_neg haddr]
      exact (halloc.mono (by simp)).of_same rfl rfl
  · rw [if_neg hempty, if_neg hempty]
    exact Takes.of_pmm_eq _ rfl rfl

theorem takes_mapPage {s : VMState} (hinit : s.isInitialized = false)
    (hzero : ¬ s.pmm.FrameFree 0) (pml4 phys virt flags : Nat) :
    Takes s (mapPageAccesses s pml4 virt flags) (vmVirtualMemoryMapPage s pml4 phys virt flags).2 := by
  have h1 := takes_descendOrCreate hinit hzero pml4 (vmmPML4Index virt) flags
  unfold vmVirtualMemoryMapPage sVMVirtualMemoryMapPageInternal mapPageAccesses
  generalize descendOrCreate s pml4 (vmmPML4Index virt) flags = level1 at h1 ⊢
  obtain ⟨_ | pdpt, s₁⟩ := level1
  · exact h1.mono (by simp)
  have h2 := takes_descendOrCreate (h1.isInitialized_eq.trans hinit)
    (fun hf => hzero (h1.free_of_free hf)) pdpt (vmmPDPTIndex virt) flags
  simp only
  generalize descendOrCreate s₁ pdpt (vmmPDPTIndex virt) flags = level2 at h2 ⊢
  replace h2 := h1.trans h2
  obtain ⟨_ | pd, s₂⟩ := level2
  · exact h2.mono (by simp)
  have h3 := takes_descendOrCreate (h2.isInitialized_eq.trans hinit)
    (fun hf => hzero (h2.free_of_free hf)) pd (vmmPDIndex virt) flags
  simp only
  generalize descendOrCreate s₂ pd (vmmPDIndex virt) flags = level3 at h3 ⊢
  replace h3 := h2.trans h3
  obtain ⟨_ | pt, s₃⟩ := level3
  · exact h3.mono (by simp)
  · refine (h3.mono fun a ha => ?_).of_same rfl rfl
    simp only [List.mem_append] at ha ⊢
    rcases ha with (ha | ha) | ha
    · exact .inl ha
    · exact .inr (.inl ha)
    · exact .inr (.inr (.inl ha))

theorem takes_mapPages (pml4 flags : Nat) (pages : List (Nat × Nat)) :
    ∀ {s : VMState}, s.isInitialized = false → ¬ s.pmm.FrameFree 0 →
      Takes s (mapPagesAccesses pml4 flags s pages) (mapPages pml4 flags s pages) := by
  induction pages with
  | nil => exact fun _ _ => Takes.of_pmm_eq _ rfl rfl
  | cons page rest ih =>
    intro s hinit hzero
    have hpage := takes_mapPage hinit hzero pml4 page.1 page.2 flags
    rw [mapPages, List.foldl_cons, ← mapPages, mapPagesAccesses]
    exact hpage.trans (ih (hpage.isInitialized_eq.trans hinit)
      fun hf => hzero (hpage.free_of_free hf))

/-! ## Section 4: Tables that are dereferenced -/

/-- The access is in a table that a walk from `root` comes to. -/
def Access.InTable (a : Access) (s : VMState) (root : Nat) : Prop :=
  ∃ is t, is.length ≤ 3 ∧ follow childTable s.entry root is = some t ∧
    t ≤ a.pointer ∧ a.pointer + a.size ≤ t + kVMPageSize

section Tables

variable {roots : List Nat} {role role' : Roles} {s s' : VMState} {root t flags : Nat} {a : Access}
  {path done todo : List (Fin 512)} {i : Fin 512} {New : Links}

theorem Access.InTable.of_follow_keep (h : a.InTable s root)
    (hkeep : ∀ {is c}, is.length ≤ 3 → follow childTable s.entry root is = some c →
      follow childTable s'.entry root is = some c) : a.InTable s' root := by
  obtain ⟨is, t, hlen, hfollow, hbounds⟩ := h
  exact ⟨is, t, hlen, hkeep hlen hfollow, hbounds⟩

/-- A slot of a table that the walk comes to. -/
theorem inTable_slot (hinit : s.isInitialized = false) (ht : t < 2 ^ 52)
    (hlen : done.length ≤ 3) (hreached : follow childTable s'.entry root done = some t)
    (i : Fin 512) : (⟨wrap64 (sVMGetVirtualTable s t + 8 * i.val), 8⟩ : Access).InTable s' root := by
  have hpointer : wrap64 (sVMGetVirtualTable s t + 8 * i.val) = t + 8 * i.val := by
    rw [sVMGetVirtualTable, hinit, if_neg (by simp), wrap64_of_lt]
    omega
  have hi := i.isLt
  refine ⟨done, t, hlen, hreached, ?_, ?_⟩ <;> simp only [hpointer, kVMPageSize] <;> omega

/-- One level dereferences the slot, and the new table if it links one. -/
theorem mem_descendOrCreateAccesses (h : WellFormed roots role s) {r : Nat} {p : List (Fin 512)}
    (ht : role t = some (.table r p)) (hinit : s.isInitialized = false) (flags : Nat)
    (ha : a ∈ descendOrCreateAccesses s t i.val) :
    a = ⟨wrap64 (sVMGetVirtualTable s t + 8 * i.val), 8⟩ ∨
      ∃ c, (descendOrCreate s t i.val flags).1 = some c ∧ a = ⟨c, kVMPageSize⟩ := by
  have hload : s.load (sVMGetVirtualTable s t) i.val = s.entry t i :=
    load_eq_entry rfl (h.table_frame ht).2 i
  have hcases := descendOrCreate_cases h ht i flags
  have hnotInit : ∀ addr, sVMGetVirtualTable s.allocatePage.2 addr = addr := by
    intro addr
    rw [sVMGetVirtualTable, allocatePage_isInitialized, hinit, if_neg (by simp)]
  unfold descendOrCreateAccesses at ha
  simp only [hload] at ha
  by_cases hempty : s.entry t i &&& ptePresent = 0
  · rw [if_pos hempty] at ha
    simp only [hnotInit] at ha
    split at ha
    · exact .inl (List.mem_singleton.mp ha)
    · next hne =>
      rcases List.mem_cons.mp ha with ha | ha
      · exact .inl ha
      · refine .inr ?_
        rcases hcases with ⟨hfull, -⟩ | ⟨c, hc, -⟩ | ⟨f, c, s₁, -, -, -, -, -, -, -, halloc, heq⟩
        · -- without a free frame there is no new table
          rcases allocatePage_state_cases s with ⟨-, heq⟩ | ⟨f, -, hf, -⟩
          · exact absurd (congrArg Prod.fst heq) hne
          · exact absurd hf (freeCount_eq_zero_iff.mp hfull f)
        · rw [childTable, if_pos hempty] at hc
          exact absurd hc (by simp)
        · refine ⟨c, congrArg Prod.fst heq, ?_⟩
          rw [List.mem_singleton.mp ha, halloc]
  · rw [if_neg hempty] at ha
    exact .inl (List.mem_singleton.mp ha)

/-- One level of the walk dereferences tables of the state that it leads to. -/
theorem Descended.level (h : Descended roots root path flags role s done t (i :: todo) role' s')
    (hroot : root ∈ roots) (hlen : path.length = 3) (hinit : s'.isInitialized = false) :
    (descendOrCreate s' t i.val flags = (none, s') ∧
      ∀ a ∈ descendOrCreateAccesses s' t i.val, a.InTable s' root) ∨
    ∃ c role'' s'', descendOrCreate s' t i.val flags = (some c, s'') ∧
      Grows roots (LinksAlong root path) role' s' role'' s'' ∧
      Descended roots root path flags role s (done ++ [i]) c todo role'' s'' ∧
      ∀ a ∈ descendOrCreateAccesses s' t i.val, a.InTable s'' root := by
  obtain ⟨r, hrole, hlen', -⟩ := h.table_role hroot hlen
  have hwf := h.grows.wellFormed
  have ht := (hwf.table_frame hrole).2
  rcases h.step hroot hlen with ⟨-, -, heq⟩ | ⟨c, role'', s'', heq, hg, hnext⟩
  · refine .inl ⟨heq, fun a ha => ?_⟩
    rcases mem_descendOrCreateAccesses hwf hrole hinit flags ha with rfl | ⟨c, hc, -⟩
    · exact inTable_slot hinit ht (by omega) h.reached i
    · rw [heq] at hc
      exact absurd hc (by simp)
  · refine .inr ⟨c, role'', s'', heq, hg, hnext, fun a ha => ?_⟩
    rcases mem_descendOrCreateAccesses hwf hrole hinit flags ha with rfl | ⟨c', hc, rfl⟩
    · exact inTable_slot hinit ht (by omega) (hg.follow_keep hroot (by omega) h.reached) i
    · rw [heq] at hc
      obtain rfl := Option.some.inj hc
      exact ⟨done ++ [i], c, by simp; omega, hnext.reached, Nat.le_refl _, Nat.le_refl _⟩

/-- Mapping a page dereferences tables only. -/
theorem mapPageAccesses_inTable (h : WellFormed roots role s) (hroot : root ∈ roots)
    (hinit : s.isInitialized = false) {phys : Nat} (virt : Nat) (hv : phys ||| flags < 2 ^ 64) :
    ∀ a ∈ mapPageAccesses s root virt flags,
      a.InTable (vmVirtualMemoryMapPage s root phys virt flags).2 root := by
  have hlen : (upperPath virt).length = 3 := rfl
  have h0 : Descended roots root (upperPath virt) flags role s [] root
      [pml4Slot virt, pdptSlot virt, pdSlot virt] role s :=
    Descended.start h root (upperPath virt) flags
  have keep : ∀ {role₁ role₂ : Roles} {s₁ s₂ : VMState} {a : Access},
      Grows roots (LinksAlong root (upperPath virt)) role₁ s₁ role₂ s₂ → a.InTable s₁ root →
        a.InTable s₂ root :=
    fun hg ha => ha.of_follow_keep (hg.follow_keep hroot)
  unfold vmVirtualMemoryMapPage sVMVirtualMemoryMapPageInternal mapPageAccesses
  rw [show vmmPML4Index virt = (pml4Slot virt).val from rfl]
  rcases h0.level hroot hlen hinit with ⟨heq, ha₁⟩ | ⟨pdpt, role₁, s₁, heq, hg₁, h1, ha₁⟩
  · rw [heq]
    simpa using ha₁
  rw [heq]
  have hinit₁ := hg₁.isInitialized_eq.trans hinit
  simp only [show vmmPDPTIndex virt = (pdptSlot virt).val from rfl]
  rcases h1.level hroot hlen hinit₁ with ⟨heq, ha₂⟩ | ⟨pd, role₂, s₂, heq, hg₂, h2, ha₂⟩
  · rw [heq]
    simp only [List.append_nil, List.mem_append]
    rintro a (ha | ha)
    · exact ha₁ a ha
    · exact ha₂ a ha
  rw [heq]
  have hinit₂ := hg₂.isInitialized_eq.trans hinit₁
  simp only [show vmmPDIndex virt = (pdSlot virt).val from rfl]
  rcases h2.level hroot hlen hinit₂ with ⟨heq, ha₃⟩ | ⟨pt, role₃, s₃, heq, hg₃, h3, ha₃⟩
  · rw [heq]
    simp only [List.append_nil, List.mem_append]
    rintro a (ha | ha | ha)
    · exact keep hg₂ (ha₁ a ha)
    · exact ha₂ a ha
    · exact ha₃ a ha
  rw [heq]
  have hinit₃ := hg₃.isInitialized_eq.trans hinit₂
  have hwf := h3.grows.wellFormed
  obtain ⟨r, hrole, -⟩ := hwf.leafTable_role hroot h3.reached
  have hpt := (hwf.table_frame hrole).2
  -- the entry of the page is no link
  have hleaf : ∀ {a : Access}, a.InTable s₃ root →
      a.InTable (s₃.store (sVMGetVirtualTable s₃ pt) (vmmPTIndex virt) (phys ||| flags)) root := by
    intro a ha
    rw [show vmmPTIndex virt = (ptSlot virt).val from rfl, store_eq_setEntry rfl hpt]
    exact ha.of_follow_keep fun his hc => (follow_setLeaf hwf hrole hv hroot his).trans hc
  simp only [List.mem_append, List.mem_singleton]
  rintro a (ha | ha | ha | rfl)
  · exact hleaf (keep hg₃ (keep hg₂ (ha₁ a ha)))
  · exact hleaf (keep hg₃ (ha₂ a ha))
  · exact hleaf (ha₃ a ha)
  · exact hleaf (inTable_slot hinit₃ hpt (Nat.le_of_eq hlen) h3.reached (ptSlot virt))

/-- Unmapping a page dereferences tables only. -/
theorem unmapPageAccesses_inTable (h : WellFormed roots role s) (hroot : root ∈ roots)
    (hinit : s.isInitialized = false) (virt : Nat) :
    ∀ a ∈ unmapPageAccesses s root virt, a.InTable s root := by
  -- Every load and every slot is one of a table that the walk has reached.
  have hload : ∀ {t : Nat} {r p} (i : Fin 512), role t = some (.table r p) →
      s.load (sVMGetVirtualTable s t) i.val = s.entry t i :=
    fun i ht => load_eq_entry rfl (h.table_frame ht).2 i
  have hsome : ∀ {e}, ¬ e &&& ptePresent = 0 → childTable e = some (pteGetAddr e) := by
    intro e he
    rw [childTable, if_neg he]
  have hslot : ∀ {t r p} (i : Fin 512), role t = some (.table r p) → p.length ≤ 3 →
      follow childTable s.entry root p = some t →
      (⟨wrap64 (sVMGetVirtualTable s t + 8 * i.val), 8⟩ : Access).InTable s root :=
    fun i ht hlen hfollow => inTable_slot hinit (h.table_frame ht).2 hlen hfollow i
  have hr0 := h.root_role hroot
  unfold unmapPageAccesses
  simp only [show vmmPML4Index virt = (pml4Slot virt).val from rfl, hload _ hr0]
  rw [List.forall_mem_cons]
  refine ⟨hslot _ hr0 (by simp) (follow_nil _), ?_⟩
  -- Level by level: without a link the walk ends, with one it is in the next table.
  by_cases h1 : s.entry root (pml4Slot virt) &&& ptePresent = 0
  · rw [if_pos h1]
    exact List.forall_mem_nil _
  obtain ⟨r1, hr1, -⟩ := h.child_role hr0 (by simp) (hsome h1)
  have hf1 : follow childTable s.entry root [pml4Slot virt] =
      some (pteGetAddr (s.entry root (pml4Slot virt))) := by
    rw [follow_cons, hsome h1, Option.bind_some, follow_nil]
  rw [if_neg h1]
  simp only [show vmmPDPTIndex virt = (pdptSlot virt).val from rfl, hload _ hr1]
  rw [List.forall_mem_cons]
  refine ⟨hslot _ hr1 (by simp) hf1, ?_⟩
  generalize pteGetAddr (s.entry root (pml4Slot virt)) = pdpt at hr1 hf1 ⊢
  by_cases h2 : s.entry pdpt (pdptSlot virt) &&& ptePresent = 0
  · rw [if_pos h2]
    exact List.forall_mem_nil _
  obtain ⟨r2, hr2, -⟩ := h.child_role hr1 (by simp) (hsome h2)
  have hf2 := follow_concat_eq_some.mpr ⟨pdpt, hf1, hsome h2⟩
  rw [if_neg h2]
  simp only [show vmmPDIndex virt = (pdSlot virt).val from rfl, hload _ hr2]
  rw [List.forall_mem_cons]
  refine ⟨hslot _ hr2 (by simp) hf2, ?_⟩
  generalize pteGetAddr (s.entry pdpt (pdptSlot virt)) = pd at hr2 hf2 ⊢
  by_cases h3 : s.entry pd (pdSlot virt) &&& ptePresent = 0
  · rw [if_pos h3]
    exact List.forall_mem_nil _
  obtain ⟨r3, hr3, -⟩ := h.child_role hr2 (by simp) (hsome h3)
  have hf3 := follow_concat_eq_some.mpr ⟨pd, hf2, hsome h3⟩
  rw [if_neg h3, show vmmPTIndex virt = (ptSlot virt).val from rfl]
  intro a ha
  obtain rfl := List.mem_singleton.mp ha
  exact hslot _ hr3 (by simp) hf3

/-- The mapping loops dereference tables only, and these are in frames that were free. -/
theorem mapPagesAccesses_inTable (hroot : root ∈ roots) (pages : List (Nat × Nat)) :
    ∀ {role : Roles} {s : VMState}, WellFormed roots role s → s.isInitialized = false →
      ¬ s.pmm.FrameFree 0 → (∀ page ∈ pages, page.1 ||| flags < 2 ^ 64) →
      ∃ role', WellFormed roots role' (mapPages root flags s pages) ∧
        (∀ {t x}, role' t = some x → role t = some x ∨ s.pmm.FrameFree (t / kVMPageSize)) ∧
        (∀ {is c}, is.length ≤ 3 → follow childTable s.entry root is = some c →
          follow childTable (mapPages root flags s pages).entry root is = some c) ∧
        ∀ a ∈ mapPagesAccesses root flags s pages, a.InTable (mapPages root flags s pages) root := by
  induction pages with
  | nil => exact fun h _ _ _ => ⟨_, h, .inl, fun _ => id, List.forall_mem_nil _⟩
  | cons page rest ih =>
    intro role s h hinit hzero hwords
    have hv := hwords page List.mem_cons_self
    have hpage := takes_mapPage hinit hzero root page.1 page.2 flags
    obtain ⟨role', hgrow, -⟩ := mapPage_tables h hroot page.2 hv
    have haccesses := mapPageAccesses_inTable h hroot hinit page.2 hv
    obtain ⟨role'', hwf, hnew, hkeep, hrest⟩ := ih hgrow.wellFormed
      (hpage.isInitialized_eq.trans hinit) (fun hf => hzero (hpage.free_of_free hf))
      fun p hp => hwords p (List.mem_cons_of_mem _ hp)
    rw [mapPages, List.foldl_cons, ← mapPages, mapPagesAccesses]
    refine ⟨role'', hwf, ?_, fun his hc => hkeep his (hgrow.follow_keep hroot his hc), ?_⟩
    · intro t x ht
      rcases hnew ht with ht' | hf
      · exact (hgrow.role_new ht').imp_right And.left
      · exact .inr (hgrow.free_of_free hf)
    · intro a ha
      rcases List.mem_append.mp ha with ha | ha
      · exact (haccesses a ha).of_follow_keep hkeep
      · exact hrest a ha

end Tables

/-! ## Section 5: Early boot -/

section Boot

variable {m : Machine} {pmm : VMPhysicalMemory}

theorem virtualMemoryInitializeAccesses_eq (m : Machine) (pmm : VMPhysicalMemory) :
    virtualMemoryInitializeAccesses m.memory pmm m.layout m.image =
      ⟨(bootTables m.memory pmm).kernelPML4, kVMPageSize⟩ ::
        (mapPagesAccesses (bootTables m.memory pmm).kernelPML4 pteKernelData
          (bootTables m.memory pmm) (bootPages m.layout m.image pmm.totalMemorySize) ++
        unmapPageAccesses (m.mappedState pmm) (bootTables m.memory pmm).kernelPML4
          m.layout.stackGuard) := by
  unfold Machine.mappedState
  rw [← bootTables_totalMemorySize m.memory pmm]
  rfl

/-- The PML4 is in a frame that was free, or at address 0 if there was none. -/
theorem bootTables_root (mem : Memory) (pmm : VMPhysicalMemory) :
    (bootTables mem pmm).kernelPML4 = 0 ∨
      pmm.FrameFree ((bootTables mem pmm).kernelPML4 / kVMPageSize) := by
  simp only [bootTables, clearPage_kernelPML4]
  rcases allocatePage_state_cases ⟨mem, pmm, 0, false⟩ with ⟨-, heq⟩ | ⟨f, s₁, hf, heq, -⟩
  · rw [heq]
    exact .inl rfl
  · rw [heq, Nat.mul_div_cancel _ (by decide)]
    exact .inr hf

/-- `VMVirtualMemoryInitialize` takes the lowest frames and dereferences them. -/
theorem takes_virtualMemoryInitialize (m : Machine) (hzero : ¬ pmm.FrameFree 0) :
    Takes ⟨m.memory, pmm, 0, false⟩
      (virtualMemoryInitializeAccesses m.memory pmm m.layout m.image) (m.mappedState pmm) := by
  have hroot : Takes ⟨m.memory, pmm, 0, false⟩
      [⟨(bootTables m.memory pmm).kernelPML4, kVMPageSize⟩] (bootTables m.memory pmm) :=
    (takes_allocatePage ⟨m.memory, pmm, 0, false⟩).of_same rfl rfl
  have hmaps := takes_mapPages (bootTables m.memory pmm).kernelPML4 pteKernelData
    (bootPages m.layout m.image pmm.totalMemorySize) hroot.isInitialized_eq
    fun hf => hzero (hroot.free_of_free hf)
  rw [virtualMemoryInitializeAccesses_eq]
  exact (hroot.trans hmaps).mono (by simp)

/-- Besides, it dereferences nothing: each access is in a frame that it takes, or in page 0. -/
theorem virtualMemoryInitializeAccesses_taken (m : Machine)
    (hbounds : ∀ {f}, pmm.FrameFree f → f ≠ 0 ∧ f * kVMPageSize < 2 ^ 52)
    (htotal : pmm.totalMemorySize ≤ 2 ^ 64) :
    ∀ a ∈ virtualMemoryInitializeAccesses m.memory pmm m.layout m.image,
      ∃ f, f * kVMPageSize ≤ a.pointer ∧ a.pointer + a.size ≤ f * kVMPageSize + kVMPageSize ∧
        (f = 0 ∨ (pmm.FrameFree f ∧ ¬ (m.mappedState pmm).pmm.FrameFree f)) := by
  have hstart := (bootTables_refines m.memory hbounds).wellFormed
  have hk : (bootTables m.memory pmm).kernelPML4 ∈
      (VMRun.start (bootTables m.memory pmm)).roots := List.mem_cons_self
  have hfree := (bootTables_spec m.memory hbounds).2.2
  obtain ⟨role, hwf, hnew, -, hmaps⟩ := mapPagesAccesses_inTable hk
    (bootPages m.layout m.image pmm.totalMemorySize) hstart rfl
    (fun hf => (hbounds (hfree 0 hf).1).1 rfl) fun page hpage => bootPages_word htotal hpage
  -- a table is the PML4 or in a frame that was free
  have htable : ∀ {t x}, role t = some x → t = (bootTables m.memory pmm).kernelPML4 ∨
      pmm.FrameFree (t / kVMPageSize) := by
    intro t x ht
    rcases hnew ht with ht | hf
    · by_cases heq : t = (bootTables m.memory pmm).kernelPML4
      · exact .inl heq
      · rw [Function.update_of_ne heq] at ht
        exact absurd ht (by simp)
    · exact .inr (hfree _ hf).1
  have hframe : ∀ {t x}, role t = some x → t / kVMPageSize = 0 ∨
      (pmm.FrameFree (t / kVMPageSize) ∧
        ¬ (m.mappedState pmm).pmm.FrameFree (t / kVMPageSize)) := by
    intro t x ht
    have hnot := hwf.role_notFree ht
    rcases htable ht with rfl | hf
    · rcases bootTables_root m.memory pmm with hzero | hf
      · exact .inl (by rw [hzero, Nat.zero_div])
      · exact .inr ⟨hf, hnot⟩
    · exact .inr ⟨hf, hnot⟩
  have hinTable : ∀ {a : Access},
      a.InTable (m.mappedState pmm) (bootTables m.memory pmm).kernelPML4 →
      ∃ f, f * kVMPageSize ≤ a.pointer ∧ a.pointer + a.size ≤ f * kVMPageSize + kVMPageSize ∧
        (f = 0 ∨ (pmm.FrameFree f ∧ ¬ (m.mappedState pmm).pmm.FrameFree f)) := by
    rintro a ⟨is, t, hlen, hfollow, hle, hend⟩
    obtain ⟨r, hrole, -⟩ := hwf.follow_role (hwf.root_role hk) (by simpa using hlen) hfollow
    have halign := (hwf.table_frame hrole).1
    have hbase : t / kVMPageSize * kVMPageSize = t := by
      unfold kVMPageSize at halign ⊢
      omega
    exact ⟨t / kVMPageSize, by rwa [hbase], by rwa [hbase], hframe hrole⟩
  rw [virtualMemoryInitializeAccesses_eq]
  intro a ha
  rcases List.mem_cons.mp ha with rfl | ha
  · exact hinTable ⟨[], _, by simp, follow_nil _, Nat.le_refl _, Nat.le_refl _⟩
  · rcases List.mem_append.mp ha with ha | ha
    · exact hinTable (hmaps a ha)
    · have hinit : (m.mappedState pmm).isInitialized = false :=
        (takes_virtualMemoryInitialize m fun hf => (hbounds hf).1 rfl).isInitialized_eq
      exact hinTable (unmapPageAccesses_inTable hwf hk hinit _ a ha)

end Boot

/-! ## Section 6: When early boot stays in the identity map -/

instance (d : OSMemoryDescriptor) (address : Nat) : Decidable (d.Contains address) :=
  inferInstanceAs (Decidable (_ ∧ _))

instance (memoryMap : List OSMemoryDescriptor) (image : KernelImage) (bitmapStart frame : Nat) :
    Decidable (UsableFrame memoryMap image bitmapStart frame) :=
  inferInstanceAs (Decidable (_ ∧ _))

/-- The usable frames, of which the tables are made. -/
def Machine.usableFrames (m : Machine) : Finset Nat :=
  match bitmapHostDescriptor m.memoryMap with
  | none => ∅
  | some host => (Finset.range (maxPhysicalAddress m.memoryMap / kVMPageSize)).filter
      (UsableFrame m.memoryMap m.image host.physicalStart)

/-- The frames in the first GiB. -/
def identityMappedFrames (frames : Finset Nat) : Finset Nat := frames.filter (· < 2 ^ 18)

/-- The tables below the PML4 that the boot pages need, one for each prefix of their paths. -/
def Machine.tableCount (m : Machine) : Nat :=
  (((bootPages m.layout m.image (maxPhysicalAddress m.memoryMap)).map Prod.snd).map
    upperPath).toFinset.biUnion prefixes |>.card

/-- The bitmap ends in the first GiB, and as many usable frames are there as the PML4 and the
tables take. -/
structure Machine.FitsIdentityMap (m : Machine) : Prop where
  bitmap_le : ∀ host, bitmapHostDescriptor m.memoryMap = some host →
    host.physicalStart + bitmapSize m.memoryMap ≤ 2 ^ 30
  tables_le : min m.usableFrames.card (1 + m.tableCount) ≤ (identityMappedFrames m.usableFrames).card

theorem Access.identityMapped_iff {a : Access} (hpos : 0 < a.size) :
    a.IdentityMapped ↔ a.pointer + a.size ≤ 2 ^ 30 := by
  constructor
  · intro h
    have hlast := VM.identityMapped_iff.mp (h (a.size - 1) (by omega))
    omega
  · intro h k hk
    exact VM.identityMapped_iff.mpr (by omega)

/-- Frames that are taken lowest first are below `bound` exactly if there are enough of them. -/
theorem Takes.lt_iff {s s' : VMState} {accesses : List Access} (h : Takes s accesses s')
    (bound : Nat) : (∀ f, s.pmm.FrameFree f → ¬ s'.pmm.FrameFree f → f < bound) ↔
      s.pmm.freeCount - s'.pmm.freeCount ≤ (s.pmm.freeFrames.filter (· < bound)).card := by
  have hsub : s'.pmm.freeFrames ⊆ s.pmm.freeFrames := fun f hf =>
    mem_freeFrames.mpr (h.free_of_free (mem_freeFrames.mp hf))
  have htaken : ∀ f, f ∈ s.pmm.freeFrames \ s'.pmm.freeFrames ↔
      s.pmm.FrameFree f ∧ ¬ s'.pmm.FrameFree f := by
    intro f
    rw [Finset.mem_sdiff, mem_freeFrames, mem_freeFrames]
  rw [VMPhysicalMemory.freeCount, VMPhysicalMemory.freeCount, ← Finset.card_sdiff_of_subset hsub]
  constructor
  · intro hlow
    apply Finset.card_le_card
    intro f hf
    obtain ⟨hfree, hnot⟩ := (htaken f).mp hf
    exact Finset.mem_filter.mpr ⟨mem_freeFrames.mpr hfree, hlow f hfree hnot⟩
  · intro hcard f hfree hnot
    by_contra hhigh
    -- `f` is taken after all the frames below the bound
    have hlow : insert f (s.pmm.freeFrames.filter (· < bound)) ⊆
        s.pmm.freeFrames \ s'.pmm.freeFrames := by
      intro g hg
      rw [htaken]
      rcases Finset.mem_insert.mp hg with rfl | hg
      · exact ⟨hfree, hnot⟩
      · obtain ⟨hg, hlt⟩ := Finset.mem_filter.mp hg
        refine ⟨mem_freeFrames.mp hg, fun hg' => ?_⟩
        have := h.lowest hfree hnot hg'
        omega
    have hle := Finset.card_le_card hlow
    rw [Finset.card_insert_of_notMem (by simp [hhigh])] at hle
    omega

section Condition

variable {m : Machine} {pmm : VMPhysicalMemory} {host : OSMemoryDescriptor}

theorem Machine.usableFrames_eq (hmap : AcceptedMap m.memoryMap m.image)
    (hhost : bitmapHostDescriptor m.memoryMap = some host)
    (hfree : ∀ f, pmm.FrameFree f ↔ UsableFrame m.memoryMap m.image host.physicalStart f) :
    m.usableFrames = pmm.freeFrames := by
  ext f
  rw [Machine.usableFrames, hhost, mem_freeFrames, hfree, Finset.mem_filter, Finset.mem_range]
  exact ⟨And.right, fun h => ⟨h.lt hmap, h⟩⟩

/-- All of the tables are new. -/
theorem tablesNeeded_bootTables (m : Machine)
    (hbounds : ∀ {f}, pmm.FrameFree f → f ≠ 0 ∧ f * kVMPageSize < 2 ^ 52)
    (htotal : pmm.totalMemorySize = maxPhysicalAddress m.memoryMap) :
    tablesNeeded (bootTables m.memory pmm) (bootTables m.memory pmm).kernelPML4
      ((bootPages m.layout m.image pmm.totalMemorySize).map Prod.snd) = m.tableCount := by
  have hempty := (bootTables_spec m.memory hbounds).2.1
  rw [tablesNeeded, absent_of_empty (fun i => by rw [hempty, childTable_zero]), htotal]
  rfl

/-- The bitmap is identity-mapped exactly if its end is. -/
theorem physicalMemoryInitialize_identityMapped (hmap : AcceptedMap m.memoryMap m.image)
    (hhost : bitmapHostDescriptor m.memoryMap = some host) :
    (∀ a ∈ physicalMemoryInitializeAccesses m.memoryMap m.image, a.IdentityMapped) ↔
      host.physicalStart + bitmapSize m.memoryMap ≤ 2 ^ 30 := by
  obtain ⟨hmem, htype, -, hsafe⟩ := bitmapSize_bounds hmap hhost
  have hpos : 0 < bitmapSize m.memoryMap := by
    have hmax := endAddress_le_maxPhysicalAddress hmem (by rw [htype]; rfl)
    rw [OSMemoryDescriptor.endAddress_eq (hmap.nonWrapping host hmem)] at hmax
    unfold bitmapSize
    simp only [kVMSafeSpaceStartAddress, kVMPageSize] at hsafe hmax ⊢
    omega
  unfold physicalMemoryInitializeAccesses
  rw [hhost]
  simp only [List.forall_mem_cons]
  rw [Access.identityMapped_iff hpos]
  refine ⟨And.left, fun hle => ⟨hle, ?_⟩⟩
  intro a ha
  obtain ⟨operation, hoperation, rfl⟩ := List.mem_map.mp ha
  have hlt := inBounds_initializeOperations hmap hhost operation hoperation
  rw [Access.identityMapped_iff Nat.one_pos]
  simp only
  omega

/-- Everything that early boot dereferences directly, the bitmap, the PML4 and the tables, is
identity-mapped exactly if the bitmap ends below 1 GiB and the usable frames below 1 GiB are
enough for the PML4 and the tables, or for all usable frames. -/
theorem staysIdentityMapped_iff (hmap : AcceptedMap m.memoryMap m.image)
    (hmemory : maxPhysicalAddress m.memoryMap ≤ 2 ^ 52) :
    m.StaysIdentityMapped ↔ m.FitsIdentityMap := by
  obtain ⟨host, pmm, hhost, hpmm, haddress, -, htotal, hfree⟩ :=
    physicalMemoryInitialize_eq_some hmap
  have hbounds : ∀ {f}, pmm.FrameFree f → f ≠ 0 ∧ f * kVMPageSize < 2 ^ 52 := by
    intro f hf
    obtain ⟨hne, -, hlt⟩ := free_frame_bounds_of hmap hmemory hpmm hf
    exact ⟨hne, hlt⟩
  have hword : pmm.totalMemorySize ≤ 2 ^ 64 := by
    rw [htotal]
    exact Nat.le_trans hmemory (by decide)
  have htakes := takes_virtualMemoryInitialize m fun hf => (hbounds hf).1 rfl
  have htaken := virtualMemoryInitializeAccesses_taken m hbounds hword
  have hcount : pmm.freeCount - (m.mappedState pmm).pmm.freeCount =
      min pmm.freeCount (1 + m.tableCount) := by
    have hmaps := mappedState_freeCount m hbounds hword
    rw [tablesNeeded_bootTables m hbounds htotal] at hmaps
    omega
  -- the tables are identity-mapped exactly if the frames that are taken are
  have htables : (∀ a ∈ virtualMemoryInitializeAccesses m.memory pmm m.layout m.image,
      a.IdentityMapped) ↔
        min m.usableFrames.card (1 + m.tableCount) ≤ (identityMappedFrames m.usableFrames).card := by
    have hlt := htakes.lt_iff (2 ^ 18)
    simp only [hcount] at hlt
    rw [m.usableFrames_eq hmap hhost (haddress ▸ hfree), identityMappedFrames]
    refine Iff.trans ⟨fun h f hf hnot => ?_, fun h a ha => ?_⟩ hlt
    · have hmapped := (Access.identityMapped_iff (show 0 < kVMPageSize by decide)).mp
        (h _ (htakes.accessed hf hnot))
      simp only [kVMPageSize] at hmapped
      omega
    · obtain ⟨f, hle, hend, hf⟩ := htaken a ha
      have hlow : f < 2 ^ 18 := by
        rcases hf with rfl | ⟨hf, hnot⟩
        · decide
        · exact h f hf hnot
      intro k hk
      apply identityMapped_iff.mpr
      simp only [kVMPageSize] at hend
      omega
  unfold Machine.StaysIdentityMapped Machine.earlyAccesses
  rw [hpmm]
  simp only [List.forall_mem_append]
  rw [physicalMemoryInitialize_identityMapped hmap hhost, htables]
  constructor
  · rintro ⟨hbitmap, htables⟩
    refine ⟨fun host' hhost' => ?_, htables⟩
    obtain rfl := Option.some.inj (hhost.symm.trans hhost')
    exact hbitmap
  · exact fun h => ⟨h.bitmap_le host hhost, h.tables_le⟩

end Condition

/-- All memory of the 8 MiB machine is in the first GiB. -/
theorem staysIdentityMapped_iff_small : heapMachine.StaysIdentityMapped := by
  have hmap := heapMachine_accepted.map
  have hhost : bitmapHostDescriptor heapMachine.memoryMap =
      some ⟨.conventional, 0x140000, 1728⟩ := by decide
  apply (staysIdentityMapped_iff hmap heapMachine_accepted.memory_le).mpr
  constructor
  · intro host h
    obtain rfl := Option.some.inj (hhost.symm.trans h)
    decide
  · have hall : identityMappedFrames heapMachine.usableFrames = heapMachine.usableFrames := by
      apply Finset.filter_true_of_mem
      intro f hf
      rw [Machine.usableFrames, hhost, Finset.mem_filter, Finset.mem_range] at hf
      have hmax : maxPhysicalAddress heapMachine.memoryMap / kVMPageSize = 2048 := by decide
      omega
    rw [hall]
    exact Nat.min_le_left _ _

/-- A machine whose only Conventional memory from 1 MiB up begins at 1 GiB. -/
def highMachine : Machine where
  memoryMap := [⟨.bootServicesData, 0, 256⟩, ⟨.loaderCode, 0x100000, 64⟩,
    ⟨.conventional, 0x40000000, 1728⟩]
  image := smallKernelImage
  layout := ⟨0, 0, 0xFFFFFFFF80110000⟩
  memory := fun _ => 0

theorem highMachine_accepted : AcceptedMap highMachine.memoryMap highMachine.image where
  aligned := by decide
  nonWrapping := by decide
  imageInLoaderMemory := by
    intro address hlow hhigh
    have hstart : kernelVirtToPhys smallKernelImage.kernelStart = 0x100000 := by decide
    have hend : kernelVirtToPhys smallKernelImage.kernelEnd = 0x140000 := by decide
    simp only [highMachine, hstart, hend] at hlow hhigh
    refine ⟨⟨.loaderCode, 0x100000, 64⟩, by decide, by decide, by decide, ?_⟩
    simp only [OSMemoryDescriptor.Contains, kVMPageSize]
    omega
  hostExists := ⟨⟨.conventional, 0x40000000, 1728⟩, by decide, by decide, by decide, by decide⟩

/-- Its bitmap is not identity-mapped. -/
theorem not_staysIdentityMapped : ¬ ∀ m : Machine, AcceptedMap m.memoryMap m.image →
    maxPhysicalAddress m.memoryMap ≤ 2 ^ 52 → m.StaysIdentityMapped := by
  intro hall
  have hstays := hall highMachine highMachine_accepted (by decide)
  obtain ⟨-, pmm, -, hpmm, -⟩ := physicalMemoryInitialize_eq_some highMachine_accepted
  have hhost : bitmapHostDescriptor highMachine.memoryMap =
      some ⟨.conventional, 0x40000000, 1728⟩ := by decide
  have hfirst : (⟨0x40000000, bitmapSize highMachine.memoryMap⟩ : Access) ∈
      highMachine.earlyAccesses := by
    unfold Machine.earlyAccesses physicalMemoryInitializeAccesses
    rw [hpmm, hhost]
    exact List.mem_append_left _ List.mem_cons_self
  have hmapped := hstays _ hfirst 0 (by decide)
  exact absurd (identityMapped_iff.mp hmapped) (by decide)

end TermOS.VM
