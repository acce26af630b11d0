import TermOS.VM.DirectMap

/-!
# The layout of the kernel half

`VMVirtualMemoryInitialize` maps memory, the kernel image and the framebuffer, and
`VMHeapInitialize` the kernel heap, each at a base of its own. Nothing checks that the
sizes, which the firmware says, fit between the bases: the direct map may run into the
image, and a framebuffer of more than 64 MiB wraps to the user half.

## Main Theorems

* `keepsLayout_iff` - the parts are apart, and the framebuffer is mapped in every address
  space, exactly for sizes that fit
-/

namespace TermOS.VM

open TermOS.Lib TermOS.Kernel TermOS.Lib.TableForest VMState

variable {m : Machine} {a b i : Nat}

/-! ## Section 1: The parts -/

/-- What the linker script says of the image: it is not empty, and the stack guard is in it. -/
structure Machine.Linked (m : Machine) : Prop where
  image_nonempty : m.image.kernelStart < m.image.kernelEnd
  stackGuard_le : m.image.kernelStart ≤ m.layout.stackGuard
  stackGuard_lt : m.layout.stackGuard < m.image.kernelEnd

/-- The addresses that the first mapping loop maps. -/
def Machine.directAddresses (m : Machine) : List Nat :=
  (pageLoop 0 (maxPhysicalAddress m.memoryMap)).map physToHhdm

/-- The addresses that the second loop maps. -/
def Machine.imageAddresses (m : Machine) : List Nat := pageLoop m.image.kernelStart m.image.kernelEnd

/-- The addresses that the third loop maps. -/
def Machine.framebufferAddresses (m : Machine) : List Nat :=
  (pageLoop 0 m.layout.framebufferSize).map fun i => wrap64 (fbVirtBase + i)

/-- The addresses that `VMHeapInitialize` maps. -/
def heapAddresses : List Nat := heapPages 0 kVMHeapSizePages

/-- No page of the one is a page of the other. -/
def PagesApart (xs ys : List Nat) : Prop := ∀ a ∈ xs, ∀ b ∈ ys, pageNumber a ≠ pageNumber b

/-- The loops of `VMVirtualMemoryInitialize` map pages of the kernel half, none twice, and
none of the heap. -/
structure Machine.LaysOut (m : Machine) : Prop where
  direct_image : PagesApart m.directAddresses m.imageAddresses
  direct_framebuffer : PagesApart m.directAddresses m.framebufferAddresses
  image_framebuffer : PagesApart m.imageAddresses m.framebufferAddresses
  heap : PagesApart (m.directAddresses ++ m.imageAddresses ++ m.framebufferAddresses) heapAddresses
  kernelHalf : ∀ a ∈ m.directAddresses ++ m.imageAddresses ++ m.framebufferAddresses, KernelHalf a

/-- The sizes fit: memory ends before the image in the direct map, the image before the
heap, and the framebuffer before the end of the address space. -/
structure Machine.Fits (m : Machine) : Prop where
  memory_le : hhdmOffset + maxPhysicalAddress m.memoryMap ≤ m.image.kernelStart
  image_le : m.image.kernelEnd ≤ kVMKernelHeapStart
  framebuffer_le : fbVirtBase + m.layout.framebufferSize ≤ 2 ^ 64

instance (m : Machine) : Decidable m.Fits :=
  decidable_of_iff (hhdmOffset + maxPhysicalAddress m.memoryMap ≤ m.image.kernelStart ∧
      m.image.kernelEnd ≤ kVMKernelHeapStart ∧ fbVirtBase + m.layout.framebufferSize ≤ 2 ^ 64)
    ⟨fun ⟨h₁, h₂, h₃⟩ => ⟨h₁, h₂, h₃⟩, fun h => ⟨h.memory_le, h.image_le, h.framebuffer_le⟩⟩

/-- The mapping loops map these addresses. -/
theorem bootPages_addresses (m : Machine) :
    (bootPages m.layout m.image (maxPhysicalAddress m.memoryMap)).map Prod.snd =
      m.directAddresses ++ m.imageAddresses ++ m.framebufferAddresses := by
  unfold bootPages Machine.directAddresses Machine.imageAddresses Machine.framebufferAddresses
  rw [List.map_append, List.map_append, List.map_map, List.map_map, List.map_map]
  congr 2
  exact List.map_id _

/-! ## Section 2: Where the parts lie -/

/-- The pages at these addresses lie between `low` and `high`. -/
def PagesWithin (low high : Nat) (xs : List Nat) : Prop := ∀ a ∈ xs, low ≤ a ∧ a + 4096 ≤ high

theorem Machine.Fits.direct (h : m.Fits) :
    PagesWithin hhdmOffset m.image.kernelStart m.directAddresses := by
  intro a ha
  obtain ⟨i, hi, rfl⟩ := List.mem_map.mp ha
  obtain ⟨n, rfl, hlt⟩ := mem_pageLoop.mp hi
  have hle := h.memory_le
  simp only [KernelImage.kernelStart, kernelVMA, hhdmOffset, kVMPageSize] at hle hlt ⊢
  unfold physToHhdm wrap64 hhdmOffset
  omega

theorem Machine.Fits.image (h : m.Fits) :
    PagesWithin m.image.kernelStart kVMKernelHeapStart m.imageAddresses := by
  intro a ha
  obtain ⟨n, rfl, hlt⟩ := mem_pageLoop.mp ha
  have hle := h.image_le
  simp only [KernelImage.kernelStart, kernelVMA, kVMKernelHeapStart, kVMPageSize] at hle hlt ⊢
  omega

theorem heap_within :
    PagesWithin kVMKernelHeapStart (kVMKernelHeapStart + 0x400000) heapAddresses := by
  intro a ha
  obtain ⟨i, hi, rfl⟩ := List.mem_map.mp ha
  have hlt := (List.mem_range'_1.mp hi).2
  simp only [kVMHeapSizePages, kVMPageSize] at hlt ⊢
  omega

theorem Machine.Fits.framebuffer (h : m.Fits) :
    PagesWithin fbVirtBase (2 ^ 64) m.framebufferAddresses := by
  intro a ha
  obtain ⟨i, hi, rfl⟩ := List.mem_map.mp ha
  obtain ⟨n, rfl, hlt⟩ := mem_pageLoop.mp hi
  have hle := h.framebuffer_le
  simp only [fbVirtBase, kVMPageSize] at hle hlt ⊢
  unfold wrap64
  omega

/-- The order of the bases. -/
theorem bases_le (image : KernelImage) : hhdmOffset ≤ image.kernelStart ∧
    image.kernelStart ≤ kVMKernelHeapStart ∧ kVMKernelHeapStart + 0x400000 ≤ fbVirtBase ∧
    fbVirtBase ≤ 2 ^ 64 := by
  unfold KernelImage.kernelStart
  decide

/-- Parts that lie one behind the other are apart. -/
theorem PagesWithin.apart {xs ys : List Nat} {low middle middle' high : Nat}
    (hxs : PagesWithin low middle xs) (hys : PagesWithin middle' high ys) (hlow : hhdmOffset ≤ low)
    (hmiddle : middle ≤ middle') (hhigh : high ≤ 2 ^ 64) : PagesApart xs ys := by
  intro a ha b hb
  obtain ⟨halow, hahigh⟩ := hxs a ha
  obtain ⟨hblow, hbhigh⟩ := hys b hb
  unfold hhdmOffset at hlow
  unfold pageNumber
  omega

theorem PagesWithin.kernelHalf {xs : List Nat} {low high : Nat} (h : PagesWithin low high xs)
    (hlow : hhdmOffset ≤ low) (hhigh : high ≤ 2 ^ 64) (ha : a ∈ xs) : KernelHalf a := by
  obtain ⟨halow, hahigh⟩ := h a ha
  unfold hhdmOffset at hlow
  simp only [KernelHalf, pml4Slot, vmmPML4Index_eq]
  omega

theorem PagesApart.symm {xs ys : List Nat} (h : PagesApart xs ys) : PagesApart ys xs :=
  fun b hb a ha heq => h a ha b hb heq.symm

theorem Machine.Fits.laysOut (h : m.Fits) : m.LaysOut := by
  obtain ⟨hdirect, himage, hheap, hlast⟩ := bases_le m.image
  have himage_end : kVMKernelHeapStart ≤ fbVirtBase := Nat.le_trans (Nat.le_add_right _ _) hheap
  have hlow : hhdmOffset ≤ kVMKernelHeapStart := Nat.le_trans hdirect himage
  exact {
    direct_image := h.direct.apart h.image (Nat.le_refl _) (Nat.le_refl _)
      (Nat.le_trans himage_end hlast)
    direct_framebuffer := h.direct.apart h.framebuffer (Nat.le_refl _)
      (Nat.le_trans himage himage_end) (Nat.le_refl _)
    image_framebuffer := h.image.apart h.framebuffer hdirect himage_end (Nat.le_refl _)
    heap := by
      intro a ha
      rcases List.mem_append.mp ha with ha | ha
      · rcases List.mem_append.mp ha with ha | ha
        · exact h.direct.apart heap_within (Nat.le_refl _) himage (Nat.le_trans hheap hlast) a ha
        · exact h.image.apart heap_within hdirect (Nat.le_refl _) (Nat.le_trans hheap hlast) a ha
      · exact (heap_within.apart h.framebuffer hlow hheap (Nat.le_refl _)).symm a ha
    kernelHalf := by
      intro a ha
      rcases List.mem_append.mp ha with ha | ha
      · rcases List.mem_append.mp ha with ha | ha
        · exact h.direct.kernelHalf (Nat.le_refl _) (Nat.le_trans himage (Nat.le_trans himage_end hlast)) ha
        · exact h.image.kernelHalf hdirect (Nat.le_trans himage_end hlast) ha
      · exact h.framebuffer.kernelHalf (Nat.le_trans hlow himage_end) (Nat.le_refl _) ha }

/-- If a size does not fit, its loop runs into the next part, or out of the kernel half. -/
theorem Machine.LaysOut.fits (h : m.LaysOut) (hlinked : m.Linked) : m.Fits where
  memory_le := by
    by_contra hlarge
    -- the direct map has the first page of the image
    let i := m.image.kernelStart - hhdmOffset
    have hi : i ∈ pageLoop 0 (maxPhysicalAddress m.memoryMap) := by
      refine mem_pageLoop.mpr ⟨i / kVMPageSize, ?_, ?_⟩
      · show i = 0 + i / kVMPageSize * kVMPageSize
        simp only [i, KernelImage.kernelStart]
        decide
      · have hle := (bases_le m.image).1
        omega
    have hsame : physToHhdm i = m.image.kernelStart := by
      simp only [i, KernelImage.kernelStart]
      decide
    have hdirect : m.image.kernelStart ∈ m.directAddresses := by
      rw [← hsame]
      exact List.mem_map_of_mem hi
    have himage : m.image.kernelStart ∈ m.imageAddresses :=
      mem_pageLoop.mpr ⟨0, by rw [Nat.zero_mul, Nat.add_zero], hlinked.image_nonempty⟩
    exact h.direct_image _ hdirect _ himage rfl
  image_le := by
    by_contra hlarge
    have himage : kVMKernelHeapStart ∈ m.imageAddresses := by
      refine mem_pageLoop.mpr ⟨(kVMKernelHeapStart - m.image.kernelStart) / kVMPageSize, ?_, by omega⟩
      unfold KernelImage.kernelStart
      decide
    have hheap : kVMKernelHeapStart ∈ heapAddresses :=
      List.mem_map.mpr ⟨0, List.mem_range'_1.mpr (by decide), by rw [Nat.zero_mul, Nat.add_zero]⟩
    exact h.heap _ (by simp [himage]) _ hheap rfl
  framebuffer_le := by
    by_contra hlarge
    -- the page behind the last one of the address space is page 0
    have hzero : 0 ∈ m.framebufferAddresses := by
      refine List.mem_map.mpr ⟨2 ^ 64 - fbVirtBase, mem_pageLoop.mpr ⟨0x4000, by decide, ?_⟩, by decide⟩
      have hle := (bases_le m.image).2.2.2
      omega
    have hhalf := h.kernelHalf 0 (by simp [hzero])
    exact absurd hhalf (by decide)

/-! ## Section 3: The framebuffer in every address space -/

/-- The framebuffer is mapped at `FB_VIRT_BASE`. -/
def Machine.FramebufferMapped (m : Machine) (s : VMState) (root : Nat) : Prop :=
  ∀ i, i % kVMPageSize = 0 → i < m.layout.framebufferSize →
    s.walk root (wrap64 (fbVirtBase + i)) = some (m.layout.framebufferBase + i, pteKernelData)

/-- Later calls: on any pages but those of the framebuffer. -/
def Machine.SparesFramebuffer (m : Machine) (σ : VMRun) (call : VMCall) : Prop :=
  σ.OnPages call ∧ ∀ a ∈ m.framebufferAddresses, ¬ call.TouchesPage a

/-- The parts are apart, and after any later calls the framebuffer is mapped in every
address space that has been created. -/
def Machine.KeepsLayout (m : Machine) : Prop :=
  m.LaysOut ∧ ∀ σ₀ calls σ, VMRun.boot m = some σ₀ →
    Run m.SparesFramebuffer VMRun.step σ₀ calls σ → ∀ u ∈ σ.spaces, m.FramebufferMapped σ.vm u

theorem mem_framebufferAddresses (hi : i % kVMPageSize = 0) (hlt : i < m.layout.framebufferSize) :
    wrap64 (fbVirtBase + i) ∈ m.framebufferAddresses := by
  refine List.mem_map.mpr ⟨i, mem_pageLoop.mpr ⟨i / kVMPageSize, ?_, hlt⟩, rfl⟩
  unfold kVMPageSize at hi ⊢
  omega

/-- A page of the framebuffer is mapped to its frame only. -/
theorem framebuffer_unique (hm : m.Accepted) (h : m.Fits) (hi : i % kVMPageSize = 0)
    (hlt : i < m.layout.framebufferSize) {page : Nat × Nat}
    (hpage : page ∈ bootPages m.layout m.image (maxPhysicalAddress m.memoryMap))
    (hnumber : pageNumber page.2 = pageNumber (wrap64 (fbVirtBase + i))) :
    page.1 = m.layout.framebufferBase + i := by
  have hmem := mem_framebufferAddresses hi hlt
  have hend := hm.framebuffer_end
  have hle := h.framebuffer_le
  simp only [bootPages, List.mem_append, List.mem_map, or_assoc] at hpage
  rcases hpage with ⟨a, ha, rfl⟩ | ⟨a, ha, rfl⟩ | ⟨a, ha, rfl⟩
  · exact absurd hnumber (h.laysOut.direct_framebuffer _ (List.mem_map_of_mem ha) _ hmem)
  · exact absurd hnumber (h.laysOut.image_framebuffer _ ha _ hmem)
  · obtain ⟨n, rfl, hn⟩ := mem_pageLoop.mp ha
    simp only [pageNumber, wrap64, fbVirtBase, kVMPageSize] at hnumber hn hi hle ⊢
    omega

/-- The framebuffer is mapped after boot. -/
theorem boot_framebufferMapped (hm : m.Accepted) (hlinked : m.Linked) (h : m.Fits)
    {σ₀ : VMRun} (hpages : ∀ phys virt, pageNumber virt ≠ pageNumber m.layout.stackGuard →
      (∀ page ∈ bootPages m.layout m.image (maxPhysicalAddress m.memoryMap),
        pageNumber page.2 = pageNumber virt → page.1 = phys) →
      (∃ page ∈ bootPages m.layout m.image (maxPhysicalAddress m.memoryMap),
        pageNumber page.2 = pageNumber virt) →
      ∀ r ∈ σ₀.roots, σ₀.vm.walk r virt = some (phys, pteKernelData)) :
    ∀ r ∈ σ₀.roots, m.FramebufferMapped σ₀.vm r := by
  intro r hr i hi hlt
  have hmem := mem_framebufferAddresses hi hlt
  refine hpages _ _ ?_ (fun page hpage => framebuffer_unique hm h hi hlt hpage) ?_ r hr
  · -- the stack guard is in the image
    obtain ⟨hlow, -⟩ := h.framebuffer _ hmem
    have hguard := hlinked.stackGuard_lt
    have hguard' := hlinked.stackGuard_le
    have himage := h.image_le
    unfold wrap64 at hlow ⊢
    simp only [KernelImage.kernelStart, kernelVMA, kVMKernelHeapStart, fbVirtBase] at *
    unfold pageNumber
    omega
  · have hall : wrap64 (fbVirtBase + i) ∈
        (bootPages m.layout m.image (maxPhysicalAddress m.memoryMap)).map Prod.snd := by
      rw [bootPages_addresses]
      exact List.mem_append_right _ hmem
    obtain ⟨page, hpage, heq⟩ := List.mem_map.mp hall
    exact ⟨page, hpage, congrArg pageNumber heq⟩

/-- What later calls keep. -/
structure KeepsFramebuffer (m : Machine) (role : Roles) (σ : VMRun) : Prop where
  wellFormed : WellFormed σ.roots role σ.vm
  writable : LinksWritable role σ.vm
  isInitialized : σ.vm.isInitialized = true
  mapped : ∀ r ∈ σ.roots, m.FramebufferMapped σ.vm r

theorem KeepsFramebuffer.step {role : Roles} {σ : VMRun} (hk : KeepsFramebuffer m role σ)
    (h : m.Fits) {call : VMCall} (hcall : m.SparesFramebuffer σ call) :
    ∃ role', KeepsFramebuffer m role' (σ.step call) := by
  obtain ⟨honPages, hspared⟩ := hcall
  obtain ⟨role', hwf, hw, hkept, -⟩ :=
    exists_keepsPages hk.wellFormed hk.writable hk.isInitialized honPages
  refine ⟨role', hwf, hw, (σ.keeps_step call).isInitialized_eq.trans hk.isInitialized, ?_⟩
  intro r hr i hi hlt
  have hmem := mem_framebufferAddresses hi hlt
  have hhalf := h.laysOut.kernelHalf _ (List.mem_append_right _ hmem)
  exact hkept _ _ hhalf (hspared _ hmem) (fun r hr => hk.mapped r hr i hi hlt) r hr

/-- The three mapping loops map pages of the kernel half, none of them twice and none of the
kernel heap, and the framebuffer is mapped in every address space that is created later,
exactly if memory, image and framebuffer fit between their bases. -/
theorem keepsLayout_iff (hm : m.Accepted) (hlinked : m.Linked) (hframes : m.FindsFrames) :
    m.KeepsLayout ↔ m.Fits := by
  constructor
  · rintro ⟨hlays, -⟩
    exact hlays.fits hlinked
  · intro h
    refine ⟨h.laysOut, ?_⟩
    intro σ₀ calls σ hboot hrun u hu
    obtain ⟨role₀, hwf, hw, hinit, -, hpages⟩ := boot_pages hm hframes hboot
    obtain ⟨role, hk⟩ : ∃ role, KeepsFramebuffer m role σ :=
      hrun.invariant (I := fun σ => ∃ role, KeepsFramebuffer m role σ)
        (fun σ call hσ hcall => hσ.elim fun _ hk => hk.step h hcall)
        ⟨role₀, hwf, hw, hinit, boot_framebufferMapped hm hlinked h hpages⟩
    exact hk.mapped u (List.mem_cons_of_mem _ hu)

/-! ## Section 4: Machines with a framebuffer -/

/-- The 8 MiB machine with a framebuffer. -/
def framebufferMachine (size : Nat) : Machine :=
  { heapMachine with layout := ⟨0x80000000, size, 0xFFFFFFFF80110000⟩ }

theorem framebufferMachine_accepted {size : Nat} (hsize : size ≤ 2 ^ 27) :
    (framebufferMachine size).Accepted where
  map := heapMachine_accepted.map
  memory_le := heapMachine_accepted.memory_le
  image_end := heapMachine_accepted.image_end
  framebuffer_aligned := show 0x80000000 % 4096 = 0 by decide
  framebuffer_end := by
    show 0x80000000 + size ≤ 2 ^ 52
    omega

theorem framebufferMachine_linked (size : Nat) : (framebufferMachine size).Linked where
  image_nonempty := show heapMachine.image.kernelStart < heapMachine.image.kernelEnd by decide
  stackGuard_le := show heapMachine.image.kernelStart ≤ 0xFFFFFFFF80110000 by decide
  stackGuard_lt := show 0xFFFFFFFF80110000 < heapMachine.image.kernelEnd by decide

/-- The page tables of 64 MiB of framebuffer, and of as much behind the end of the address
space. -/
def framebufferPaths : Finset (List (Fin 512)) :=
  (Finset.univ : Finset (Fin 32)).image (fun k => upperPath (fbVirtBase + 2 ^ 21 * k.val)) ∪
    (Finset.univ : Finset (Fin 32)).image (fun k => upperPath (2 ^ 21 * k.val))

/-- Addresses of one page table have the same path to it. -/
theorem upperPath_congr {virt virt' : Nat} (h : virt / 2 ^ 21 = virt' / 2 ^ 21) :
    upperPath virt = upperPath virt' := by
  simp only [upperPath, List.cons.injEq, and_true, pml4Slot, pdptSlot, pdSlot, Fin.ext_iff,
    vmmPML4Index_eq, vmmPDPTIndex_eq, vmmPDIndex_eq]
  omega

theorem card_framebufferPaths_le : framebufferPaths.card ≤ 64 := by
  calc framebufferPaths.card ≤ 32 + 32 :=
        (Finset.card_union_le _ _).trans (Nat.add_le_add Finset.card_image_le Finset.card_image_le)
    _ = 64 := rfl

theorem upperPath_framebuffer {i : Nat} (hi : i < 2 ^ 27) :
    upperPath (wrap64 (fbVirtBase + i)) ∈ framebufferPaths := by
  unfold framebufferPaths wrap64 fbVirtBase
  rw [Finset.mem_union, Finset.mem_image, Finset.mem_image]
  by_cases hlow : i < 2 ^ 26
  · refine .inl ⟨⟨i / 2 ^ 21, by omega⟩, Finset.mem_univ _, upperPath_congr ?_⟩
    dsimp only
    omega
  · refine .inr ⟨⟨(i - 2 ^ 26) / 2 ^ 21, by omega⟩, Finset.mem_univ _, upperPath_congr ?_⟩
    dsimp only
    omega

/-- Such a machine has frames enough for its tables. -/
theorem framebufferMachine_findsFrames {size : Nat} (hsize : size ≤ 2 ^ 27) :
    (framebufferMachine size).FindsFrames := by
  have hm := framebufferMachine_accepted hsize
  obtain ⟨pmm, hpmm, htotal, hfree⟩ := heapMachine_freeCount
  have hpmm' : vmPhysicalMemoryInitialize (framebufferMachine size).memoryMap
      (framebufferMachine size).image = some pmm := hpmm
  have hpaths : ∀ page ∈ bootPages (framebufferMachine size).layout (framebufferMachine size).image
      pmm.totalMemorySize, upperPath page.2 ∈ heapMachinePaths ∪ framebufferPaths := by
    intro page hpage
    rw [htotal] at hpage
    simp only [bootPages, List.mem_append] at hpage
    rcases hpage with hpage | hpage
    · apply Finset.mem_union_left
      apply heapMachine_bootPages
      simp only [bootPages, List.mem_append]
      exact .inl hpage
    · apply Finset.mem_union_right
      obtain ⟨i, hi, rfl⟩ := List.mem_map.mp hpage
      obtain ⟨n, rfl, hlt⟩ := mem_pageLoop.mp hi
      exact upperPath_framebuffer (Nat.lt_of_lt_of_le hlt hsize)
  obtain ⟨s, hboot, hcount⟩ := boot_freeCount hm hpmm' hpaths
  have hfive : heapMachinePaths.card = 5 := by decide
  have hcard := Finset.card_union_le heapMachinePaths framebufferPaths
  have hle := card_framebufferPaths_le
  obtain ⟨f, hf⟩ : ∃ f, s.pmm.FrameFree f := by
    by_contra hnone
    have hzero := freeCount_eq_zero_iff.mpr (not_exists.mp hnone)
    omega
  exact Machine.findsFrames_of_free hm hboot hf

/-- A framebuffer of 3 MiB fits. -/
theorem keepsLayout_iff_small : (framebufferMachine 0x300000).KeepsLayout := by
  have hfits : (framebufferMachine 0x300000).Fits := by decide
  exact (keepsLayout_iff (framebufferMachine_accepted (by decide))
    (framebufferMachine_linked _) (framebufferMachine_findsFrames (by decide))).mpr hfits

/-- One that is a page larger than 64 MiB wraps to the user half. -/
theorem not_keepsLayout : ¬ ∀ m : Machine, m.Accepted → m.Linked → m.FindsFrames → m.KeepsLayout := by
  intro hall
  have hkeeps := hall (framebufferMachine 0x4001000) (framebufferMachine_accepted (by decide))
    (framebufferMachine_linked _) (framebufferMachine_findsFrames (by decide))
  have hzero := mem_framebufferAddresses (m := framebufferMachine 0x4001000) (i := 0x4000000)
    (by decide) (show 0x4000000 < 0x4001000 by decide)
  have hhalf := hkeeps.1.kernelHalf _ (List.mem_append_right _ hzero)
  exact absurd hhalf (by decide)

end TermOS.VM
