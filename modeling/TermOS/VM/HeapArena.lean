import TermOS.VM.Ownership

/-!
# The frames of the kernel heap

The mapping loop of `VMHeapInitialize` in `kernel/src/VM/Heap.c`: it takes a
frame for each page of the arena. The block header that the function then
writes lies in the arena; the heap itself is modelled where its blocks are.
-/

namespace TermOS.VM

open TermOS.Lib TermOS.Kernel TermOS.Lib.TableForest VMState

/-! ## Section 1: The loop -/

def kVMKernelHeapStart : Nat := 0xFFFFFFFFC0000000
def kVMHeapSizePages : Nat := 1024

/-- `count` turns of the mapping loop from page `i` on, with the frames that
they took; `none` is the panic "OOM during heap init". -/
def mapHeapPages (s : VMState) (i : Nat) : Nat → Option (List Nat × VMState)
  | 0 => some ([], s)
  | count + 1 =>
    let (physical, s) := s.allocatePage
    -- `OSPanic` with "OOM during heap init"
    if physical = 0 then none
    else
      let virt := kVMKernelHeapStart + i * kVMPageSize
      -- the result is ignored
      let s := (vmVirtualMemoryMapPage s s.kernelPML4 physical virt pteKernelData).2
      (mapHeapPages s (i + 1) count).map fun (frames, s) => (physical :: frames, s)

/-- The frames that `VMHeapInitialize` takes for the arena, and the state after it. -/
def vmHeapInitializeFrames (s : VMState) : Option (List Nat × VMState) :=
  mapHeapPages s 0 kVMHeapSizePages

/-- `VMPhysicalMemoryInitialize`, `VMVirtualMemoryInitialize` and
`VMHeapInitialize`, as `kmain` calls them; `none` is a panic. -/
def Machine.bootHeap (m : Machine) : Option (List Nat × VMState) :=
  m.boot.bind vmHeapInitializeFrames

/-! ## Section 2: What the loop does -/

/-- Only the kernel's address space exists, ring 3 has access to none of its
pages, and each frame of `heap` is reserved. -/
structure KernelReady (role : Roles) (heap : List Nat) (s : VMState) : Prop where
  consistent : Consistent [] role s
  kernelPrivate : KernelPrivate [] s
  heap_reserved : ∀ a ∈ heap, role a = some .reserved

/-- One turn of the loop reserves one more frame. -/
theorem KernelReady.turn {role : Roles} {heap : List Nat} {s s₁ : VMState} {physical virt : Nat}
    (h : KernelReady role heap s) (halloc : s.allocatePage = (physical, s₁)) (hne : physical ≠ 0) :
    ∃ role', KernelReady role' (physical :: heap)
        (vmVirtualMemoryMapPage s₁ s₁.kernelPML4 physical virt pteKernelData).2 ∧
      Roles.Extends role role' ∧
      Keeps s (vmVirtualMemoryMapPage s₁ s₁.kernelPML4 physical virt pteKernelData).2 := by
  rcases h.consistent.allocatePage (x := .reserved) (by simp) with
    ⟨-, heq⟩ | ⟨a, s₂, heq, -, hframe, hnone, -, hsame, hmem, hconsistent⟩
  · rw [heq] at halloc
    exact absurd (congrArg Prod.fst halloc).symm hne
  · obtain ⟨rfl, rfl⟩ : a = physical ∧ s₂ = s₁ := by
      rw [heq] at halloc
      exact ⟨congrArg Prod.fst halloc, congrArg Prod.snd halloc⟩
    obtain ⟨role', hconsistent', hmap, -⟩ := hconsistent.mapPage virt
      List.mem_cons_self hframe (show IsFlagWord pteKernelData by decide) (by decide)
    have hext := (Roles.Extends.update_of_none hnone .reserved).trans hmap.role_keep
    have hprivate : KernelPrivate [] s₂ :=
      h.kernelPrivate.of_walk_eq hsame.kernelPML4_eq fun _ _ _ _ => VMState.walk_of_mem_eq hmem _ _
    refine ⟨role', ?_, hext, ?_⟩
    · exact {
        consistent := hconsistent'
        kernelPrivate := hprivate.mapPage hmap fun _ => by
          simp [UserEntry, pteKernelData, pteUser, ptePresent, pteRW]
        heap_reserved := by
          intro b hb
          rcases List.mem_cons.mp hb with rfl | hb
          · exact hmap.role_keep _ _ (Function.update_self ..)
          · exact hext _ _ (h.heap_reserved b hb) }
    · have hallocated := keeps_allocatePage s
      rw [heq] at hallocated
      exact hallocated.trans (keeps_mapPage s₂ s₂.kernelPML4 a virt pteKernelData)

/-- The whole loop. -/
theorem KernelReady.mapHeapPages {count : Nat} :
    ∀ {role : Roles} {heap frames : List Nat} {s s' : VMState} {i : Nat},
      KernelReady role heap s → mapHeapPages s i count = some (frames, s') →
      ∃ role', KernelReady role' (frames ++ heap) s' ∧ Roles.Extends role role' ∧ Keeps s s' := by
  induction count with
  | zero =>
    intro role heap frames s s' i h hrun
    obtain ⟨rfl, rfl⟩ := Prod.mk.inj (Option.some.inj hrun)
    exact ⟨role, h, fun _ _ => id, Keeps.refl _⟩
  | succ count ih =>
    intro role heap frames s s' i h hrun
    rw [TermOS.VM.mapHeapPages] at hrun
    rcases halloc : s.allocatePage with ⟨physical, s₁⟩
    rw [halloc] at hrun
    simp only at hrun
    split at hrun
    · exact absurd hrun (by simp)
    · next hne =>
      obtain ⟨⟨frames', s''⟩, hrest, heq⟩ := Option.map_eq_some_iff.mp hrun
      obtain ⟨rfl, rfl⟩ := Prod.mk.inj heq
      obtain ⟨role₁, h₁, hext₁, hkeeps₁⟩ :=
        h.turn halloc hne
      obtain ⟨role₂, h₂, hext₂, hkeeps₂⟩ := ih h₁ hrest
      refine ⟨role₂, ?_, hext₁.trans hext₂, hkeeps₁.trans hkeeps₂⟩
      exact {
        consistent := h₂.consistent
        kernelPrivate := h₂.kernelPrivate
        heap_reserved := by
          intro a ha
          apply h₂.heap_reserved
          simp only [List.mem_append, List.mem_cons] at ha ⊢
          tauto }

/-- What one turn of the loop does to the page tables: no other page is mapped anew, and the page is
mapped if frames are left over. -/
theorem KernelReady.turn_walk {role : Roles} {heap : List Nat} {s s₁ s' : VMState} {physical virt : Nat}
    (h : KernelReady role heap s) (halloc : s.allocatePage = (physical, s₁)) (hne : physical ≠ 0)
    (hmapped : (vmVirtualMemoryMapPage s₁ s₁.kernelPML4 physical virt pteKernelData).2 = s') :
    s'.pmm.freeCount ≤ s.pmm.freeCount ∧
    (∀ virt', pageNumber virt' ≠ pageNumber virt → s'.walk s'.kernelPML4 virt' = s.walk s.kernelPML4 virt') ∧
    (s'.pmm.freeCount ≠ 0 → s'.walk s'.kernelPML4 virt = some (physical, pteKernelData)) := by
  rcases h.consistent.allocatePage (x := .reserved) (by simp) with
    ⟨-, heq⟩ | ⟨a, s₂, heq, -, hframe, hnone, hcount, hsame, hmem, hconsistent⟩
  · rw [heq] at halloc
    exact absurd (congrArg Prod.fst halloc).symm hne
  · obtain ⟨rfl, rfl⟩ : a = physical ∧ s₂ = s₁ := by
      rw [heq] at halloc
      exact ⟨congrArg Prod.fst halloc, congrArg Prod.snd halloc⟩
    obtain ⟨role', -, hmap, hcases⟩ := hconsistent.mapPage virt
      List.mem_cons_self hframe (show IsFlagWord pteKernelData by decide) (by decide)
    rw [hmapped] at hmap hcases
    rw [hmap.kernelPML4_eq]
    refine ⟨by omega, fun virt' hpage => ?_, fun hfree => ?_⟩
    · rw [(hmap.walk_cases List.mem_cons_self).resolve_right fun hnew => hpage hnew.1,
        VMState.walk_of_mem_eq hmem, hsame.kernelPML4_eq]
    · rcases hcases with ⟨-, hzero, -⟩ | ⟨-, hwalk⟩
      · exact absurd hzero hfree
      · exact hwalk

/-- The pages of the arena have different numbers. -/
theorem pageNumber_heap_inj {i j : Nat} (hi : i < kVMHeapSizePages) (hj : j < kVMHeapSizePages)
    (hpage : pageNumber (kVMKernelHeapStart + i * kVMPageSize) =
      pageNumber (kVMKernelHeapStart + j * kVMPageSize)) : i = j := by
  simp only [pageNumber, kVMKernelHeapStart, kVMPageSize, kVMHeapSizePages] at hi hj hpage
  omega

/-- After the loop every page of the arena is mapped to one of the frames, if some frame is left over. -/
theorem KernelReady.mapHeapPages_walk {count : Nat} :
    ∀ {role : Roles} {heap frames : List Nat} {s s' : VMState} {i : Nat},
      KernelReady role heap s → TermOS.VM.mapHeapPages s i count = some (frames, s') →
      i + count ≤ kVMHeapSizePages → s'.pmm.freeCount ≠ 0 →
      s.pmm.freeCount ≠ 0 ∧
      (∀ virt, (∀ j, i ≤ j → j < kVMHeapSizePages →
          pageNumber virt ≠ pageNumber (kVMKernelHeapStart + j * kVMPageSize)) →
        s'.walk s'.kernelPML4 virt = s.walk s.kernelPML4 virt) ∧
      ∀ j, i ≤ j → j < i + count → ∃ frame ∈ frames, frame ≠ 0 ∧
        s'.walk s'.kernelPML4 (kVMKernelHeapStart + j * kVMPageSize) = some (frame, pteKernelData) := by
  -- Induction on the pages that are left; the later ones do not touch the first.
  induction count with
  | zero =>
    intro role heap frames s s' i _ hrun _ hfree
    obtain ⟨-, rfl⟩ := Prod.mk.inj (Option.some.inj hrun)
    exact ⟨hfree, fun _ _ => rfl, fun j hle hlt => absurd hlt (by omega)⟩
  | succ count ih =>
    intro role heap frames s s' i h hrun hi hfree
    rw [TermOS.VM.mapHeapPages] at hrun
    rcases halloc : s.allocatePage with ⟨physical, s₁⟩
    rw [halloc] at hrun
    simp only at hrun
    split at hrun
    · exact absurd hrun (by simp)
    · next hne =>
      obtain ⟨⟨frames', s''⟩, hrest, heq⟩ := Option.map_eq_some_iff.mp hrun
      obtain ⟨rfl, rfl⟩ := Prod.mk.inj heq
      obtain ⟨role₁, h₁, -, -⟩ := h.turn halloc hne
      obtain ⟨hfree₁, hother₁, hpages₁⟩ := ih h₁ hrest (by omega) hfree
      obtain ⟨hle, hother, hpage⟩ := h.turn_walk halloc hne rfl
      have hfree₀ : s.pmm.freeCount ≠ 0 := fun hzero => hfree₁ (Nat.le_zero.mp (hzero ▸ hle))
      refine ⟨hfree₀, fun virt hvirt => ?_, fun j hij hj => ?_⟩
      · rw [hother₁ virt fun j hij hj => hvirt j (by omega) hj,
          hother virt (hvirt i (Nat.le_refl i) (by omega))]
      · rcases Nat.eq_or_lt_of_le hij with rfl | hlt
        · refine ⟨physical, List.mem_cons_self, hne, ?_⟩
          rw [hother₁ _ fun j hij' hj' heq => ?_, hpage hfree₁]
          have := pageNumber_heap_inj (by omega) hj' heq
          omega
        · obtain ⟨frame, hframe, hne', hwalk⟩ := hpages₁ j hlt (by omega)
          exact ⟨frame, List.mem_cons_of_mem _ hframe, hne', hwalk⟩

/-- Page 0 is never free, so it holds a table only if there was no frame for
the kernel's PML4. -/
theorem zero_notTable_of_boot {m : Machine} (hm : m.Accepted) {pmm : VMPhysicalMemory}
    (hpmm : vmPhysicalMemoryInitialize m.memoryMap m.image = some pmm) {s : VMState} {role : Roles}
    (hroles : ∀ a, reservedRoles pmm a = some .reserved → role a = some .reserved ∨ a = s.kernelPML4)
    (hne : s.kernelPML4 ≠ 0) : ∀ r p, role 0 ≠ some (.table r p) := by
  have hzero : reservedRoles pmm 0 = some .reserved := by
    rw [reservedRoles, if_pos]
    exact ⟨rfl, fun hf => (free_frame_bounds hm hpmm hf).1 rfl⟩
  intro r p hrole
  rcases hroles 0 hzero with hres | hk
  · rw [hres] at hrole
    exact absurd hrole (by simp)
  · exact hne hk.symm

/-- Memory after `VMVirtualMemoryInitialize`, while some frame is free. -/
theorem boot_ready {m : Machine} (hm : m.Accepted) {s : VMState} (hboot : m.boot = some s)
    {f : Nat} (hf : s.pmm.FrameFree f) :
    ∃ role, KernelReady role [] s ∧
      ∃ pmm, vmPhysicalMemoryInitialize m.memoryMap m.image = some pmm ∧
        (∀ f, s.pmm.FrameFree f → pmm.FrameFree f) ∧
        ∀ a, reservedRoles pmm a = some .reserved →
          role a = some .reserved ∨ a = s.kernelPML4 := by
  obtain ⟨σ, hσ, rfl⟩ : ∃ σ, VMRun.boot m = some σ ∧ σ.vm = s := by
    obtain ⟨pmm, hpmm, rfl⟩ := Option.map_eq_some_iff.mp hboot
    exact ⟨_, by rw [VMRun.boot, hpmm, Option.map_some], rfl⟩
  obtain ⟨role, hrefines, hinit, hspaces, pmm, hpmm, hfree, hroles⟩ := boot_refines hm hσ
  have hwf := hrefines.wellFormed
  rw [VMRun.roots, hspaces] at hwf
  refine ⟨role, ?_, pmm, hpmm, fun f hf => (hfree f hf).1, hroles⟩
  exact {
    consistent := ⟨hwf, hinit, zero_notTable_of_boot hm hpmm hroles (hfree f hf).2⟩
    kernelPrivate := by
      intro r hr virt m hhalf hwalk
      rw [List.mem_singleton.mp hr] at hwalk
      exact hrefines.kernel_noUser hhalf hwalk
    heap_reserved := fun a ha => absurd ha (by simp) }

/-- `VMHeapInitialize` starts in a state with a free frame, or it panics. -/
theorem bootHeap_eq_some {m : Machine} {heap : List Nat} {s : VMState}
    (hboot : m.bootHeap = some (heap, s)) :
    ∃ s₀ f, m.boot = some s₀ ∧ s₀.pmm.FrameFree f ∧
      vmHeapInitializeFrames s₀ = some (heap, s) := by
  obtain ⟨s₀, hs₀, hheap⟩ := Option.bind_eq_some_iff.mp hboot
  rcases allocatePage_state_cases s₀ with ⟨-, heq⟩ | ⟨f, -, hf, -⟩
  · rw [vmHeapInitializeFrames, kVMHeapSizePages, mapHeapPages, heq] at hheap
    simp at hheap
  · exact ⟨s₀, f, hs₀, hf, hheap⟩

/-- After `VMHeapInitialize`: the heap's frames are reserved, and so is every
frame that the physical memory manager did not hand out. -/
theorem bootHeap_ready {m : Machine} (hm : m.Accepted) {heap : List Nat} {s : VMState}
    (hboot : m.bootHeap = some (heap, s)) :
    ∃ role, KernelReady role heap s ∧
      ∃ pmm, vmPhysicalMemoryInitialize m.memoryMap m.image = some pmm ∧
        (∀ f, s.pmm.FrameFree f → pmm.FrameFree f) ∧
        ∀ a, reservedRoles pmm a = some .reserved →
          role a = some .reserved ∨ a = s.kernelPML4 := by
  obtain ⟨s₀, f, hs₀, hf, hheap⟩ := bootHeap_eq_some hboot
  obtain ⟨role, hready, pmm, hpmm, hfree, hroles⟩ := boot_ready hm hs₀ hf
  obtain ⟨role', hready', hext, hkeeps⟩ := hready.mapHeapPages hheap
  rw [List.append_nil] at hready'
  refine ⟨role', hready', pmm, hpmm, fun f hf => hfree f (hkeeps.free_of_free hf), fun a ha => ?_⟩
  rcases hroles a ha with hrole | rfl
  · exact .inl (hext _ _ hrole)
  · exact .inr hkeeps.kernelPML4_eq.symm

/-- After `VMHeapInitialize`: every page of the arena is mapped to a frame that is the heap's, unless
the last frame went into it. -/
theorem bootHeap_walk {m : Machine} (hm : m.Accepted) {heap : List Nat} {s : VMState}
    (hboot : m.bootHeap = some (heap, s)) (hfree : s.pmm.freeCount ≠ 0) {j : Nat}
    (hj : j < kVMHeapSizePages) : ∃ frame ∈ heap, frame ≠ 0 ∧
      s.walk s.kernelPML4 (kVMKernelHeapStart + j * kVMPageSize) = some (frame, pteKernelData) := by
  obtain ⟨s₀, f, hs₀, hf, hheap⟩ := bootHeap_eq_some hboot
  obtain ⟨role, hready, -⟩ := boot_ready hm hs₀ hf
  obtain ⟨-, -, hpages⟩ := hready.mapHeapPages_walk hheap (by decide) hfree
  exact hpages j (Nat.zero_le j) (by rwa [Nat.zero_add])

end TermOS.VM
