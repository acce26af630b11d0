import TermOS.OS.HOTLoaderFrame
import TermOS.OS.HOTLoaderImage

/-!
# Segments that share a page

Each page of each segment gets a fresh, cleared frame. Where two segments meet
in a page, the later one's frame replaces the earlier one's, and the bytes of
the earlier one are lost unless the fresh frame happens to hold them.
-/

namespace TermOS.OS

open TermOS.Lib TermOS.Kernel TermOS.VM VMState

/-! ## Section 1: Segments of a file -/

/-- The segment table. -/
def hotSegments (data : Memory) : List HOTSegment :=
  (List.range (readHeader data).segmentsCount).map (readSegment data)

namespace HOTSegment

/-- The address lies in the segment. -/
def Covers (segment : HOTSegment) (virt : Nat) : Prop :=
  segment.vaddr ≤ virt ∧ virt < segment.vaddr + segment.memsz

/-- The segment has an address in the page. -/
def MeetsPage (segment : HOTSegment) (page : Nat) : Prop :=
  ∃ virt, segment.Covers virt ∧ virt / 4096 = page

/-- What the segment has at an address: its part of the file, and zeros around it. -/
def fileByte (segment : HOTSegment) (data : Memory) (virt : Nat) : UInt8 :=
  if segment.vaddr ≤ virt ∧ virt < segment.vaddr + segment.filesz then
    data (segment.offset + (virt - segment.vaddr))
  else 0

variable {segment : HOTSegment}

/-- The page loop visits exactly the pages that the segment meets. -/
theorem mem_pages_iff (h : segment.vaddr + segment.memsz + 0xFFF < 2 ^ 64) {address : Nat} :
    address ∈ segment.pages ↔ address % 4096 = 0 ∧ segment.MeetsPage (address / 4096) := by
  have hstart : segment.startPage = segment.vaddr / 4096 * 4096 := pageFloor_eq (by omega)
  have hend : segment.endPage = (segment.vaddr + segment.memsz + 0xFFF) / 4096 * 4096 := by
    rw [endPage, wrap64_of_lt h, pageFloor_eq h]
  rw [pages]
  split
  · next hmemsz =>
    refine ⟨fun hmem => absurd hmem (by simp), ?_⟩
    rintro ⟨-, virt, ⟨hle, hlt⟩, -⟩
    omega
  · next hmemsz =>
    rw [hstart, hend]
    constructor
    · intro hmem
      obtain ⟨n, rfl, hlt⟩ := mem_pageLoop.mp hmem
      simp only [kVMPageSize] at hlt ⊢
      refine ⟨by omega, max segment.vaddr (segment.vaddr / 4096 * 4096 + n * 4096), ⟨?_, ?_⟩, ?_⟩
      all_goals omega
    · rintro ⟨halign, virt, ⟨hle, hlt⟩, hpage⟩
      refine mem_pageLoop.mpr ⟨address / 4096 - segment.vaddr / 4096, ?_, by omega⟩
      simp only [kVMPageSize]
      omega

theorem nodup_pages (segment : HOTSegment) : segment.pages.Nodup := by
  rw [pages]
  split
  · exact List.nodup_nil
  · exact stride_nodup (by decide)

theorem loopPage_of_lt {address : Nat} (h : address < 2 ^ 47) : LoopPage address :=
  Nat.lt_of_lt_of_le (Nat.add_lt_add_right h 4096) (by decide)

/-- The bytes of the page that a turn of the loop fills. -/
theorem pageByte_eq (hvaddr : segment.vaddr + segment.filesz < 2 ^ 64)
    (hoffset : segment.offset + segment.filesz < 2 ^ 64) {address i : Nat}
    (haddress : LoopPage address) (hi : i < 4096) (data : Memory) :
    pageByte data segment address i = segment.fileByte data (address + i) := by
  rw [LoopPage] at haddress
  have hstart : segment.overleapStart address = max address segment.vaddr := by
    rw [overleapStart]
    split <;> omega
  have hend : segment.overleapEnd address =
      min (address + 4096) (segment.vaddr + segment.filesz) := by
    rw [overleapEnd, fileEnd, kVMPageSize, wrap64_of_lt haddress, wrap64_of_lt hvaddr]
    split <;> omega
  have hcond : max address segment.vaddr ≤ address + i ∧
      address + i < min (address + 4096) (segment.vaddr + segment.filesz) ↔
      segment.vaddr ≤ address + i ∧ address + i < segment.vaddr + segment.filesz := by
    omega
  rw [pageByte, hstart, hend, fileByte]
  by_cases hin : segment.vaddr ≤ address + i ∧ address + i < segment.vaddr + segment.filesz
  · rw [if_pos (hcond.mpr hin), if_pos hin, sourceOffset, hstart, wrap64_of_lt (by omega)]
    congr 1
    omega
  · rw [if_neg (fun h => hin (hcond.mp h)), if_neg hin]

end HOTSegment

/-- A file of `size` bytes with the magic number whose segments lie in the user
half, share no byte and have their data in the file. The file is an object in
the kernel's half of memory. -/
structure HOTImage (data : Memory) (size : Nat) : Prop where
  magic : (readHeader data).magic = hotMagic
  size_le : size ≤ 2 ^ 47
  inFile : ∀ segment ∈ hotSegments data, segment.memsz ≠ 0 → segment.offset + segment.filesz ≤ size
  userHalf : ∀ segment ∈ hotSegments data, ∀ virt, segment.Covers virt → virt < 2 ^ 47
  disjoint : (hotSegments data).Pairwise fun segment segment' =>
    ∀ virt, ¬ (segment.Covers virt ∧ segment'.Covers virt)

/-- Where the last segment on a page is not the only one, its fresh page holds
the bytes of the others. -/
def NothingLost (data : Memory) : Prop :=
  ∀ before segment middle last after,
    hotSegments data = before ++ segment :: (middle ++ last :: after) →
    ∀ virt, segment.Covers virt → last.MeetsPage (virt / 4096) →
      (∀ later ∈ after, ¬ later.MeetsPage (virt / 4096)) →
      last.fileByte data virt = segment.fileByte data virt

/-! ## Section 2: The last segment on a page -/

/-- Of the pages with one number the last one counts. -/
theorem foldl_putPage_of_last {earlier later : List (Nat × (Nat → UInt8))}
    {page : Nat × (Nat → UInt8)} {number : Nat} (hpage : page.1 = number)
    (hlater : number ∉ later.map Prod.fst) (image : UserImage) :
    (earlier ++ page :: later).foldl UserImage.putPage image number = some page.2 := by
  subst hpage
  rw [List.foldl_append, List.foldl_cons, foldl_putPage_of_not_mem hlater, UserImage.putPage,
    Function.update_self]

/-- Some segment is the last to meet a page that a segment meets. -/
theorem exists_last_meeting {segments : List HOTSegment} {page : Nat}
    (h : ∃ segment ∈ segments, segment.MeetsPage page) :
    ∃ before last after, segments = before ++ last :: after ∧ last.MeetsPage page ∧
      ∀ later ∈ after, ¬ later.MeetsPage page := by
  induction segments with
  | nil => exact absurd h (by simp)
  | cons first rest ih =>
    by_cases hrest : ∃ segment ∈ rest, segment.MeetsPage page
    · obtain ⟨before, last, after, rfl, hlast, hafter⟩ := ih hrest
      exact ⟨first :: before, last, after, rfl, hlast, hafter⟩
    · obtain ⟨segment, hmem, hmeets⟩ := h
      rcases List.mem_cons.mp hmem with rfl | hmem
      · exact ⟨[], segment, rest, rfl, hmeets, fun later hl hm => hrest ⟨later, hl, hm⟩⟩
      · exact absurd ⟨segment, hmem, hmeets⟩ hrest

section Image

variable {data : Memory} {size : Nat}

theorem hotTurns_eq (h : (readHeader data).magic = hotMagic) :
    hotTurns data = (hotSegments data).flatMap fun segment =>
      segment.pages.map fun address => (segment, address) := by
  rw [hotTurns, if_neg (fun hne => hne h), hotSegments, List.flatMap_map]

/-- The numbers that the loop computes for a segment of an image do not wrap. -/
theorem HOTImage.bounds (h : HOTImage data size) {segment : HOTSegment}
    (hsegment : segment ∈ hotSegments data) {page : Nat} (hmeets : segment.MeetsPage page) :
    segment.vaddr + segment.memsz + 0xFFF < 2 ^ 64 ∧ segment.vaddr + segment.filesz < 2 ^ 64 ∧
      segment.offset + segment.filesz < 2 ^ 64 ∧ page * 4096 < 2 ^ 47 := by
  obtain ⟨virt, ⟨hle, hlt⟩, rfl⟩ := hmeets
  have hend := h.userHalf segment hsegment (segment.vaddr + segment.memsz - 1)
    ⟨by omega, by omega⟩
  have hfile := h.inFile segment hsegment (by omega)
  have hsize := h.size_le
  omega

theorem HOTImage.mem_pages_iff (h : HOTImage data size) {segment : HOTSegment}
    (hsegment : segment ∈ hotSegments data) {address : Nat} :
    address ∈ segment.pages ↔ address % 4096 = 0 ∧ segment.MeetsPage (address / 4096) := by
  by_cases hmemsz : segment.memsz = 0
  · rw [HOTSegment.pages, if_pos hmemsz]
    refine ⟨fun hmem => absurd hmem (by simp), ?_⟩
    rintro ⟨-, virt, ⟨hle, hlt⟩, -⟩
    omega
  · apply HOTSegment.mem_pages_iff
    have hmeets : segment.MeetsPage (segment.vaddr / 4096) :=
      ⟨segment.vaddr, ⟨Nat.le_refl _, by omega⟩, rfl⟩
    exact (h.bounds hsegment hmeets).1

/-- The image has on each page the bytes of the last segment that meets it. -/
theorem HOTImage.hotImage_eq (h : HOTImage data size) {before after : List HOTSegment}
    {last : HOTSegment} (hsegments : hotSegments data = before ++ last :: after) {page : Nat}
    (hlast : last.MeetsPage page) (hafter : ∀ later ∈ after, ¬ later.MeetsPage page) :
    ∃ bytes, hotImage data page = some bytes ∧
      ∀ i, i < 4096 → bytes i = last.fileByte data (page * 4096 + i) := by
  have hmem : last ∈ hotSegments data := by
    rw [hsegments]
    simp
  obtain ⟨-, hvaddr, hoffset, hlow⟩ := h.bounds hmem hlast
  have haddress : page * 4096 ∈ last.pages := by
    rw [h.mem_pages_iff hmem, Nat.mul_div_cancel _ (by decide)]
    exact ⟨Nat.mul_mod_left _ _, hlast⟩
  have hnumber : ∀ {address}, address < 2 ^ 47 → address % 4096 = 0 →
      (pageNumber address = page ↔ address = page * 4096) := by
    intro address hlt halign
    rw [pageNumber]
    omega
  obtain ⟨xs, ys, hsplit⟩ := List.append_of_mem haddress
  -- later turns of the same segment go to other pages
  have hys : page * 4096 ∉ ys := by
    have hnodup := last.nodup_pages
    rw [hsplit, List.nodup_append] at hnodup
    exact (List.nodup_cons.mp hnodup.2.1).1
  have hturns : (hotTurns data).map (turnPage data) =
      ((before.flatMap fun segment => segment.pages.map fun address => (segment, address)) ++
          xs.map fun address => (last, address)).map (turnPage data) ++
        turnPage data (last, page * 4096) ::
          ((ys.map fun address => (last, address)) ++
            after.flatMap fun segment => segment.pages.map fun address => (segment, address)).map
              (turnPage data) := by
    rw [hotTurns_eq h.magic, hsegments, List.flatMap_append, List.flatMap_cons, hsplit]
    simp only [List.map_append, List.map_cons, List.append_assoc, List.cons_append]
  have hpage : (turnPage data (last, page * 4096)).1 = page :=
    (hnumber hlow (Nat.mul_mod_left _ _)).mpr rfl
  refine ⟨pageByte data last (page * 4096), ?_, fun i hi =>
    HOTSegment.pageByte_eq hvaddr hoffset (HOTSegment.loopPage_of_lt hlow) hi data⟩
  rw [hotImage, hturns]
  apply foldl_putPage_of_last hpage
  intro hin
  obtain ⟨entry, hentry, heq⟩ := List.mem_map.mp hin
  obtain ⟨turn, hturn, rfl⟩ := List.mem_map.mp hentry
  simp only [turnPage] at heq
  rcases List.mem_append.mp hturn with hsame | hother
  · obtain ⟨address, hy, rfl⟩ := List.mem_map.mp hsame
    have hmem' : address ∈ last.pages := by
      rw [hsplit]
      simp [hy]
    obtain ⟨halign, hmeets⟩ := (h.mem_pages_iff hmem).mp hmem'
    obtain ⟨-, -, -, hlt⟩ := h.bounds hmem hmeets
    rw [(hnumber (by omega) halign).mp heq] at hy
    exact hys hy
  · obtain ⟨later, hlater, hin⟩ := List.mem_flatMap.mp hother
    obtain ⟨address, hy, rfl⟩ := List.mem_map.mp hin
    have hmem' : later ∈ hotSegments data := by
      rw [hsegments]
      simp [hlater]
    obtain ⟨halign, hmeets⟩ := (h.mem_pages_iff hmem').mp hy
    obtain ⟨-, -, -, hlt⟩ := h.bounds hmem' hmeets
    rw [(hnumber (by omega) halign).mp heq, Nat.mul_div_cancel _ (by decide)] at hmeets
    exact hafter later hlater hmeets

/-! ## Section 3: What survives loading -/

variable {spaces : List Nat} {s : VMState}

/-- After loading, ring 3 sees at an address the byte of the last segment that
meets the address's page. -/
theorem HOTImage.userByte_eq (h : HOTImage data size) (hs : ∃ role, Consistent spaces role s)
    {process : OSProcess} (hprocess : process.physicalPML4 ∈ spaces)
    (hfresh : ∀ virt, ¬ KernelHalf virt → s.walk process.physicalPML4 virt = none)
    (henough : framesNeeded s process.physicalPML4 (hotPages data) ≤ s.pmm.freeCount)
    {before after : List HOTSegment} {last : HOTSegment}
    (hsegments : hotSegments data = before ++ last :: after) {virt : Nat}
    (hlast : last.MeetsPage (virt / 4096)) (hafter : ∀ later ∈ after, ¬ later.MeetsPage (virt / 4096)) :
    userByte (hotLoad s process data).2 process.physicalPML4 virt =
      some (last.fileByte data virt) := by
  obtain ⟨role, hholds⟩ : ∃ role, Holds spaces role (hotLoad s process data).2
      process.physicalPML4 (hotImage data) := hotLoad_holds hs hprocess hfresh henough
  obtain ⟨bytes, himage, hbytes⟩ := h.hotImage_eq hsegments hlast hafter
  have hmem : last ∈ hotSegments data := by
    rw [hsegments]
    simp
  obtain ⟨-, -, -, hlow⟩ := h.bounds hmem hlast
  have hnumber : pageNumber virt = virt / 4096 := by
    rw [pageNumber]
    omega
  have hhalf : ¬ KernelHalf virt := by
    simp only [KernelHalf, pml4Slot, vmmPML4Index_eq]
    omega
  rw [hholds.userByte_eq hhalf, hnumber, himage, Option.map_some,
    hbytes _ (Nat.mod_lt _ (by decide)), Nat.div_add_mod']

end Image

/-- Two segments of one byte each, next to each other on one page. The byte of
the first one is in the file, that of the second one is not. -/
def adjacentFile : Memory :=
  let header := (((Memory.writeLE (fun _ => 0) 0 4 hotMagic).writeLE 4 1 1).setWord 8 0x400000).setWord
    16 2
  let first := (((header.setWord 40 0x400000).setWord 48 112).setWord 56 1).setWord 64 1
  ((first.setWord 80 0x400001).setWord 104 1).setByte 112 0x2A

theorem hotSegments_adjacentFile :
    hotSegments adjacentFile = [⟨0, 0x400000, 112, 1, 1⟩, ⟨0, 0x400001, 0, 0, 1⟩] := by
  decide +kernel

theorem hotImage_adjacentFile : HOTImage adjacentFile 113 where
  magic := by decide +kernel
  size_le := by decide
  inFile := by
    rw [hotSegments_adjacentFile]
    decide
  userHalf := by
    rw [hotSegments_adjacentFile]
    rintro segment hmem virt ⟨-, hlt⟩
    rcases (by simpa using hmem : _ ∨ _) with rfl | rfl <;> (simp only at hlt; omega)
  disjoint := by
    rw [hotSegments_adjacentFile, List.pairwise_pair]
    rintro virt ⟨⟨-, hlt⟩, ⟨hle, -⟩⟩
    simp only at hlt hle
    omega

/-- One page visited twice and three tables. -/
theorem framesNeeded_adjacentFile (s : VMState) (pml4 : Nat) :
    framesNeeded s pml4 (hotPages adjacentFile) ≤ 5 := by
  have hpages : hotPages adjacentFile = [0x400000, 0x400000] := by decide +kernel
  have htables := tablesNeeded_le s pml4
    (show ∀ virt ∈ [0x400000, 0x400000], upperPath virt ∈ ({upperPath 0x400000} : Finset _) by simp)
  rw [Finset.card_singleton] at htables
  rw [hpages, framesNeeded, List.length_cons, List.length_singleton]
  omega

/-- Loading the file loses the byte of the first segment. -/
theorem hotLoad_loses_adjacent : ∃ heap vm pml4 s,
    heapMachine.bootHeap = some (heap, vm) ∧ vmVirtualMemoryCreateAddressSpace vm = (pml4, s) ∧
    HOTImage adjacentFile 113 ∧ framesNeeded s pml4 (hotPages adjacentFile) ≤ s.pmm.freeCount ∧
    ¬ ∀ segment ∈ hotSegments adjacentFile, ∀ k, k < segment.memsz →
      userByte (hotLoad s ⟨pml4, kOSHeapStart⟩ adjacentFile).2 pml4 (segment.vaddr + k) =
        some (if k < segment.filesz then adjacentFile (segment.offset + k) else 0) := by
  obtain ⟨heap, vm, pml4, s, hboot, heq, hisolated, hempty, hcount⟩ := exists_firstProcess
  have hneeded := framesNeeded_adjacentFile s pml4
  refine ⟨heap, vm, pml4, s, hboot, heq, hotImage_adjacentFile, by omega, fun hplace => ?_⟩
  -- the second segment is the last one on the page, and has no file data there
  have hseen := hotImage_adjacentFile.userByte_eq hisolated.1
    (show OSProcess.physicalPML4 ⟨pml4, kOSHeapStart⟩ ∈ [pml4] by simp) hempty
    (show framesNeeded s pml4 (hotPages adjacentFile) ≤ s.pmm.freeCount by omega)
    (show hotSegments adjacentFile = [⟨0, 0x400000, 112, 1, 1⟩] ++ ⟨0, 0x400001, 0, 0, 1⟩ :: [] from
      hotSegments_adjacentFile)
    (show HOTSegment.MeetsPage ⟨0, 0x400001, 0, 0, 1⟩ (0x400000 / 4096) from
      ⟨0x400001, ⟨by decide, by decide⟩, by decide⟩) (by simp)
  have hwanted := hplace ⟨0, 0x400000, 112, 1, 1⟩ (by simp [hotSegments_adjacentFile]) 0 (by decide)
  have hdata : adjacentFile 112 = 0x2A := by decide +kernel
  simp only [Nat.add_zero, Nat.zero_lt_one, if_true, hdata] at hwanted
  rw [hseen] at hwanted
  exact absurd hwanted (by decide)

/-- After loading an image with enough free frames, every byte of every segment
is in place if and only if nothing is lost on the pages that segments share. -/
theorem hotLoad_bytes_iff (spaces : List Nat) (s : VMState) (hs : ∃ role, Consistent spaces role s)
    (process : OSProcess) (hprocess : process.physicalPML4 ∈ spaces)
    (hfresh : ∀ virt, ¬ KernelHalf virt → s.walk process.physicalPML4 virt = none)
    (data : Memory) (size : Nat) (himage : HOTImage data size)
    (henough : framesNeeded s process.physicalPML4 (hotPages data) ≤ s.pmm.freeCount) :
    (∀ segment ∈ hotSegments data, ∀ k, k < segment.memsz →
      userByte (hotLoad s process data).2 process.physicalPML4 (segment.vaddr + k) =
        some (if k < segment.filesz then data (segment.offset + k) else 0)) ↔
      NothingLost data := by
  have hbyte : ∀ (segment : HOTSegment) k, segment.fileByte data (segment.vaddr + k) =
      if k < segment.filesz then data (segment.offset + k) else 0 := by
    intro segment k
    rw [HOTSegment.fileByte]
    apply if_congr (by omega) ?_ rfl
    rw [Nat.add_sub_cancel_left]
  constructor
  · intro hplace before segment middle last after hsegments virt hcovers hlast hafter
    have hmem : segment ∈ hotSegments data := by
      rw [hsegments]
      simp
    have hseen := himage.userByte_eq hs hprocess hfresh henough
      (show hotSegments data = (before ++ segment :: middle) ++ last :: after by
        rw [hsegments, List.append_assoc, List.cons_append]) hlast hafter
    have hwanted := hplace segment hmem (virt - segment.vaddr) (by
      obtain ⟨hle, hlt⟩ := hcovers
      omega)
    rw [← hbyte, Nat.add_sub_cancel' hcovers.1, hseen] at hwanted
    exact Option.some.inj hwanted
  · intro hnothing segment hmem k hk
    have hcovers : segment.Covers (segment.vaddr + k) := ⟨by omega, by omega⟩
    obtain ⟨before, rest, hsegments⟩ := List.append_of_mem hmem
    rw [← hbyte]
    -- either a later segment meets the page too, or this one is the last
    by_cases hrest : ∃ later ∈ rest, later.MeetsPage ((segment.vaddr + k) / 4096)
    · obtain ⟨middle, last, after, rfl, hlast, hafter⟩ := exists_last_meeting hrest
      rw [himage.userByte_eq hs hprocess hfresh henough
        (show hotSegments data = (before ++ segment :: middle) ++ last :: after by
          rw [hsegments, List.append_assoc, List.cons_append]) hlast hafter,
        hnothing before segment middle last after hsegments _ hcovers hlast hafter]
    · exact himage.userByte_eq hs hprocess hfresh henough hsegments ⟨_, hcovers, rfl⟩
        fun later hl hm => hrest ⟨later, hl, hm⟩

/-- The two sides for the file with adjacent segments, in the first process. -/
theorem hotLoad_bytes_iff_adjacent : ∃ heap vm pml4 s,
    heapMachine.bootHeap = some (heap, vm) ∧ vmVirtualMemoryCreateAddressSpace vm = (pml4, s) ∧
    ((∀ segment ∈ hotSegments adjacentFile, ∀ k, k < segment.memsz →
      userByte (hotLoad s ⟨pml4, kOSHeapStart⟩ adjacentFile).2 pml4 (segment.vaddr + k) =
        some (if k < segment.filesz then adjacentFile (segment.offset + k) else 0)) ↔
      NothingLost adjacentFile) := by
  obtain ⟨heap, vm, pml4, s, hboot, heq, hisolated, hempty, hcount⟩ := exists_firstProcess
  have hneeded := framesNeeded_adjacentFile s pml4
  have henough : framesNeeded s pml4 (hotPages adjacentFile) ≤ s.pmm.freeCount := by omega
  exact ⟨heap, vm, pml4, s, hboot, heq, hotLoad_bytes_iff [pml4] s hisolated.1 ⟨pml4, kOSHeapStart⟩
    List.mem_cons_self hempty adjacentFile 113 hotImage_adjacentFile henough⟩

end TermOS.OS
