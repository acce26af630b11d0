import TermOS.OS.HOTLoaderSegments
import TermOS.Tools.Elf2Hot

/-!
# Converting and loading

What `HOTLoad` builds from a file that the converter wrote: the memory image
that the program headers of the ELF file describe.
-/

namespace TermOS.Tools

open TermOS.Lib TermOS.Kernel TermOS.VM TermOS.OS VMState

/-! ## Section 1: Loadable files -/

/-- The address lies in the segment. -/
def ProgramHeader.Covers (ph : ProgramHeader) (virt : Nat) : Prop :=
  ph.pVaddr.toNat ≤ virt ∧ virt < ph.pVaddr.toNat + ph.pMemsz.toNat

/-- The segment has an address in the page. -/
def ProgramHeader.MeetsPage (ph : ProgramHeader) (page : Nat) : Prop :=
  ∃ virt, ph.Covers virt ∧ virt / 4096 = page

/-- The addresses of the pages that the segment meets. -/
def ProgramHeader.pages (ph : ProgramHeader) : List Nat :=
  if ph.pMemsz = 0 then []
  else pageLoop (ph.pVaddr.toNat / 4096 * 4096) (ph.pVaddr.toNat + ph.pMemsz.toNat)

/-- The addresses of the pages of all loadable segments. -/
def Elf.pages (elf : Elf) : List Nat := elf.loadSegments.flatMap ProgramHeader.pages

/-- A file whose loadable segments are where they can be loaded. -/
structure Elf.Loadable (elf : Elf) (buffer : ByteVec) : Prop where
  inBounds : ∀ ph ∈ elf.loadSegments, ph.InBounds buffer
  filesz_le : ∀ ph ∈ elf.loadSegments, ph.pFilesz.toNat ≤ ph.pMemsz.toNat
  noWrap : ∀ ph ∈ elf.loadSegments, ph.pVaddr.toNat + ph.pMemsz.toNat + 0xFFF < 2 ^ 64
  userHalf : ∀ ph ∈ elf.loadSegments, ∀ virt, ph.Covers virt → virt < 2 ^ 47
  disjoint : elf.loadSegments.Pairwise fun ph ph' => ∀ page, ¬ (ph.MeetsPage page ∧ ph'.MeetsPage page)

section Segments

variable {ph : ProgramHeader}

theorem mem_pages_iff {address : Nat} :
    address ∈ ph.pages ↔ address % 4096 = 0 ∧ ph.MeetsPage (address / 4096) := by
  have hzero : ph.pMemsz = 0 ↔ ph.pMemsz.toNat = 0 := by
    rw [← UInt64.toNat_inj]
    rfl
  rw [ProgramHeader.pages]
  split
  · next hmemsz =>
    rw [hzero] at hmemsz
    refine ⟨fun h => absurd h (by simp), ?_⟩
    rintro ⟨-, virt, ⟨hle, hlt⟩, -⟩
    omega
  · next hmemsz =>
    rw [hzero] at hmemsz
    constructor
    · intro h
      obtain ⟨n, rfl, hlt⟩ := mem_pageLoop.mp h
      simp only [kVMPageSize] at hlt ⊢
      refine ⟨by omega, max ph.pVaddr.toNat (ph.pVaddr.toNat / 4096 * 4096 + n * 4096), ⟨?_, ?_⟩, ?_⟩
      all_goals omega
    · rintro ⟨halign, virt, ⟨hle, hlt⟩, hpage⟩
      refine mem_pageLoop.mpr ⟨address / 4096 - ph.pVaddr.toNat / 4096, ?_, by omega⟩
      simp only [kVMPageSize]
      omega

theorem nodup_pages (ph : ProgramHeader) : ph.pages.Nodup := by
  rw [ProgramHeader.pages]
  split
  · exact List.nodup_nil
  · exact stride_nodup (by decide)

/-- The loader's page loop visits these pages. -/
theorem pages_loaded {offset : Nat} (h : ph.pVaddr.toNat + ph.pMemsz.toNat + 0xFFF < 2 ^ 64) :
    (hotSegment (ph, offset)).loaded.pages = ph.pages := by
  have hmemsz : (hotSegment (ph, offset)).loaded.memsz = ph.pMemsz.toNat := rfl
  have hzero : ph.pMemsz.toNat = 0 ↔ ph.pMemsz = 0 := by
    rw [← UInt64.toNat_inj]
    rfl
  have hstart : (hotSegment (ph, offset)).loaded.startPage = ph.pVaddr.toNat / 4096 * 4096 :=
    pageFloor_eq ph.pVaddr.toNat_lt
  have hend : (hotSegment (ph, offset)).loaded.endPage =
      (ph.pVaddr.toNat + ph.pMemsz.toNat + 0xFFF) / 4096 * 4096 := by
    show pageFloor (wrap64 (ph.pVaddr.toNat + ph.pMemsz.toNat + 0xFFF)) = _
    rw [wrap64_of_lt h, pageFloor_eq h]
  rw [HOTSegment.pages, ProgramHeader.pages, hmemsz, hstart, hend]
  apply if_congr hzero rfl
  -- rounding the end up adds no turn
  rw [pageLoop, pageLoop, stride, stride]
  congr 2
  simp only [kVMPageSize]
  omega

/-- The bytes that the loader puts into a page of the segment. -/
theorem pageByte_loaded {offset address i : Nat} (hoffset : offset + ph.pFilesz.toNat < 2 ^ 64)
    (haddress : LoopPage address) (hi : i < 4096) (data : Memory)
    (h : ph.pVaddr.toNat + ph.pFilesz.toNat < 2 ^ 64) :
    pageByte data (hotSegment (ph, offset)).loaded address i =
      if ph.pVaddr.toNat ≤ address + i ∧ address + i < ph.pVaddr.toNat + ph.pFilesz.toNat then
        data (offset + (address + i - ph.pVaddr.toNat))
      else 0 := by
  have hsource : (UInt64.ofNat offset).toNat = offset := by
    rw [UInt64.toNat_ofNat', Nat.mod_eq_of_lt (by omega)]
  have hbyte := HOTSegment.pageByte_eq (show (hotSegment (ph, offset)).loaded.vaddr +
    (hotSegment (ph, offset)).loaded.filesz < 2 ^ 64 from h)
    (show (UInt64.ofNat offset).toNat + ph.pFilesz.toNat < 2 ^ 64 by rwa [hsource]) haddress hi data
  rw [hbyte, HOTSegment.fileByte]
  show (if _ then data ((UInt64.ofNat offset).toNat + _) else 0) = _
  rw [hsource]
  rfl

end Segments

/-! ## Section 2: Reading the file back -/

/-- A segment's data lies at its offset. -/
theorem layout_data {buffer : ByteVec} {segments : List ProgramHeader}
    (h : ∀ ph ∈ segments, ph.InBounds buffer) :
    ∀ {offset : Nat} {p : ProgramHeader × Nat}, p ∈ layout offset segments →
      offset ≤ p.2 ∧ ∀ k, k < p.1.pFilesz.toNat →
        (segments.flatMap fun ph => ph.data buffer)[p.2 - offset + k]? =
          buffer.bytes[p.1.pOffset.toNat + k]? := by
  induction segments with
  | nil => exact fun hp => absurd hp (by simp [layout])
  | cons ph rest ih =>
    intro offset p hp
    have hbounds := h ph List.mem_cons_self
    have hlength : (ph.data buffer).length = ph.pFilesz.toNat := by
      rw [ProgramHeader.InBounds] at hbounds
      rw [ProgramHeader.data, List.length_take, List.length_drop]
      omega
    rw [List.flatMap_cons]
    rcases List.mem_cons.mp hp with rfl | hp
    · refine ⟨Nat.le_refl _, fun k hk => ?_⟩
      rw [Nat.sub_self, Nat.zero_add, List.getElem?_append_left (by rwa [hlength]),
        ProgramHeader.data, List.getElem?_take_of_lt hk, List.getElem?_drop]
    · obtain ⟨hle, hdata⟩ := ih (fun ph' hph' => h ph' (List.mem_cons_of_mem _ hph')) hp
      refine ⟨by omega, fun k hk => ?_⟩
      rw [List.getElem?_append_right (by omega), hlength, ← hdata k hk]
      congr 1
      omega

/-- The data of a segment ends before the sizes' sum after the offset. -/
theorem layout_le {segments : List ProgramHeader} :
    ∀ {offset : Nat} {p : ProgramHeader × Nat}, p ∈ layout offset segments →
      p.2 + p.1.pFilesz.toNat ≤ offset + (segments.map fun ph => ph.pFilesz.toNat).sum := by
  induction segments with
  | nil => exact fun hp => absurd hp (by simp [layout])
  | cons ph rest ih =>
    intro offset p hp
    rw [List.map_cons, List.sum_cons]
    rcases List.mem_cons.mp hp with rfl | hp
    · simp only
      omega
    · have := ih hp
      omega

/-- Segments that share no page have no more bytes than they cover addresses. -/
theorem sum_memsz_le {segments : List ProgramHeader} {addresses : Finset Nat}
    (hcovers : ∀ ph ∈ segments, ∀ virt, ph.Covers virt → virt ∈ addresses)
    (hdisjoint : segments.Pairwise fun ph ph' => ∀ page, ¬ (ph.MeetsPage page ∧ ph'.MeetsPage page)) :
    (segments.map fun ph => ph.pMemsz.toNat).sum ≤ addresses.card := by
  induction segments generalizing addresses with
  | nil => exact Nat.zero_le _
  | cons ph rest ih =>
    obtain ⟨hfirst, hrest⟩ := List.pairwise_cons.mp hdisjoint
    have hcovered : Finset.Ico ph.pVaddr.toNat (ph.pVaddr.toNat + ph.pMemsz.toNat) ⊆ addresses :=
      fun virt h => hcovers ph List.mem_cons_self virt (Finset.mem_Ico.mp h)
    -- the other segments cover none of the first one's addresses
    have hothers := ih

      (fun ph' hph' virt h => Finset.mem_sdiff.mpr
        ⟨hcovers ph' (List.mem_cons_of_mem _ hph') virt h, fun hin =>
          hfirst ph' hph' (virt / 4096) ⟨⟨virt, Finset.mem_Ico.mp hin, rfl⟩, ⟨virt, h, rfl⟩⟩⟩)
      hrest
    have hcard := Finset.card_le_card hcovered
    rw [Finset.card_sdiff_of_subset hcovered] at hothers
    rw [Nat.card_Ico, Nat.add_sub_cancel_left] at hothers hcard
    rw [List.map_cons, List.sum_cons]
    omega

section File

variable {elf : Elf} {buffer : ByteVec} {rest : Memory}

theorem Elf.Loadable.sum_filesz_le (h : elf.Loadable buffer) :
    (elf.loadSegments.map fun ph => ph.pFilesz.toNat).sum ≤ 2 ^ 47 :=
  calc (elf.loadSegments.map fun ph => ph.pFilesz.toNat).sum
    _ ≤ (elf.loadSegments.map fun ph => ph.pMemsz.toNat).sum :=
        List.sum_le_sum h.filesz_le
    _ ≤ (Finset.range (2 ^ 47)).card :=
        sum_memsz_le (fun ph hph virt hv => Finset.mem_range.mpr (h.userHalf ph hph virt hv))
          h.disjoint
    _ = 2 ^ 47 := Finset.card_range _

theorem Elf.length_loadSegments_lt (elf : Elf) : elf.loadSegments.length * 56 < 2 ^ 63 := by
  have hle := List.length_filter_le (fun ph : ProgramHeader => decide (ph.pType = ptLoad))
    elf.programHeaders
  have hlt := elf.length_lt
  rw [Elf.loadSegments]
  omega

theorem Elf.mem_placed {p : ProgramHeader × Nat} (hp : p ∈ elf.placed) : p.1 ∈ elf.loadSegments := by
  rw [← map_fst_layout elf.dataStart elf.loadSegments]
  exact List.mem_map_of_mem hp

theorem Elf.exists_placed {ph : ProgramHeader} (hph : ph ∈ elf.loadSegments) :
    ∃ offset, (ph, offset) ∈ elf.placed := by
  rw [← map_fst_layout elf.dataStart elf.loadSegments] at hph
  obtain ⟨⟨ph', offset⟩, hp, rfl⟩ := List.mem_map.mp hph
  exact ⟨offset, hp⟩

theorem Elf.Loadable.placed_lt (h : elf.Loadable buffer) {p : ProgramHeader × Nat}
    (hp : p ∈ elf.placed) : p.2 + p.1.pFilesz.toNat < 2 ^ 64 := by
  have hle := layout_le hp
  have hsum := h.sum_filesz_le
  have hlength := elf.length_loadSegments_lt
  rw [Elf.dataStart] at hle
  omega

/-- The header of the file. -/
theorem readHeader_hotFile (elf : Elf) (buffer : ByteVec) (rest : Memory) :
    (readHeader (Memory.ofBytes (elf.hotFile buffer) rest)).magic = hotMagic ∧
    (readHeader (Memory.ofBytes (elf.hotFile buffer) rest)).entryPoint = elf.entry.toNat ∧
    (readHeader (Memory.ofBytes (elf.hotFile buffer) rest)).segmentsCount =
      elf.loadSegments.length := by
  obtain ⟨hmagic, hentry, hcount⟩ := readHeader_bytes elf.hotHeader
    (elf.placed.flatMap (fun p => (hotSegment p).bytes) ++
      elf.loadSegments.flatMap fun ph => ph.data buffer) rest
  have hlt := elf.length_loadSegments_lt
  refine ⟨hmagic, hentry, hcount.trans ?_⟩
  show (UInt64.ofNat elf.loadSegments.length).toNat = _
  rw [UInt64.toNat_ofNat', Nat.mod_eq_of_lt (by omega)]

/-- The segment table of the file. -/
theorem readSegment_hotFile {i : Nat} {p : ProgramHeader × Nat} (h : elf.placed[i]? = some p) :
    readSegment (Memory.ofBytes (elf.hotFile buffer) rest) i = (hotSegment p).loaded := by
  have hi : i < elf.loadSegments.length := by
    rw [← length_layout elf.dataStart]
    exact (List.getElem?_eq_some_iff.mp h).1
  have hlt := elf.length_loadSegments_lt
  rw [readSegment, wrap64_of_lt (by simp only [hotHeaderSize, hotSegmentSize]; omega),
    ← length_header_bytes elf.hotHeader, Elf.hotFile, readSegmentAt_append, ← List.flatMap_map]
  exact readSegmentAt_table _ _ (by rw [List.getElem?_map, h, Option.map_some])

/-- The data of a segment. -/
theorem byte_hotFile (h : elf.Loadable buffer) {p : ProgramHeader × Nat} (hp : p ∈ elf.placed)
    {k : Nat} (hk : k < p.1.pFilesz.toNat) :
    Memory.ofBytes (elf.hotFile buffer) rest (p.2 + k) =
      buffer.bytes.getD (p.1.pOffset.toNat + k) 0 := by
  obtain ⟨hle, hdata⟩ := layout_data h.inBounds hp
  have hbounds := h.inBounds p.1 (elf.mem_placed hp)
  rw [ProgramHeader.InBounds] at hbounds
  have hsome : buffer.bytes[p.1.pOffset.toNat + k]? =
      some (buffer.bytes.getD (p.1.pOffset.toNat + k) 0) := by
    rw [List.getD_eq_getElem?_getD, List.getElem?_eq_getElem (by omega), Option.getD_some]
  have hlength : (elf.hotHeader.bytes ++ elf.placed.flatMap fun p => (hotSegment p).bytes).length =
      elf.dataStart := by
    rw [List.length_append, length_header_bytes, ← List.flatMap_map, List.length_flatMap]
    simp only [length_segment_bytes, List.map_map]
    rw [Elf.dataStart, ← length_layout elf.dataStart elf.loadSegments, ← Elf.placed]
    simp [hotHeaderSize, hotSegmentSize, Function.comp_def]
  apply Memory.ofBytes_eq_of_getElem?
  rw [Elf.hotFile, ← List.append_assoc, List.getElem?_append_right (by rw [hlength]; omega), hlength,
    ← hsome, ← hdata k hk]
  congr 1
  omega

/-- The turns of the loader on the file. -/
theorem hotTurns_hotFile (elf : Elf) (buffer : ByteVec) (rest : Memory) :
    hotTurns (Memory.ofBytes (elf.hotFile buffer) rest) = elf.placed.flatMap fun p =>
      (hotSegment p).loaded.pages.map fun address => ((hotSegment p).loaded, address) := by
  obtain ⟨hmagic, -, hcount⟩ := readHeader_hotFile elf buffer rest
  have htable : (List.range elf.loadSegments.length).map
      (readSegment (Memory.ofBytes (elf.hotFile buffer) rest)) =
        elf.placed.map fun p => (hotSegment p).loaded := by
    apply List.ext_getElem?
    intro i
    rw [List.getElem?_map, List.getElem?_map]
    cases hi : elf.placed[i]? with
    | none =>
      have hle : elf.loadSegments.length ≤ i := by
        rw [← length_layout elf.dataStart]
        exact List.getElem?_eq_none_iff.mp hi
      rw [List.getElem?_eq_none (by simpa using hle)]
      rfl
    | some p =>
      have hlt : i < elf.loadSegments.length := by
        rw [← length_layout elf.dataStart]
        exact (List.getElem?_eq_some_iff.mp hi).1
      rw [List.getElem?_range hlt, Option.map_some, Option.map_some, readSegment_hotFile hi]
  have hvisit := congrArg
    (fun segments => segments.flatMap fun segment : HOTSegment =>
      segment.pages.map fun address => (segment, address)) htable
  simp only [List.flatMap_map] at hvisit
  rw [hotTurns, hmagic, hcount, if_neg (fun h => h rfl)]
  exact hvisit

/-! ## Section 3: The image of the file -/

/-- The loader visits the pages of the ELF file. -/
theorem hotPages_hotFile (h : elf.Loadable buffer) (rest : Memory) :
    hotPages (Memory.ofBytes (elf.hotFile buffer) rest) = elf.pages := by
  rw [hotPages, hotTurns_hotFile, List.map_flatMap, Elf.pages]
  have hmap : ∀ p ∈ elf.placed, ((hotSegment p).loaded.pages.map fun address =>
      ((hotSegment p).loaded, address)).map Prod.snd = p.1.pages := by
    intro p hp
    rw [List.map_map, ← pages_loaded (h.noWrap p.1 (elf.mem_placed hp))]
    exact List.map_id _
  rw [List.flatMap_congr hmap]
  conv_rhs => rw [← map_fst_layout elf.dataStart elf.loadSegments, List.flatMap_map]
  rfl

theorem mem_hotTurns_hotFile (h : elf.Loadable buffer) (rest : Memory) (turn : HOTSegment × Nat) :
    turn ∈ hotTurns (Memory.ofBytes (elf.hotFile buffer) rest) ↔
      ∃ p ∈ elf.placed, turn.1 = (hotSegment p).loaded ∧ turn.2 ∈ p.1.pages := by
  rw [hotTurns_hotFile, List.mem_flatMap]
  apply exists_congr
  intro p
  apply and_congr_right
  intro hp
  rw [pages_loaded (h.noWrap p.1 (elf.mem_placed hp)), List.mem_map]
  constructor
  · rintro ⟨address, haddress, rfl⟩
    exact ⟨rfl, haddress⟩
  · rintro ⟨hsegment, haddress⟩
    exact ⟨turn.2, haddress, Prod.ext hsegment.symm rfl⟩

/-- Pages below `2 ^ 47` have the numbers of their addresses. -/
theorem pageNumber_of_lt {virt : Nat} (h : virt < 2 ^ 47) : pageNumber virt = virt / 4096 := by
  rw [pageNumber]
  omega

theorem Elf.Loadable.page_lt (h : elf.Loadable buffer) {ph : ProgramHeader}
    (hph : ph ∈ elf.loadSegments) {address : Nat} (ha : address ∈ ph.pages) : address < 2 ^ 47 := by
  obtain ⟨halign, virt, hcovers, hpage⟩ := mem_pages_iff.mp ha
  have := h.userHalf ph hph virt hcovers
  omega

/-- No page is visited twice. -/
theorem Elf.Loadable.nodup_pages (h : elf.Loadable buffer) :
    (elf.pages.map pageNumber).Nodup := by
  have hpages : elf.pages.Nodup := by
    rw [Elf.pages, List.nodup_flatMap]
    refine ⟨fun ph _ => TermOS.Tools.nodup_pages ph, ?_⟩
    apply h.disjoint.imp
    intro ph ph' hdisjoint a ha ha'
    exact hdisjoint _ ⟨(mem_pages_iff.mp ha).2, (mem_pages_iff.mp ha').2⟩
  apply List.Nodup.map_on _ hpages
  intro a ha b hb hab
  obtain ⟨ph, hph, ha⟩ := List.mem_flatMap.mp ha
  obtain ⟨ph', hph', hb⟩ := List.mem_flatMap.mp hb
  rw [pageNumber_of_lt (h.page_lt hph ha), pageNumber_of_lt (h.page_lt hph' hb)] at hab
  have := (mem_pages_iff.mp ha).1
  have := (mem_pages_iff.mp hb).1
  omega

/-- The image has the pages that the segments meet. -/
theorem hotImage_isSome_iff (h : elf.Loadable buffer) {virt : Nat} (hvirt : virt < 2 ^ 47) :
    (hotImage (Memory.ofBytes (elf.hotFile buffer) rest) (pageNumber virt)).isSome ↔
      ∃ ph ∈ elf.loadSegments, ph.MeetsPage (virt / 4096) := by
  have hnumbers : ((hotTurns (Memory.ofBytes (elf.hotFile buffer) rest)).map
      (turnPage (Memory.ofBytes (elf.hotFile buffer) rest))).map Prod.fst =
        elf.pages.map pageNumber := by
    rw [← hotPages_hotFile h rest, hotPages, List.map_map, List.map_map]
    rfl
  rw [pageNumber_of_lt hvirt]
  constructor
  · intro hsome
    have hmem : virt / 4096 ∈ elf.pages.map pageNumber := by
      by_contra hnot
      rw [← hnumbers] at hnot
      rw [hotImage, foldl_putPage_of_not_mem hnot] at hsome
      exact absurd hsome (by simp)
    obtain ⟨a, ha, hnumber⟩ := List.mem_map.mp hmem
    obtain ⟨ph, hph, ha⟩ := List.mem_flatMap.mp ha
    rw [pageNumber_of_lt (h.page_lt hph ha)] at hnumber
    exact ⟨ph, hph, hnumber ▸ (mem_pages_iff.mp ha).2⟩
  · rintro ⟨ph, hph, hmeets⟩
    have ha : virt / 4096 * 4096 ∈ ph.pages := by
      apply mem_pages_iff.mpr
      rw [Nat.mul_div_cancel _ (by decide)]
      exact ⟨Nat.mul_mod_left _ _, hmeets⟩
    obtain ⟨offset, hp⟩ := elf.exists_placed hph
    have hturn := (mem_hotTurns_hotFile h rest
      ((hotSegment (ph, offset)).loaded, virt / 4096 * 4096)).mpr ⟨_, hp, rfl, ha⟩
    have hpage := foldl_putPage_of_mem (hnumbers ▸ h.nodup_pages)
      (List.mem_map_of_mem hturn) fun _ => none
    rw [turnPage, pageNumber_of_lt (h.page_lt hph ha), Nat.mul_div_cancel _ (by decide)] at hpage
    rw [hotImage, hpage]
    rfl

/-- The bytes of the image in a page that a segment meets. -/
theorem hotImage_byte (h : elf.Loadable buffer) {ph : ProgramHeader} (hph : ph ∈ elf.loadSegments)
    {virt : Nat} (hmeets : ph.MeetsPage (virt / 4096)) :
    ((hotImage (Memory.ofBytes (elf.hotFile buffer) rest) (pageNumber virt)).map
      fun bytes => bytes (virt % 4096)) =
      some (if ph.pVaddr.toNat ≤ virt ∧ virt < ph.pVaddr.toNat + ph.pFilesz.toNat then
        buffer.bytes.getD (ph.pOffset.toNat + (virt - ph.pVaddr.toNat)) 0 else 0) := by
  -- Each page is loaded once, since the segments share none.
  have hnumbers : ((hotTurns (Memory.ofBytes (elf.hotFile buffer) rest)).map
      (turnPage (Memory.ofBytes (elf.hotFile buffer) rest))).map Prod.fst =
        elf.pages.map pageNumber := by
    rw [← hotPages_hotFile h rest, hotPages, List.map_map, List.map_map]
    rfl
  have ha : virt / 4096 * 4096 ∈ ph.pages := by
    apply mem_pages_iff.mpr
    rw [Nat.mul_div_cancel _ (by decide)]
    exact ⟨Nat.mul_mod_left _ _, hmeets⟩
  have hlt := h.page_lt hph ha
  -- The page is a turn of the loop over the segments of the file.
  obtain ⟨offset, hp⟩ := elf.exists_placed hph
  have hturn := (mem_hotTurns_hotFile h rest
    ((hotSegment (ph, offset)).loaded, virt / 4096 * 4096)).mpr ⟨_, hp, rfl, ha⟩
  have hpage := foldl_putPage_of_mem (hnumbers ▸ h.nodup_pages) (List.mem_map_of_mem hturn)
    fun _ => none
  -- In the low half a page's number is its address without the offset.
  have hnumber : pageNumber virt = pageNumber (virt / 4096 * 4096) := by
    rw [pageNumber_of_lt hlt, pageNumber_of_lt (by omega)]
    omega
  have hback : virt / 4096 * 4096 + virt % 4096 = virt := Nat.div_add_mod' virt 4096
  have hvaddr : ph.pVaddr.toNat + ph.pFilesz.toNat < 2 ^ 64 := by
    have := h.filesz_le ph hph
    have := h.noWrap ph hph
    omega
  have hoffset : offset + ph.pFilesz.toNat < 2 ^ 64 := h.placed_lt hp
  have hloop : LoopPage (virt / 4096 * 4096) := Nat.lt_of_lt_of_le
    (Nat.add_lt_add_right hlt 4096) (by decide)
  -- The loader copies the file's bytes into the page and fills up with zeros.
  have hbyte := pageByte_loaded hoffset hloop (Nat.mod_lt virt (by decide : 0 < 4096))
    (Memory.ofBytes (elf.hotFile buffer) rest) hvaddr
  rw [hback] at hbyte
  simp only [turnPage] at hpage
  rw [hotImage, hnumber, hpage, Option.map_some, hbyte]
  by_cases hin : ph.pVaddr.toNat ≤ virt ∧ virt < ph.pVaddr.toNat + ph.pFilesz.toNat
  · rw [if_pos hin, if_pos hin, byte_hotFile h hp (by simp only; omega)]
  · rw [if_neg hin, if_neg hin]

end File

/-! ## Section 4: The round trip -/

theorem lowHalf_iff_of_lt {virt : Nat} (h : virt < 2 ^ 47) : ¬ KernelHalf virt := by
  simp only [KernelHalf, pml4Slot, vmmPML4Index_eq]
  omega

/-- Converting an ELF file and loading the result into a fresh address space
with enough free frames maps exactly the pages that the loadable segments meet,
with the segments' bytes from the ELF file and zeros elsewhere, and returns the
entry point. -/
theorem hotLoad_elf2hot (parse : ByteVec → Option Elf) (buffer : ByteVec) (elf : Elf)
    (hparse : parse buffer = some elf) (h : elf.Loadable buffer)
    {spaces : List Nat} {s : VMState} (hs : ∃ role, Consistent spaces role s)
    {process : OSProcess} (hprocess : process.physicalPML4 ∈ spaces)
    (hfresh : ∀ virt, ¬ KernelHalf virt → s.walk process.physicalPML4 virt = none)
    (hframes : framesNeeded s process.physicalPML4 elf.pages ≤ s.pmm.freeCount) :
    ∃ hot, elf2hot parse buffer = some hot ∧ ∀ rest : Memory,
      (hotLoad s process (Memory.ofBytes hot rest)).1 = elf.entry.toNat ∧
      (∀ virt, virt < 2 ^ 47 →
        (((hotLoad s process (Memory.ofBytes hot rest)).2.walk process.physicalPML4 virt).isSome ↔
          ∃ ph ∈ elf.loadSegments, ph.MeetsPage (virt / 4096))) ∧
      (∀ ph ∈ elf.loadSegments, ∀ k, k < ph.pFilesz.toNat →
        userByte (hotLoad s process (Memory.ofBytes hot rest)).2 process.physicalPML4
          (ph.pVaddr.toNat + k) = buffer.bytes[ph.pOffset.toNat + k]?) ∧
      ∀ virt, virt < 2 ^ 47 → (∃ ph ∈ elf.loadSegments, ph.MeetsPage (virt / 4096)) →
        (∀ ph ∈ elf.loadSegments,
          ¬ (ph.pVaddr.toNat ≤ virt ∧ virt < ph.pVaddr.toNat + ph.pFilesz.toNat)) →
        userByte (hotLoad s process (Memory.ofBytes hot rest)).2 process.physicalPML4 virt =
          some 0 := by
  -- The four parts: the entry point, the pages, the bytes of the file, the zeros.
  refine ⟨elf.hotFile buffer, elf2hot_eq_some hparse h.inBounds, fun rest => ?_⟩
  obtain ⟨role, hholds⟩ := hotLoad_holds hs
    hprocess hfresh (by rwa [hotPages_hotFile h rest])
  obtain ⟨hmagic, hentry, -⟩ := readHeader_hotFile elf buffer rest
  refine ⟨?_, fun virt hvirt => ?_, fun ph hph k hk => ?_, fun virt hvirt hmeets hout => ?_⟩
  · rw [hotLoad]
    simp only [hmagic, ne_eq, not_true_eq_false, if_false, hentry]
  · rw [← hotImage_isSome_iff h hvirt]
    cases himage : hotImage (Memory.ofBytes (elf.hotFile buffer) rest) (pageNumber virt) with
    | none =>
      rw [hholds.unmapped (lowHalf_iff_of_lt hvirt) himage]
      simp
    | some bytes =>
      obtain ⟨frame, hwalk, -⟩ := hholds.mapped (lowHalf_iff_of_lt hvirt) himage
      rw [hwalk]
      rfl
  · have hle := h.filesz_le ph hph
    have hcovers : ph.Covers (ph.pVaddr.toNat + k) := ⟨by omega, by omega⟩
    have hbounds := h.inBounds ph hph
    rw [ProgramHeader.InBounds] at hbounds
    rw [hholds.userByte_eq (lowHalf_iff_of_lt (h.userHalf ph hph _ hcovers)),
      hotImage_byte h hph ⟨_, hcovers, rfl⟩, if_pos ⟨by omega, by omega⟩, Nat.add_sub_cancel_left,
      List.getD_eq_getElem?_getD, List.getElem?_eq_getElem (by omega), Option.getD_some]
  · obtain ⟨ph, hph, hmeets⟩ := hmeets
    rw [hholds.userByte_eq (lowHalf_iff_of_lt hvirt), hotImage_byte h hph hmeets,
      if_neg (hout ph hph)]

/-- Two bytes of code that end up at the end of a page, and a data page. -/
def smallElf : Elf where
  entry := 0x400FFE
  programHeaders := [
    { pType := ptLoad, isExecutable := true, pOffset := 1, pVaddr := 0x400FFE, pFilesz := 2, pMemsz := 2 },
    { pType := 6, isExecutable := false, pOffset := 0, pVaddr := 0, pFilesz := 0, pMemsz := 0 },
    { pType := ptLoad, isExecutable := false, pOffset := 3, pVaddr := 0x402010, pFilesz := 1, pMemsz := 8 }]
  length_lt := by decide

/-- The bytes of that file, as far as the segments need them. -/
def smallBuffer : ByteVec where
  bytes := [0x7F, 0xEB, 0xFE, 0x2A]
  length_lt := by decide

theorem smallElf_loadable : smallElf.Loadable smallBuffer where
  inBounds := by
    unfold ProgramHeader.InBounds
    decide
  filesz_le := by decide
  noWrap := by decide
  userHalf := by
    simp only [smallElf, Elf.loadSegments, ProgramHeader.Covers, ptLoad]
    intro ph hph virt hv
    rcases (by simpa using hph : _ ∨ _) with rfl | rfl
    · simp only [UInt64.reduceToNat] at hv
      omega
    · simp only [UInt64.reduceToNat] at hv
      omega
  disjoint := by
    have hsegments : smallElf.loadSegments =
      [⟨ptLoad, true, 1, 0x400FFE, 2, 2⟩, ⟨ptLoad, false, 3, 0x402010, 1, 8⟩] := by decide
    rw [hsegments, List.pairwise_pair]
    rintro page ⟨⟨v, hv, rfl⟩, v', hv', heq⟩
    simp only [ProgramHeader.Covers, UInt64.reduceToNat] at hv hv'
    omega

/-- The small file, converted and loaded into the first process. -/
theorem hotLoad_elf2hot_small : ∃ heap vm pml4 s hot,
    heapMachine.bootHeap = some (heap, vm) ∧ vmVirtualMemoryCreateAddressSpace vm = (pml4, s) ∧
    elf2hot (fun _ => some smallElf) smallBuffer = some hot ∧ ∀ rest : Memory,
      (hotLoad s ⟨pml4, kOSHeapStart⟩ (Memory.ofBytes hot rest)).1 = 0x400FFE ∧
      userByte (hotLoad s ⟨pml4, kOSHeapStart⟩ (Memory.ofBytes hot rest)).2 pml4 0x402010 =
        some 0x2A := by
  obtain ⟨heap, vm, pml4, s, hboot, heq, hisolated, hempty, hcount⟩ := exists_firstProcess
  have hpages : smallElf.pages = [0x400000, 0x402000] := by decide +kernel
  have hneeded : framesNeeded s pml4 smallElf.pages ≤ s.pmm.freeCount := by
    have htables := tablesNeeded_le s pml4
      (show ∀ virt ∈ [0x400000, 0x402000], upperPath virt ∈ ({[0, 0, 2]} : Finset _) by decide)
    rw [Finset.card_singleton] at htables
    rw [hpages, framesNeeded, List.length_cons, List.length_singleton]
    omega
  obtain ⟨hot, hwritten, hload⟩ := hotLoad_elf2hot (fun _ => some smallElf) smallBuffer smallElf rfl
    smallElf_loadable hisolated.1 (show OSProcess.physicalPML4 ⟨pml4, kOSHeapStart⟩ ∈ [pml4] by simp)
    hempty hneeded
  refine ⟨heap, vm, pml4, s, hot, hboot, heq, hwritten, fun rest => ?_⟩
  obtain ⟨hentry, -, hbytes, -⟩ := hload rest
  exact ⟨hentry, hbytes ⟨ptLoad, false, 3, 0x402010, 1, 8⟩ (by decide) 0 (by decide)⟩

end TermOS.Tools
