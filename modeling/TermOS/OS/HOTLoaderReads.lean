import TermOS.OS.HOTLoaderFrame
import TermOS.OS.HOTLoaderImage

/-!
# What the loader reads

`HOTLoad` is not told how long the file is. This module lists the offsets that
it reads of a file that stays as it is, in the order of the code, and says for
which files they all lie in the image buffer.
-/

namespace TermOS.OS

open TermOS.Lib TermOS.Kernel TermOS.VM VMState

/-! ## Section 1: The reads -/

/-- The offsets of `count` bytes from `start` on. -/
def readRange (start count : Nat) : List Nat := List.range' start count

@[simp] theorem mem_readRange {start count x : Nat} :
    x ∈ readRange start count ↔ start ≤ x ∧ x < start + count := by
  simp [readRange, List.mem_range'_1]

namespace HOTSegment

/-- The bytes that `MemoryCopy` gets for the page at `address`. -/
def copyReads (segment : HOTSegment) (address : Nat) : List Nat :=
  if segment.overleapStart address < segment.overleapEnd address then
    readRange (segment.sourceOffset address)
      (segment.overleapEnd address - segment.overleapStart address)
  else []

/-- How much of the file the page loop copies: nothing when the end of the
segment's file part wraps, and no more than the pages that are visited hold. -/
def copiedLength (segment : HOTSegment) : Nat :=
  if segment.vaddr + segment.filesz < 2 ^ 64 then min segment.filesz (segment.endPage - segment.vaddr)
  else 0

/-- What is copied lies below `size` in the file. -/
def CopiesWithin (segment : HOTSegment) (size : Nat) : Prop :=
  segment.memsz = 0 ∨ segment.copiedLength = 0 ∨ segment.offset + segment.copiedLength ≤ size

instance (segment : HOTSegment) (size : Nat) : Decidable (segment.CopiesWithin size) :=
  inferInstanceAs (Decidable (_ ∨ _ ∨ _))

end HOTSegment

/-- The reads of a turn of the page loop: `vaddr` and `filesz`, then `offset` and the bytes
themselves if there are any. -/
def pageReads (segment : HOTSegment) (base address : Nat) : List Nat :=
  readRange (base + 8) 8 ++ (readRange (base + 24) 8 ++
    if segment.overleapStart address < segment.overleapEnd address then
      readRange (base + 16) 8 ++ segment.copyReads address
    else [])

/-- The body of the segment loop: `memsz`, `vaddr`, and the pages. -/
def segmentReads (data : Memory) (i : Nat) : List Nat :=
  let base := wrap64 (hotHeaderSize + hotSegmentSize * i)
  let segment := readSegment data i
  readRange (base + 32) 8 ++
    if segment.memsz = 0 then []
    else readRange (base + 8) 8 ++ segment.pages.flatMap (pageReads segment base)

/-- All reads of `HOTLoad` in a file that stays as it is: `magic`, then `segments_count`
before each turn and at the end, and `entry_point`. -/
def hotLoadReads (data : Memory) : List Nat :=
  readRange 0 4 ++
    if (readHeader data).magic ≠ hotMagic then []
    else (List.range (readHeader data).segmentsCount).flatMap (fun i =>
        readRange 16 8 ++ segmentReads data i) ++
      readRange 16 8 ++ readRange 8 8

/-- The fields that the loader looks at fit into `size` bytes: the magic number;
with the right one, the header up to the number of segments, every record, and
everything that is copied. -/
def HOTFits (data : Memory) (size : Nat) : Prop :=
  4 ≤ size ∧ ((readHeader data).magic = hotMagic → 24 ≤ size ∧
    ∀ i < (readHeader data).segmentsCount,
      hotHeaderSize + hotSegmentSize * (i + 1) ≤ size ∧ (readSegment data i).CopiesWithin size)

/-! ## Section 2: One segment -/

section Segment

variable {segment : HOTSegment} {size : Nat}

/-- The page loop ends at a page boundary. -/
theorem HOTSegment.endPage_floor (segment : HOTSegment) :
    segment.endPage = segment.endPage / 4096 * 4096 ∧ segment.endPage < 2 ^ 64 := by
  have hlt : wrap64 (segment.vaddr + segment.memsz + 0xFFF) < 2 ^ 64 := Nat.mod_lt _ (by decide)
  rw [HOTSegment.endPage, pageFloor_eq hlt]
  omega

/-- The page loop copies the file's bytes one by one, up to where it ends. -/
theorem HOTSegment.mem_copyReads (hvaddr : segment.vaddr < 2 ^ 64) (hmemsz : segment.memsz ≠ 0)
    {j : Nat} (hj : j < segment.copiedLength) (hoffset : segment.offset + j < 2 ^ 64) :
    ∃ address ∈ segment.pages, segment.overleapStart address < segment.overleapEnd address ∧
      segment.offset + j ∈ segment.copyReads address := by
  unfold HOTSegment.copiedLength at hj
  split at hj
  case isFalse => exact absurd hj (Nat.not_lt_zero _)
  next hend =>
  rw [Nat.lt_min] at hj
  have hendPage := segment.endPage_floor
  -- the page of the byte
  obtain ⟨address, haddress⟩ : ∃ a, a = (segment.vaddr + j) / 4096 * 4096 := ⟨_, rfl⟩
  have hpage : address ∈ segment.pages := by
    rw [HOTSegment.pages, if_neg hmemsz, HOTSegment.startPage, pageFloor_eq hvaddr, mem_pageLoop]
    refine ⟨(segment.vaddr + j) / 4096 - segment.vaddr / 4096, ?_, ?_⟩
    · rw [haddress, kVMPageSize]
      omega
    · omega
  have hloop := (loopPage_of_mem_pages hvaddr hpage).2
  have hstart : segment.overleapStart address = max address segment.vaddr := by
    rw [HOTSegment.overleapStart]
    split <;> omega
  have hstop : segment.overleapEnd address = min (address + 4096) (segment.vaddr + segment.filesz) := by
    rw [HOTSegment.overleapEnd, HOTSegment.fileEnd, kVMPageSize, wrap64_of_lt hloop,
      wrap64_of_lt hend]
    split <;> omega
  have hcopies : segment.overleapStart address < segment.overleapEnd address := by omega
  refine ⟨address, hpage, hcopies, ?_⟩
  rw [HOTSegment.copyReads, if_pos hcopies, mem_readRange, HOTSegment.sourceOffset,
    wrap64_of_lt (by omega)]
  omega

/-- Only bytes that are copied are read. -/
theorem HOTSegment.lt_of_mem_copyReads (hvaddr : segment.vaddr < 2 ^ 64)
    (hfilesz : segment.filesz < 2 ^ 64) {address x : Nat} (hpage : address ∈ segment.pages)
    (hx : x ∈ segment.copyReads address) :
    segment.memsz ≠ 0 ∧ segment.copiedLength ≠ 0 ∧ x < segment.offset + segment.copiedLength := by
  have hloop := (loopPage_of_mem_pages hvaddr hpage).2
  rw [LoopPage] at hloop
  unfold HOTSegment.pages at hpage
  split at hpage
  case isTrue => simp at hpage
  next hmemsz =>
  refine ⟨hmemsz, ?_⟩
  obtain ⟨n, haddress, hlt⟩ := mem_pageLoop.mp hpage
  have hendPage := segment.endPage_floor
  rw [HOTSegment.startPage, pageFloor_eq hvaddr, kVMPageSize] at haddress
  unfold HOTSegment.copyReads at hx
  split at hx
  case isFalse => simp at hx
  next hcopies =>
  rw [mem_readRange, HOTSegment.sourceOffset] at hx
  have hwrap : wrap64 (segment.offset + (segment.overleapStart address - segment.vaddr)) ≤
      segment.offset + (segment.overleapStart address - segment.vaddr) := Nat.mod_le _ _
  have hstart : segment.overleapStart address = max address segment.vaddr := by
    rw [HOTSegment.overleapStart]
    split <;> omega
  have hstop : segment.overleapEnd address = min (address + 4096) segment.fileEnd := by
    rw [HOTSegment.overleapEnd, kVMPageSize, wrap64_of_lt hloop]
    split <;> omega
  -- a file part whose end wraps ends before it starts
  have hend : segment.vaddr + segment.filesz < 2 ^ 64 := by
    by_contra hover
    have hfileEnd : segment.fileEnd < segment.vaddr := by
      rw [HOTSegment.fileEnd, wrap64]
      omega
    omega
  have hfileEnd : segment.fileEnd = segment.vaddr + segment.filesz := wrap64_of_lt hend
  rw [HOTSegment.copiedLength, if_pos hend]
  omega

/-- The page loop stays below `size` exactly when what is copied does. -/
theorem HOTSegment.copyReads_within_iff (hvaddr : segment.vaddr < 2 ^ 64)
    (hfilesz : segment.filesz < 2 ^ 64) (hoffset : segment.offset < 2 ^ 64) (hsize : size < 2 ^ 63) :
    (∀ address ∈ segment.pages, ∀ x ∈ segment.copyReads address, x < size) ↔
      segment.CopiesWithin size := by
  constructor
  · intro hreads
    by_contra hnot
    simp only [HOTSegment.CopiesWithin, not_or, Nat.not_le] at hnot
    obtain ⟨hmemsz, hcopied, hover⟩ := hnot
    -- the last byte, or the one at the top of the 64-bit range if that comes first
    by_cases hwrap : segment.offset + segment.copiedLength ≤ 2 ^ 64
    · obtain ⟨address, hpage, -, hx⟩ := HOTSegment.mem_copyReads (j := segment.copiedLength - 1) hvaddr
        hmemsz (by omega) (by omega)
      have hlt := hreads address hpage _ hx
      omega
    · obtain ⟨address, hpage, -, hx⟩ := HOTSegment.mem_copyReads (j := 2 ^ 64 - 1 - segment.offset)
        hvaddr hmemsz (by omega) (by omega)
      have hlt := hreads address hpage _ hx
      omega
  · intro hwithin address hpage x hx
    obtain ⟨hmemsz, hcopied, hlt⟩ := HOTSegment.lt_of_mem_copyReads hvaddr hfilesz hpage hx
    rcases hwithin with hzero | hzero | hle
    · exact absurd hzero hmemsz
    · exact absurd hzero hcopied
    · exact Nat.lt_of_lt_of_le hlt hle

end Segment

/-! ## Section 3: The file -/

section File

variable {data data' : Memory} {size : Nat}

/-- A field of the file is read from its own bytes. -/
theorem word_eq_of_reads {start : Nat} (h : ∀ x ∈ readRange start 8, data x = data' x) :
    data.word start = data'.word start := by
  apply Memory.readLE_congr
  intro x hle hlt
  exact h x (mem_readRange.mpr ⟨hle, hlt⟩)

theorem copyIn_congr {pointer sourceOffset count : Nat} {s : VMState}
    (h : ∀ k, k < count → data (sourceOffset + k) = data' (sourceOffset + k)) :
    copyIn s pointer data sourceOffset count = copyIn s pointer data' sourceOffset count := by
  rw [copyIn, copyIn, memoryCopyFrom_eq_blit, memoryCopyFrom_eq_blit, Memory.blit_congr _ _ h]

/-- What is read for a page decides what is put into it, and what is read for it. -/
theorem fillPage_congr {base address : Nat}
    (h : ∀ x ∈ pageReads (readSegmentAt data base) base address, data x = data' x) :
    pageReads (readSegmentAt data' base) base address =
        pageReads (readSegmentAt data base) base address ∧
      ∀ s physicalPage, fillPage data' (readSegmentAt data' base) s physicalPage address =
        fillPage data (readSegmentAt data base) s physicalPage address := by
  unfold pageReads at h ⊢
  simp only [List.mem_append] at h
  have hvaddr : (readSegmentAt data base).vaddr = (readSegmentAt data' base).vaddr :=
    word_eq_of_reads fun x hx => h x (.inl hx)
  have hfilesz : (readSegmentAt data base).filesz = (readSegmentAt data' base).filesz :=
    word_eq_of_reads fun x hx => h x (.inr (.inl hx))
  have hstart : (readSegmentAt data' base).overleapStart address =
      (readSegmentAt data base).overleapStart address := by
    simp only [HOTSegment.overleapStart, hvaddr]
  have hstop : (readSegmentAt data' base).overleapEnd address =
      (readSegmentAt data base).overleapEnd address := by
    rw [HOTSegment.overleapEnd, HOTSegment.overleapEnd, HOTSegment.fileEnd, HOTSegment.fileEnd,
      hvaddr, hfilesz]
  simp only [fillPage, HOTSegment.copyReads, hstart, hstop]
  by_cases hcopies : (readSegmentAt data base).overleapStart address <
      (readSegmentAt data base).overleapEnd address
  · -- the bytes that are copied are among those that are read
    simp only [if_pos hcopies, List.mem_append] at h ⊢
    have hoffset : (readSegmentAt data base).offset = (readSegmentAt data' base).offset :=
      word_eq_of_reads fun x hx => h x (.inr (.inr (.inl hx)))
    have hsource : (readSegmentAt data' base).sourceOffset address =
        (readSegmentAt data base).sourceOffset address := by
      simp only [HOTSegment.sourceOffset, hstart, hoffset, hvaddr]
    rw [hsource]
    refine ⟨rfl, fun s physicalPage => (copyIn_congr fun k hk => ?_).symm⟩
    refine h _ (.inr (.inr (.inr ?_)))
    rw [HOTSegment.copyReads, if_pos hcopies, mem_readRange]
    omega
  · simp only [if_neg hcopies, true_and, implies_true]

/-- What is read for a segment decides what loading it does. -/
theorem loadSegment_congr {i : Nat} (h : ∀ x ∈ segmentReads data i, data x = data' x) (pml4 : Nat)
    (s : VMState) :
    loadSegment pml4 data s (readSegment data i) = loadSegment pml4 data' s (readSegment data' i) := by
  unfold segmentReads at h
  simp only [List.mem_append] at h
  have hmemsz : (readSegment data i).memsz = (readSegment data' i).memsz :=
    word_eq_of_reads fun x hx => h x (.inl hx)
  rw [loadSegment_eq, loadSegment_eq]
  by_cases hzero : (readSegment data i).memsz = 0
  · have hzero' := hmemsz.symm.trans hzero
    rw [HOTSegment.pages, if_pos hzero, HOTSegment.pages, if_pos hzero']
    rfl
  simp only [if_neg hzero, List.mem_append, List.mem_flatMap] at h
  have hvaddr : (readSegment data i).vaddr = (readSegment data' i).vaddr :=
    word_eq_of_reads fun x hx => h x (.inr (.inl hx))
  have hpages : (readSegment data' i).pages = (readSegment data i).pages := by
    simp only [HOTSegment.pages, HOTSegment.startPage, HOTSegment.endPage, hmemsz, hvaddr]
  rw [hpages, List.foldl_map, List.foldl_map]
  apply List.foldl_ext
  intro t address haddress
  have hfill : ∀ s physicalPage, fillPage data' (readSegment data' i) s physicalPage address =
      fillPage data (readSegment data i) s physicalPage address :=
    (fillPage_congr fun x hx => h x (.inr (.inr ⟨address, haddress, hx⟩))).2
  simp only [hotTurn, loadPage, hfill]

/-- Loading depends on nothing but the bytes that are read. -/
theorem hotLoad_congr (h : ∀ x ∈ hotLoadReads data, data x = data' x) (s : VMState)
    (process : OSProcess) : hotLoad s process data = hotLoad s process data' := by
  unfold hotLoadReads at h
  simp only [List.mem_append] at h
  have hmagic : (readHeader data).magic = (readHeader data').magic := by
    apply Memory.readLE_congr
    intro x hle hlt
    exact h x (.inl (mem_readRange.mpr ⟨hle, hlt⟩))
  rw [hotLoad, hotLoad, ← hmagic]
  by_cases hbad : (readHeader data).magic ≠ hotMagic
  · simp only [if_pos hbad]
  simp only [if_neg hbad, List.mem_append] at h ⊢
  have hcount : (readHeader data).segmentsCount = (readHeader data').segmentsCount :=
    word_eq_of_reads fun x hx => h x (.inr (.inl (.inr hx)))
  have hentry : (readHeader data).entryPoint = (readHeader data').entryPoint :=
    word_eq_of_reads fun x hx => h x (.inr (.inr hx))
  have hturns : (List.range (readHeader data).segmentsCount).foldl
      (fun s i => loadSegment process.physicalPML4 data s (readSegment data i)) s =
      (List.range (readHeader data).segmentsCount).foldl
        (fun s i => loadSegment process.physicalPML4 data' s (readSegment data' i)) s := by
    apply List.foldl_ext
    intro t i hi
    apply loadSegment_congr
    intro x hx
    apply h x
    refine .inr (.inl (.inl (List.mem_flatMap.mpr ⟨i, hi, ?_⟩)))
    exact List.mem_append_right _ hx
  rw [← hcount, ← hentry, hturns]

/-- The reads of one segment, when its record does not wrap. -/
theorem segmentReads_within_iff {i : Nat} (hbase : hotHeaderSize + hotSegmentSize * i < 2 ^ 64)
    (hsize : size < 2 ^ 63) :
    (∀ x ∈ segmentReads data i, x < size) ↔
      hotHeaderSize + hotSegmentSize * (i + 1) ≤ size ∧ (readSegment data i).CopiesWithin size := by
  obtain ⟨hvaddr, -⟩ := readSegment_lt data i
  have hwithin : (∀ address ∈ _, ∀ x ∈ _, x < size) ↔ (readSegment data i).CopiesWithin size :=
    HOTSegment.copyReads_within_iff hvaddr (Memory.word_lt data _) (Memory.word_lt data _) hsize
  rw [← hwithin]
  unfold segmentReads
  simp only [hotHeaderSize, hotSegmentSize] at hbase ⊢
  rw [wrap64_of_lt hbase]
  constructor
  -- The record is read to its last byte, and a page that copies reads what it copies.
  · intro hreads
    have hlast := hreads (32 + 40 * i + 39) (by simp [mem_readRange])
    refine ⟨by omega, fun address hpage x hx => hreads x ?_⟩
    have hmemsz : (readSegment data i).memsz ≠ 0 := by
      intro hzero
      simp [HOTSegment.pages, hzero] at hpage
    have hcopies : (readSegment data i).overleapStart address <
        (readSegment data i).overleapEnd address := by
      by_contra hnot
      simp [HOTSegment.copyReads, hnot] at hx
    simp only [if_neg hmemsz, List.mem_append, List.mem_flatMap]
    refine .inr (.inr ⟨address, hpage, ?_⟩)
    unfold pageReads
    rw [if_pos hcopies]
    exact List.mem_append_right _ (List.mem_append_right _ (List.mem_append_right _ hx))
  -- The reads of the record lie before its end, and the other reads are copies.
  · rintro ⟨hrecord, hcopies⟩ x hx
    simp only [List.mem_append, mem_readRange] at hx
    rcases hx with hx | hx
    · omega
    · split at hx
      · simp at hx
      · simp only [List.mem_append, List.mem_flatMap, mem_readRange] at hx
        rcases hx with hx | ⟨address, hpage, hx⟩
        · omega
        · unfold pageReads at hx
          simp only [List.mem_append, mem_readRange] at hx
          rcases hx with hx | hx | hx
          · omega
          · omega
          · split at hx
            · simp only [List.mem_append, mem_readRange] at hx
              rcases hx with hx | hx
              · omega
              · exact hcopies address hpage x hx
            · simp at hx

/-- The reads of a file that stays as it is lie in its first `size` bytes exactly when
the fields that the loader looks at, the records and what it copies do. -/
theorem hotLoadReads_fits_iff (hsize : size < 2 ^ 63) :
    (∀ x ∈ hotLoadReads data, x < size) ↔ HOTFits data size := by
  unfold HOTFits hotLoadReads
  constructor
  · intro hreads
    have hfirst := hreads 3 (by simp [mem_readRange])
    refine ⟨by omega, fun hmagic => ?_⟩
    simp only [hmagic, ne_eq, not_true_eq_false, if_false] at hreads
    have hcount := hreads 23 (by simp [mem_readRange])
    refine ⟨by omega, fun i => ?_⟩
    -- each record starts where the one before it ended, so that none wraps
    induction i with
    | zero =>
      intro hi
      apply (segmentReads_within_iff (by decide) hsize).mp
      intro x hx
      apply hreads
      simp only [List.mem_append, List.mem_flatMap, List.mem_range]
      exact .inr (.inl (.inl ⟨0, hi, .inr hx⟩))
    | succ i ih =>
      intro hi
      obtain ⟨hbefore, -⟩ := ih (by omega)
      apply (segmentReads_within_iff (by omega) hsize).mp
      intro x hx
      apply hreads
      simp only [List.mem_append, List.mem_flatMap, List.mem_range]
      exact .inr (.inl (.inl ⟨i + 1, hi, .inr hx⟩))
  · rintro ⟨hfour, hfits⟩ x hx
    simp only [List.mem_append, mem_readRange] at hx
    rcases hx with hx | hx
    · omega
    · split at hx
      · simp at hx
      · next hmagic =>
        obtain ⟨hheader, hsegments⟩ := hfits (not_not.mp hmagic)
        simp only [List.mem_append, List.mem_flatMap, List.mem_range, mem_readRange] at hx
        rcases hx with (⟨i, hi, hx | hx⟩ | hx) | hx
        · omega
        · obtain ⟨hrecord, hcopies⟩ := hsegments i hi
          refine (segmentReads_within_iff ?_ hsize).mpr ⟨hrecord, hcopies⟩ x hx
          simp only [hotHeaderSize, hotSegmentSize] at hrecord ⊢
          omega
        · omega
        · omega

section Records

variable (hsize : size < 2 ^ 64)
  (hrecords : hotHeaderSize + hotSegmentSize * (readHeader data).segmentsCount ≤ size)
  (h : ∀ x, x < size → data x = data' x)

include hsize hrecords h

/-- The header and all records lie in the part that is the same. -/
theorem records_congr : readHeader data = readHeader data' ∧
    ∀ i < (readHeader data).segmentsCount, readSegment data i = readSegment data' i := by
  refine ⟨readHeader_congr fun x hx => h x (by omega), fun i hi => ?_⟩
  have hle : hotHeaderSize + hotSegmentSize * (i + 1) ≤ size :=
    le_trans (Nat.add_le_add_left (Nat.mul_le_mul_left _ hi) _) hrecords
  exact readSegment_congr (Nat.lt_of_le_of_lt hle hsize) fun x hx => h x (Nat.lt_of_lt_of_le hx hle)

/-- What an image asks for stands in its header and in its records. -/
theorem hotPages_congr : hotPages data = hotPages data' := by
  obtain ⟨hheader, hsegments⟩ := records_congr hsize hrecords h
  unfold hotPages hotTurns
  rw [← hheader]
  split
  · rfl
  · apply congrArg (List.map Prod.snd)
    apply List.flatMap_congr
    intro i hi
    rw [hsegments i (List.mem_range.mp hi)]

/-- And so does what has to fit. -/
theorem hotFits_congr : HOTFits data size ↔ HOTFits data' size := by
  obtain ⟨hheader, hsegments⟩ := records_congr hsize hrecords h
  unfold HOTFits
  rw [← hheader]
  constructor
  · rintro ⟨hfour, hrest⟩
    refine ⟨hfour, fun hmagic => ⟨(hrest hmagic).1, fun i hi => ?_⟩⟩
    rw [← hsegments i hi]
    exact (hrest hmagic).2 i hi
  · rintro ⟨hfour, hrest⟩
    refine ⟨hfour, fun hmagic => ⟨(hrest hmagic).1, fun i hi => ?_⟩⟩
    rw [hsegments i hi]
    exact (hrest hmagic).2 i hi

end Records

end File

end TermOS.OS
