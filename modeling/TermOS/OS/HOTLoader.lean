import TermOS.OS.UserMemory
import TermOS.VM.PageTurn

/-!
# The loader of HOT executables

Model of `kernel/src/OS/Exec/HOTLoader.c` over the file layout of
`common/hot_header.h`. `data` is the memory that the pointer to the file image
sees, by offset: the bytes of the file, and behind them whatever lies there.
The image buffer is kernel heap, so loading does not write to its frames; a segment
in the kernel half may map other frames in their place (`HOTLoaderView.lean`).
-/

namespace TermOS.OS

open TermOS.Lib TermOS.Kernel TermOS.VM TermOS.Lib.TableForest VMState

/-! ## Section 1: The file layout -/

/-- `HOT_MAGIC` -/
def hotMagic : Nat := 0x21544F48

/-- `HOTHeader`; the padding bytes are one little-endian number. -/
structure HOTHeader where
  magic : Nat
  version : Nat
  reservedPad : Nat
  entryPoint : Nat
  segmentsCount : Nat
  reserved : Nat
  deriving DecidableEq, Repr

/-- `HOTSegment` -/
structure HOTSegment where
  type : Nat
  vaddr : Nat
  offset : Nat
  filesz : Nat
  memsz : Nat
  deriving DecidableEq, Repr

/-- `sizeof(HOTHeader)` -/
def hotHeaderSize : Nat := 32

/-- `sizeof(HOTSegment)` -/
def hotSegmentSize : Nat := 40

/-- `(HOTHeader*)data` -/
def readHeader (data : Memory) : HOTHeader where
  magic := data.readLE 0 4
  version := data.readLE 4 1
  reservedPad := data.readLE 5 3
  entryPoint := data.word 8
  segmentsCount := data.word 16
  reserved := data.word 24

/-- The segment at offset `base`. -/
def readSegmentAt (data : Memory) (base : Nat) : HOTSegment where
  type := data.word base
  vaddr := data.word (base + 8)
  offset := data.word (base + 16)
  filesz := data.word (base + 24)
  memsz := data.word (base + 32)

/-- `segments[i]` -/
def readSegment (data : Memory) (i : Nat) : HOTSegment :=
  readSegmentAt data (wrap64 (hotHeaderSize + hotSegmentSize * i))

/-! ## Section 2: The page loop -/

/-- `address & ~(0xFFFULL)` -/
def pageFloor (address : Nat) : Nat := address &&& 0xFFFFFFFFFFFFF000

namespace HOTSegment

/-- `start` -/
def startPage (segment : HOTSegment) : Nat := pageFloor segment.vaddr

/-- `end` -/
def endPage (segment : HOTSegment) : Nat :=
  pageFloor (wrap64 (segment.vaddr + segment.memsz + 0xFFF))

/-- The addresses of the page loop, none for a segment that is skipped. -/
def pages (segment : HOTSegment) : List Nat :=
  if segment.memsz = 0 then [] else pageLoop segment.startPage segment.endPage

/-- `segment->vaddr + segment->filesz` -/
def fileEnd (segment : HOTSegment) : Nat := wrap64 (segment.vaddr + segment.filesz)

/-- `pageOverleapStart` -/
def overleapStart (segment : HOTSegment) (address : Nat) : Nat :=
  if address > segment.vaddr then address else segment.vaddr

/-- `pageOverleapEnd` -/
def overleapEnd (segment : HOTSegment) (address : Nat) : Nat :=
  if wrap64 (address + kVMPageSize) < segment.fileEnd then wrap64 (address + kVMPageSize)
  else segment.fileEnd

/-- `sourceOffset` -/
def sourceOffset (segment : HOTSegment) (address : Nat) : Nat :=
  wrap64 (segment.offset + (segment.overleapStart address - segment.vaddr))

end HOTSegment

/-- `MemoryCopy(pointer, data + sourceOffset, count)` -/
def copyIn (s : VMState) (pointer : Nat) (data : Memory) (sourceOffset count : Nat) : VMState :=
  { s with mem := memoryCopyFrom data s.mem (s.translate pointer) sourceOffset count }

/-- The body of the page loop after the page was mapped: clear the frame, then
copy the part of the file that falls into the page. -/
def fillPage (data : Memory) (segment : HOTSegment) (s : VMState) (physicalPage address : Nat) :
    VMState :=
  let kernelVirtAddress := physToHhdm physicalPage
  let s := s.clearPage kernelVirtAddress
  let pageOverleapStart := segment.overleapStart address
  let pageOverleapEnd := segment.overleapEnd address
  if pageOverleapStart < pageOverleapEnd then
    let copySize := pageOverleapEnd - pageOverleapStart
    let destinationOffset := pageOverleapStart - address
    copyIn s (wrap64 (kernelVirtAddress + destinationOffset)) data (segment.sourceOffset address)
      copySize
  else s

/-- The body of the page loop. The results of the allocation and of the mapping
are not checked: without a free frame the page gets frame 0. -/
def loadPage (pml4 : Nat) (data : Memory) (segment : HOTSegment) (s : VMState) (address : Nat) :
    VMState :=
  let (physicalPage, s) := s.allocatePage
  let s := (vmVirtualMemoryMapPage s pml4 physicalPage address pteUserData).2
  fillPage data segment s physicalPage address

/-- The body of the segment loop. -/
def loadSegment (pml4 : Nat) (data : Memory) (s : VMState) (segment : HOTSegment) : VMState :=
  if segment.memsz = 0 then s
  else (pageLoop segment.startPage segment.endPage).foldl (loadPage pml4 data segment) s

/-- `HOTLoad`; a file without the magic number is refused with -1. The header and the records are
read once here and anew in each turn there, which makes no difference to an image that asks for
no page of the kernel half, see `hotLoadFrom`. -/
def hotLoad (s : VMState) (process : OSProcess) (data : Memory) : Nat × VMState :=
  let header := readHeader data
  if header.magic ≠ hotMagic then (2 ^ 64 - 1, s)
  else
    (header.entryPoint, (List.range header.segmentsCount).foldl
      (fun s i => loadSegment process.physicalPML4 data s (readSegment data i)) s)

/-- The turns of the two loops, in order. -/
def hotTurns (data : Memory) : List (HOTSegment × Nat) :=
  if (readHeader data).magic ≠ hotMagic then []
  else
    (List.range (readHeader data).segmentsCount).flatMap fun i =>
      (readSegment data i).pages.map fun address => (readSegment data i, address)

/-- The pages that the loops visit, in order. -/
def hotPages (data : Memory) : List Nat := (hotTurns data).map Prod.snd

/-- One turn. -/
def hotTurn (pml4 : Nat) (data : Memory) (s : VMState) (turn : HOTSegment × Nat) : VMState :=
  loadPage pml4 data turn.1 s turn.2

theorem loadSegment_eq (pml4 : Nat) (data : Memory) (s : VMState) (segment : HOTSegment) :
    loadSegment pml4 data s segment =
      (segment.pages.map fun address => (segment, address)).foldl (hotTurn pml4 data) s := by
  rw [loadSegment, HOTSegment.pages]
  split
  · rfl
  · rw [List.foldl_map]
    rfl

/-- `HOTLoad` is its turns. -/
theorem hotLoad_eq (s : VMState) (process : OSProcess) (data : Memory) :
    (hotLoad s process data).2 =
      (hotTurns data).foldl (hotTurn process.physicalPML4 data) s := by
  rw [hotLoad, hotTurns]
  split
  · rfl
  · rw [List.foldl_flatMap]
    simp only [loadSegment_eq]

/-! ## Section 3: Filling a page -/

theorem pageFloor_eq {address : Nat} (h : address < 2 ^ 64) :
    pageFloor address = address / 4096 * 4096 := by
  have hmask : 0xFFFFFFFFFFFFF000 = (2 ^ 52 - 1) <<< 12 := by decide
  have hlt : address / 4096 < 2 ^ 52 := by omega
  apply Nat.eq_of_testBit_eq
  intro i
  rw [pageFloor, hmask, Nat.testBit_and, Nat.testBit_shiftLeft, Nat.testBit_two_pow_sub_one,
    show (4096 : Nat) = 2 ^ 12 by decide, Nat.testBit_mul_two_pow, Nat.testBit_div_two_pow]
  by_cases hi : 12 ≤ i
  · simp only [hi, decide_true, Bool.true_and, Nat.sub_add_cancel hi]
    by_cases hi' : i - 12 < 52
    · simp only [hi', decide_true, Bool.and_true]
    · -- the address has no bit from 64 on
      have hbit : address.testBit i = false := by
        apply Nat.testBit_lt_two_pow
        calc address < 2 ^ 64 := h
          _ ≤ 2 ^ i := Nat.pow_le_pow_right (by omega) (by omega)
      rw [hbit, Bool.false_and]
  · simp [hi]

/-- The address can be formed by the page loop. -/
def LoopPage (address : Nat) : Prop := address + 4096 < 2 ^ 64

theorem readSegment_lt (data : Memory) (i : Nat) :
    (readSegment data i).vaddr < 2 ^ 64 ∧ (readSegment data i).memsz < 2 ^ 64 :=
  ⟨Memory.word_lt data _, Memory.word_lt data _⟩

/-- The page loop runs below the last page of the address space. -/
theorem loopPage_of_mem_pages {segment : HOTSegment} (hvaddr : segment.vaddr < 2 ^ 64)
    {address : Nat} (h : address ∈ segment.pages) : address % 4096 = 0 ∧ LoopPage address := by
  have hend : wrap64 (segment.vaddr + segment.memsz + 0xFFF) < 2 ^ 64 := Nat.mod_lt _ (by decide)
  rw [HOTSegment.pages] at h
  split at h
  · exact absurd h (by simp)
  · obtain ⟨n, rfl, hlt⟩ := mem_pageLoop.mp h
    rw [HOTSegment.endPage, pageFloor_eq hend] at hlt
    rw [HOTSegment.startPage, pageFloor_eq hvaddr] at hlt ⊢
    simp only [LoopPage, kVMPageSize] at hlt ⊢
    omega

theorem loopPage_of_mem_hotTurns {data : Memory} {turn : HOTSegment × Nat}
    (h : turn ∈ hotTurns data) : turn.2 % 4096 = 0 ∧ LoopPage turn.2 := by
  rw [hotTurns] at h
  split at h
  · exact absurd h (by simp)
  · obtain ⟨i, -, hi⟩ := List.mem_flatMap.mp h
    obtain ⟨address, haddress, rfl⟩ := List.mem_map.mp hi
    exact loopPage_of_mem_pages (readSegment_lt data i).1 haddress

/-- The bytes of the page at `address` after the page loop: the part of the
file that falls into it, and zeros. -/
def pageByte (data : Memory) (segment : HOTSegment) (address i : Nat) : UInt8 :=
  if segment.overleapStart address ≤ address + i ∧ address + i < segment.overleapEnd address then
    data (segment.sourceOffset address + (address + i - segment.overleapStart address))
  else 0

theorem overleapStart_ge (segment : HOTSegment) (address : Nat) :
    address ≤ segment.overleapStart address := by
  rw [HOTSegment.overleapStart]
  split <;> omega

theorem overleapEnd_le (segment : HOTSegment) {address : Nat} (h : LoopPage address) :
    segment.overleapEnd address ≤ address + 4096 := by
  rw [LoopPage] at h
  rw [HOTSegment.overleapEnd, kVMPageSize, wrap64_of_lt h]
  split <;> omega

section Fill

variable {spaces : List Nat} {role : Roles} {s : VMState} {data : Memory} {segment : HOTSegment}
  {physicalPage address : Nat}

/-- Only the frame is written. -/
theorem fillPage_eq (h : Consistent spaces role s) (hframe : IsFrameAddress physicalPage)
    (haddress : LoopPage address) :
    ∃ mem, fillPage data segment s physicalPage address = { s with mem } ∧
      (∀ i, i < 4096 → mem (physicalPage + i) = pageByte data segment address i) ∧
      ∀ x, x / 4096 * 4096 ≠ physicalPage → mem x = s.mem x := by
  obtain ⟨halign, hlt⟩ := hframe
  have hstart := overleapStart_ge segment address
  have hend := overleapEnd_le segment haddress
  rw [fillPage, h.clearPage_eq hlt, zeroPage]
  simp only [kVMPageSize]
  split
  -- The segment has bytes for this page, which are copied into the cleared frame.
  · next hoverlap =>
    have hpointer : wrap64 (physToHhdm physicalPage + (segment.overleapStart address - address)) =
        physToHhdm (physicalPage + (segment.overleapStart address - address)) := by
      simp only [physToHhdm, wrap64]
      omega
    have htranslate : ∀ mem, VMState.translate { s with mem }
        (physToHhdm (physicalPage + (segment.overleapStart address - address))) =
          physicalPage + (segment.overleapStart address - address) := fun mem =>
      translate_physToHhdm { s with mem } h.isInitialized (by omega)
    refine ⟨(s.mem.fill physicalPage 4096 0).blit
        (physicalPage + (segment.overleapStart address - address))
        (segment.overleapEnd address - segment.overleapStart address)
        fun i => data (segment.sourceOffset address + i), ?_, fun i hi => ?_, fun x hx => ?_⟩
    · rw [copyIn, hpointer, htranslate, memoryCopyFrom_eq_blit]
    · by_cases hin : segment.overleapStart address ≤ address + i ∧
          address + i < segment.overleapEnd address
      · rw [Memory.blit_inside _ _ (by omega) (by omega), pageByte, if_pos hin]
        congr 1
        omega
      · rw [Memory.blit_outside _ _ (by omega), Memory.fill_inside _ _ (by omega) (by omega),
          pageByte, if_neg hin]
    · rw [Memory.blit_outside _ _ (by omega), Memory.fill_outside _ _ (by omega)]
  -- It has none: the page is all zeros.
  · next hoverlap =>
    refine ⟨_, rfl, fun i hi => ?_, fun x hx => ?_⟩
    · rw [Memory.fill_inside _ _ (by omega) (by omega), pageByte, if_neg (by omega)]
    · exact Memory.fill_outside _ _ (by omega)

theorem writesFrame_fillPage (data : Memory) (segment : HOTSegment) (haddress : LoopPage address) :
    WritesFrame spaces fun s phys => fillPage data segment s phys address := by
  intro role s phys h hframe
  obtain ⟨mem, heq, -, hmem⟩ := fillPage_eq h hframe haddress
  exact ⟨mem, heq, hmem⟩

theorem fillsFrame_fillPage (data : Memory) (segment : HOTSegment) (haddress : LoopPage address) :
    FillsFrame spaces (fun s phys => fillPage data segment s phys address)
      (pageByte data segment address) := by
  intro role s phys h hframe i hi
  show (fillPage data segment s phys address).mem (phys + i) = _
  obtain ⟨mem, heq, hmem, -⟩ : ∃ mem, fillPage data segment s phys address = { s with mem } ∧ _ :=
    fillPage_eq h hframe haddress
  rw [heq]
  exact hmem i hi

end Fill

section Turn

variable {spaces : List Nat} {s : VMState} {pml4 : Nat} {turn : HOTSegment × Nat}

/-- A turn of the loader writes the frame after it is mapped. -/
theorem hotTurn_eq (data : Memory) :
    hotTurn pml4 data s turn = pageTurn (fun s _ => s)
      (fun s phys => fillPage data turn.1 s phys turn.2) s pml4 turn.2 := rfl

theorem hotTurn_outcome (data : Memory) (h : ∃ role, Consistent spaces role s) (hpml4 : pml4 ∈ spaces)
    (hturn : LoopPage turn.2) : TurnOutcome spaces s pml4 turn.2 (hotTurn pml4 data s turn) := by
  obtain ⟨role, h⟩ := h
  rw [hotTurn_eq]
  exact pageTurn_outcome writesFrame_id (writesFrame_fillPage data turn.1 hturn) h hpml4 turn.2

end Turn


end TermOS.OS
