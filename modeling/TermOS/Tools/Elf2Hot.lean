import TermOS.Lib.Bytes
import TermOS.OS.HOTLoader

/-!
# The converter from ELF to HOT

Model of `tools/elf2hot/src/main.rs`. Parsing the ELF file is the work of a
library; here it is a parameter, and `Elf` is what the converter reads of its
result. The converter's own declarations of the file layout are kept apart from
those of the loader, which reads the file.
-/

namespace TermOS.Tools

open TermOS.Lib TermOS.OS TermOS.VM

/-! ## Section 1: The parsed ELF file -/

/-- `PT_LOAD` -/
def ptLoad : UInt32 := 1

/-- A `Vec<u8>`; no allocation exceeds `isize::MAX` bytes. -/
structure ByteVec where
  bytes : List UInt8
  length_lt : bytes.length < 2 ^ 63

/-- The fields of a program header that the converter reads, and what the library's
`is_executable` says of it. -/
structure ProgramHeader where
  pType : UInt32
  isExecutable : Bool
  pOffset : UInt64
  pVaddr : UInt64
  pFilesz : UInt64
  pMemsz : UInt64
  deriving DecidableEq, Repr

/-- The parsed file. The headers are a `Vec` of 56-byte records. -/
structure Elf where
  entry : UInt64
  programHeaders : List ProgramHeader
  length_lt : programHeaders.length * 56 < 2 ^ 63

/-- `load_segments` -/
def Elf.loadSegments (elf : Elf) : List ProgramHeader :=
  elf.programHeaders.filter fun ph => ph.pType = ptLoad

/-! ## Section 2: The file that is written -/

/-- `HotHeader` -/
structure HotHeader where
  magic : UInt32
  version : UInt8
  reservedPad : UInt8 × UInt8 × UInt8 := (0, 0, 0)
  entryPoint : UInt64
  segmentsCount : UInt64
  reserved : UInt64 := 0

/-- `HotSegment` -/
structure HotSegment where
  stype : UInt64
  vaddr : UInt64
  offset : UInt64
  filesz : UInt64
  memsz : UInt64

/-- The bytes of a packed `HotHeader` on a little-endian machine. -/
def HotHeader.bytes (header : HotHeader) : List UInt8 :=
  encodeLE 4 header.magic.toNat ++ (encodeLE 1 header.version.toNat ++
    ([header.reservedPad.1, header.reservedPad.2.1, header.reservedPad.2.2] ++
      (encodeLE 8 header.entryPoint.toNat ++ (encodeLE 8 header.segmentsCount.toNat ++
        encodeLE 8 header.reserved.toNat))))

/-- The bytes of a packed `HotSegment`. -/
def HotSegment.bytes (segment : HotSegment) : List UInt8 :=
  encodeLE 8 segment.stype.toNat ++ (encodeLE 8 segment.vaddr.toNat ++
    (encodeLE 8 segment.offset.toNat ++ (encodeLE 8 segment.filesz.toNat ++
      encodeLE 8 segment.memsz.toNat)))

/-- `&buffer[start..start + count]`; `none` is the panic of a slice that is out
of bounds. -/
def slice (buffer : ByteVec) (start count : UInt64) : Option (List UInt8) :=
  let stop := start + count
  if start ≤ stop ∧ stop.toNat ≤ buffer.bytes.length then
    some ((buffer.bytes.drop start.toNat).take (stop.toNat - start.toNat))
  else none

/-- The loop over `load_segments`: the segment table and the data, from
`current_offset` on. -/
def convertSegments (buffer : ByteVec) :
    UInt64 → List ProgramHeader → Option (List HotSegment × List (List UInt8))
  | _, [] => some ([], [])
  | currentOffset, ph :: rest => do
    -- a slice out of range panics
    let data ← slice buffer ph.pOffset ph.pFilesz
    let segment : HotSegment := {
      stype := if ph.isExecutable then 1 else 2
      vaddr := ph.pVaddr
      offset := currentOffset
      filesz := ph.pFilesz
      memsz := ph.pMemsz }
    -- contents follow one another in the order of the headers
    let (segments, datas) ← convertSegments buffer (currentOffset + ph.pFilesz) rest
    some (segment :: segments, data :: datas)

/-- `main`, from the contents of the input file to those of the output file;
`none` is an error or a panic. -/
def elf2hot (parse : ByteVec → Option Elf) (buffer : ByteVec) : Option (List UInt8) := do
  let elf ← parse buffer
  -- the contents begin behind the header and all records
  let start := UInt64.ofNat 32 + UInt64.ofNat (elf.loadSegments.length * 40)
  let (segments, datas) ← convertSegments buffer start elf.loadSegments
  let header : HotHeader := {
    magic := 0x21544F48
    version := 1
    entryPoint := elf.entry
    segmentsCount := UInt64.ofNat segments.length }
  some (header.bytes ++ (segments.flatMap HotSegment.bytes ++ datas.flatten))

/-! ## Section 3: The file in closed form -/

/-- The data of a segment in the ELF file. -/
def ProgramHeader.data (ph : ProgramHeader) (buffer : ByteVec) : List UInt8 :=
  (buffer.bytes.drop ph.pOffset.toNat).take ph.pFilesz.toNat

/-- The segment's file range lies in the file. -/
def ProgramHeader.InBounds (ph : ProgramHeader) (buffer : ByteVec) : Prop :=
  ph.pOffset.toNat + ph.pFilesz.toNat ≤ buffer.bytes.length

/-- Each segment with the offset of its data in the output. -/
def layout : Nat → List ProgramHeader → List (ProgramHeader × Nat)
  | _, [] => []
  | offset, ph :: rest => (ph, offset) :: layout (offset + ph.pFilesz.toNat) rest

/-- The table entry of a segment. -/
def hotSegment (placed : ProgramHeader × Nat) : HotSegment where
  stype := if placed.1.isExecutable then 1 else 2
  vaddr := placed.1.pVaddr
  offset := UInt64.ofNat placed.2
  filesz := placed.1.pFilesz
  memsz := placed.1.pMemsz

/-- The header that is written. -/
def Elf.hotHeader (elf : Elf) : HotHeader where
  magic := 0x21544F48
  version := 1
  entryPoint := elf.entry
  segmentsCount := UInt64.ofNat elf.loadSegments.length

/-- Where the data begins. -/
def Elf.dataStart (elf : Elf) : Nat := 32 + elf.loadSegments.length * 40

/-- The segments with the offsets of their data. -/
def Elf.placed (elf : Elf) : List (ProgramHeader × Nat) := layout elf.dataStart elf.loadSegments

/-- The output file. -/
def Elf.hotFile (elf : Elf) (buffer : ByteVec) : List UInt8 :=
  elf.hotHeader.bytes ++ (elf.placed.flatMap (fun p => (hotSegment p).bytes) ++
    elf.loadSegments.flatMap fun ph => ph.data buffer)

theorem map_fst_layout (offset : Nat) (segments : List ProgramHeader) :
    (layout offset segments).map Prod.fst = segments := by
  induction segments generalizing offset with
  | nil => rfl
  | cons ph rest ih => rw [layout, List.map_cons, ih]

theorem length_layout (offset : Nat) (segments : List ProgramHeader) :
    (layout offset segments).length = segments.length := by
  rw [← List.length_map Prod.fst, map_fst_layout]

theorem slice_eq_some {buffer : ByteVec} {ph : ProgramHeader} (h : ph.InBounds buffer) :
    slice buffer ph.pOffset ph.pFilesz = some (ph.data buffer) := by
  have hlt := buffer.length_lt
  rw [ProgramHeader.InBounds] at h
  have hstop : (ph.pOffset + ph.pFilesz).toNat = ph.pOffset.toNat + ph.pFilesz.toNat := by
    rw [UInt64.toNat_add, Nat.mod_eq_of_lt (by omega)]
  rw [slice, if_pos, hstop, Nat.add_sub_cancel_left, ProgramHeader.data]
  rw [UInt64.le_iff_toNat_le, hstop]
  exact ⟨Nat.le_add_right _ _, h⟩

theorem convertSegments_eq_some {buffer : ByteVec} {segments : List ProgramHeader}
    (h : ∀ ph ∈ segments, ph.InBounds buffer) (offset : Nat) :
    convertSegments buffer (UInt64.ofNat offset) segments =
      some ((layout offset segments).map hotSegment, segments.map fun ph => ph.data buffer) := by
  induction segments generalizing offset with
  | nil => rfl
  | cons ph rest ih =>
    have hnext : UInt64.ofNat offset + ph.pFilesz =
        UInt64.ofNat (offset + ph.pFilesz.toNat) := by
      rw [UInt64.ofNat_add, UInt64.ofNat_toNat]
    rw [convertSegments, slice_eq_some (h ph List.mem_cons_self), hnext,
      ih fun ph' hph' => h ph' (List.mem_cons_of_mem _ hph')]
    rfl

/-- The converter succeeds when the file ranges are in bounds. -/
theorem elf2hot_eq_some {parse : ByteVec → Option Elf} {buffer : ByteVec} {elf : Elf}
    (hparse : parse buffer = some elf) (h : ∀ ph ∈ elf.loadSegments, ph.InBounds buffer) :
    elf2hot parse buffer = some (elf.hotFile buffer) := by
  have hstart : UInt64.ofNat 32 + UInt64.ofNat (elf.loadSegments.length * 40) =
      UInt64.ofNat elf.dataStart := by
    rw [← UInt64.ofNat_add, Elf.dataStart]
  rw [elf2hot, hparse]
  simp only [Option.bind_eq_bind, Option.bind_some, hstart, convertSegments_eq_some h]
  rw [Elf.hotFile, List.flatMap_map, List.length_map, length_layout, List.flatMap_def (l := elf.loadSegments)]
  rfl

/-! ## Section 4: What the loader reads -/

theorem length_header_bytes (header : HotHeader) : header.bytes.length = hotHeaderSize := by
  simp [HotHeader.bytes, hotHeaderSize]

theorem length_segment_bytes (segment : HotSegment) : segment.bytes.length = hotSegmentSize := by
  simp [HotSegment.bytes, hotSegmentSize]

/-- The loader's view of a table entry. -/
def HotSegment.loaded (segment : HotSegment) : HOTSegment where
  type := segment.stype.toNat
  vaddr := segment.vaddr.toNat
  offset := segment.offset.toNat
  filesz := segment.filesz.toNat
  memsz := segment.memsz.toNat

/-- The loader reads the fields that were written. -/
theorem readHeader_bytes (header : HotHeader) (ys : List UInt8) (rest : Memory) :
    (readHeader (Memory.ofBytes (header.bytes ++ ys) rest)).magic = header.magic.toNat ∧
    (readHeader (Memory.ofBytes (header.bytes ++ ys) rest)).entryPoint =
      header.entryPoint.toNat ∧
    (readHeader (Memory.ofBytes (header.bytes ++ ys) rest)).segmentsCount =
      header.segmentsCount.toNat := by
  have hmagic := header.magic.toNat_lt
  have hentry := header.entryPoint.toNat_lt
  have hcount := header.segmentsCount.toNat_lt
  simp only [readHeader, HotHeader.bytes, List.append_assoc, Memory.word]
  refine ⟨?_, ?_, ?_⟩
  · rw [Memory.readLE_ofBytes_encodeLE, Nat.mod_eq_of_lt (by norm_num; exact hmagic)]
  · simp only [Memory.readLE_ofBytes_append, length_encodeLE, List.length_cons, List.length_nil,
      Nat.reduceLeDiff, Nat.reduceSub, Nat.reduceAdd, Memory.readLE_ofBytes_encodeLE]
    exact Nat.mod_eq_of_lt (by norm_num; exact hentry)
  · simp only [Memory.readLE_ofBytes_append, length_encodeLE, List.length_cons, List.length_nil,
      Nat.reduceLeDiff, Nat.reduceSub, Nat.reduceAdd, Memory.readLE_ofBytes_encodeLE]
    exact Nat.mod_eq_of_lt (by norm_num; exact hcount)

theorem readSegmentAt_bytes (segment : HotSegment) (ys : List UInt8) (rest : Memory) :
    readSegmentAt (Memory.ofBytes (segment.bytes ++ ys) rest) 0 = segment.loaded := by
  simp only [readSegmentAt, HotSegment.bytes, List.append_assoc, Memory.word, HotSegment.loaded,
    Memory.readLE_ofBytes_append, length_encodeLE, Nat.reduceLeDiff, Nat.reduceSub, Nat.zero_add,
    Memory.readLE_ofBytes_encodeLE, HOTSegment.mk.injEq]
  norm_num

theorem readSegmentAt_append {xs : List UInt8} (ys : List UInt8) (rest : Memory) (a : Nat) :
    readSegmentAt (Memory.ofBytes (xs ++ ys) rest) (xs.length + a) =
      readSegmentAt (Memory.ofBytes ys fun j => rest (xs.length + j)) a := by
  have hread : ∀ k n, (Memory.ofBytes (xs ++ ys) rest).readLE (xs.length + a + k) n =
      (Memory.ofBytes ys fun j => rest (xs.length + j)).readLE (a + k) n := by
    intro k n
    rw [Memory.readLE_ofBytes_append xs ys rest n (by omega)]
    congr 1
    omega
  have hbase := hread 0 8
  simp only [Nat.add_zero] at hbase
  simp only [readSegmentAt, Memory.word, hread, hbase]

/-- Entry `i` of a segment table. -/
theorem readSegmentAt_table {segments : List HotSegment} (ys : List UInt8) (rest : Memory) {i : Nat}
    {segment : HotSegment} (h : segments[i]? = some segment) :
    readSegmentAt (Memory.ofBytes (segments.flatMap HotSegment.bytes ++ ys) rest)
      (hotSegmentSize * i) = segment.loaded := by
  induction segments generalizing i rest with
  | nil => exact absurd h (by simp)
  | cons first others ih =>
    rw [List.flatMap_cons, List.append_assoc]
    cases i with
    | zero =>
      obtain rfl : first = segment := by simpa using h
      exact readSegmentAt_bytes first _ rest
    | succ i =>
      have hoffset : hotSegmentSize * (i + 1) = first.bytes.length + hotSegmentSize * i := by
        rw [length_segment_bytes, Nat.mul_succ, Nat.add_comm]
      rw [hoffset, readSegmentAt_append]
      exact ih _ (by simpa using h)

end TermOS.Tools
